import Interdoc.Text.Utf8
import Mathlib.Data.Nat.Basic
import Mathlib.Tactic.IntervalCases

/-!
# Encoded texts are decoded

What `encode` makes of a text is well formed, and `decode?` gives the text back.  It is enough to
show that one character is read from its octets whatever follows them (`char?_encodeChar`), since
the reader passes over exactly as many octets as the character has.
-/

namespace Interdoc.Utf8

/-! ### Octets -/

theorem toNat_toUInt8 {n : Nat} (h : n < 256) : n.toUInt8.toNat = n := by
  rw [Nat.toUInt8, UInt8.toNat_ofNat', Nat.mod_eq_of_lt h]

theorem tailBits_toUInt8 {n : Nat} (h : n < 64) : tailBits (0x80 + n).toUInt8 = n := by
  rw [tailBits, toNat_toUInt8 (by omega)]
  omega

theorem isTail_toUInt8 {n : Nat} (h : n < 64) : isTail (0x80 + n).toUInt8 = true := by
  interval_cases n <;> rfl

theorem lead?_two {n : Nat} (hmin : 2 ≤ n) (hmax : n < 32) :
    lead? (0xc0 + n).toUInt8 = some (0x80, 0xbf, 1) := by
  interval_cases n <;> rfl

theorem lead?_three {n : Nat} (h : n < 16) :
    lead? (0xe0 + n).toUInt8 =
      some (if n = 0 then 0xa0 else 0x80, if n = 13 then 0x9f else 0xbf, 2) := by
  interval_cases n <;> rfl

theorem lead?_four {n : Nat} (h : n < 5) :
    lead? (0xf0 + n).toUInt8 =
      some (if n = 0 then 0x90 else 0x80, if n = 4 then 0x8f else 0xbf, 3) := by
  interval_cases n <;> rfl

/-! ### Characters -/

/-- A character is no surrogate. -/
theorem toNat_char (c : Char) :
    c.toNat < 0xd800 ∨ (0xe000 ≤ c.toNat ∧ c.toNat < 0x110000) := by
  have h := c.valid
  simp only [UInt32.isValidChar, Nat.isValidChar] at h
  show c.val.toNat < _ ∨ _ ≤ c.val.toNat ∧ c.val.toNat < _
  omega

variable (rest : List UInt8) {n : Nat}

theorem char?_one (h : n < 0x80) : char? (n.toUInt8 :: rest) = .ok (Char.ofNat n, 1) := by
  have ha : n.toUInt8.toNat = n := toNat_toUInt8 (by omega)
  have hlt : n.toUInt8 < 0x80 := by
    rw [UInt8.lt_iff_toNat_lt, ha]
    exact h
  unfold char?
  simp only [if_pos hlt, ha]

theorem toUInt8_not_lt {m : Nat} {b : UInt8} (h : b.toNat ≤ m) (hm : m < 256) :
    ¬ m.toUInt8 < b := by
  rw [UInt8.lt_iff_toNat_lt, toNat_toUInt8 hm]
  omega

theorem not_lt_toUInt8 {m : Nat} {b : UInt8} (h : m ≤ b.toNat) : ¬ b < m.toUInt8 := by
  rw [UInt8.lt_iff_toNat_lt, toNat_toUInt8 (by have := b.toNat_lt; omega)]
  omega

theorem char?_two (hmin : 0x80 ≤ n) (hmax : n < 0x800) :
    char? ((0xc0 + n / 64).toUInt8 :: (0x80 + n % 64).toUInt8 :: rest) =
      .ok (Char.ofNat n, 2) := by
  have hsix : n % 64 < 64 := Nat.mod_lt n (by decide)
  have hlead := lead?_two (n := n / 64) (by omega) (by omega)
  have ha : ¬ (0xc0 + n / 64).toUInt8 < 0x80 :=
    toUInt8_not_lt (show 0x80 ≤ _ by omega) (by omega)
  have hb : ¬ ((0x80 + n % 64).toUInt8 < 0x80 ∨ 0xbf < (0x80 + n % 64).toUInt8) :=
    not_or.mpr ⟨toUInt8_not_lt (show 0x80 ≤ _ by omega) (by omega),
      not_lt_toUInt8 (show _ ≤ 0xbf by omega)⟩
  have hvalue : (0xc0 + n / 64) % 32 * 64 + n % 64 = n := by omega
  unfold char?
  simp only [if_neg ha, hlead, Bool.or_eq_true, decide_eq_true_eq, if_neg hb, if_true,
    tailBits_toUInt8 hsix,
    toNat_toUInt8 (show 0xc0 + n / 64 < 256 by omega), hvalue]

theorem char?_three (hmin : 0x800 ≤ n) (hmax : n < 0x10000)
    (hsurrogate : n < 0xd800 ∨ 0xe000 ≤ n) :
    char? ((0xe0 + n / 4096).toUInt8 :: (0x80 + n / 64 % 64).toUInt8 ::
      (0x80 + n % 64).toUInt8 :: rest) = .ok (Char.ofNat n, 3) := by
  have hsix : n % 64 < 64 := Nat.mod_lt n (by decide)
  have htwelve : n / 64 % 64 < 64 := Nat.mod_lt _ (by decide)
  have hlead := lead?_three (n := n / 4096) (by omega)
  have ha : ¬ (0xe0 + n / 4096).toUInt8 < 0x80 :=
    toUInt8_not_lt (show 0x80 ≤ _ by omega) (by omega)
  have hb : ¬ ((0x80 + n / 64 % 64).toUInt8 < (if n / 4096 = 0 then 0xa0 else 0x80) ∨
      (if n / 4096 = 13 then 0x9f else 0xbf) < (0x80 + n / 64 % 64).toUInt8) := by
    refine not_or.mpr ⟨?_, ?_⟩
    · split
      · exact toUInt8_not_lt (show 0xa0 ≤ _ by omega) (by omega)
      · exact toUInt8_not_lt (show 0x80 ≤ _ by omega) (by omega)
    · split
      · exact not_lt_toUInt8 (show _ ≤ 0x9f by omega)
      · exact not_lt_toUInt8 (show _ ≤ 0xbf by omega)
  have hvalue : ((0xe0 + n / 4096) % 16 * 64 + n / 64 % 64) * 64 + n % 64 = n := by omega
  unfold char?
  simp only [if_neg ha, hlead, Bool.or_eq_true, decide_eq_true_eq, if_neg hb,
    isTail_toUInt8 hsix, Bool.not_true, Bool.false_eq_true, if_false, if_true,
    tailBits_toUInt8 hsix, tailBits_toUInt8 htwelve,
    toNat_toUInt8 (show 0xe0 + n / 4096 < 256 by omega), hvalue, OfNat.ofNat_ne_one]

theorem char?_four (hmin : 0x10000 ≤ n) (hmax : n < 0x110000) :
    char? ((0xf0 + n / 262144).toUInt8 :: (0x80 + n / 4096 % 64).toUInt8 ::
      (0x80 + n / 64 % 64).toUInt8 :: (0x80 + n % 64).toUInt8 :: rest) =
      .ok (Char.ofNat n, 4) := by
  have hsix : n % 64 < 64 := Nat.mod_lt n (by decide)
  have htwelve : n / 64 % 64 < 64 := Nat.mod_lt _ (by decide)
  have heighteen : n / 4096 % 64 < 64 := Nat.mod_lt _ (by decide)
  have hlead := lead?_four (n := n / 262144) (by omega)
  have ha : ¬ (0xf0 + n / 262144).toUInt8 < 0x80 :=
    toUInt8_not_lt (show 0x80 ≤ _ by omega) (by omega)
  have hb : ¬ ((0x80 + n / 4096 % 64).toUInt8 < (if n / 262144 = 0 then 0x90 else 0x80) ∨
      (if n / 262144 = 4 then 0x8f else 0xbf) < (0x80 + n / 4096 % 64).toUInt8) := by
    refine not_or.mpr ⟨?_, ?_⟩
    · split
      · exact toUInt8_not_lt (show 0x90 ≤ _ by omega) (by omega)
      · exact toUInt8_not_lt (show 0x80 ≤ _ by omega) (by omega)
    · split
      · exact not_lt_toUInt8 (show _ ≤ 0x8f by omega)
      · exact not_lt_toUInt8 (show _ ≤ 0xbf by omega)
  have hvalue : (((0xf0 + n / 262144) % 8 * 64 + n / 4096 % 64) * 64 + n / 64 % 64) * 64 +
      n % 64 = n := by omega
  unfold char?
  simp only [if_neg ha, hlead, Bool.or_eq_true, decide_eq_true_eq, if_neg hb,
    isTail_toUInt8 hsix, isTail_toUInt8 htwelve, Bool.not_true, Bool.false_eq_true, if_false,
    tailBits_toUInt8 hsix, tailBits_toUInt8 htwelve, tailBits_toUInt8 heighteen,
    toNat_toUInt8 (show 0xf0 + n / 262144 < 256 by omega), hvalue, OfNat.ofNat_ne_one,
    Nat.reduceEqDiff]

/-- **A character is read from its octets**, whatever follows them. -/
theorem char?_encodeChar (c : Char) :
    char? (encodeChar c ++ rest) = .ok (c, (encodeChar c).length) := by
  have hc := toNat_char c
  rw [encodeChar]
  split
  · next h => exact (char?_one rest h).trans (by rw [Char.ofNat_toNat]; rfl)
  · split
    · next h h' => exact (char?_two rest (not_lt.mp h) h').trans (by rw [Char.ofNat_toNat]; rfl)
    · split
      · next h h' =>
        exact (char?_three rest (not_lt.mp h) h' (by omega)).trans (by rw [Char.ofNat_toNat]; rfl)
      · next h =>
        exact (char?_four rest (not_lt.mp h) (by omega)).trans (by rw [Char.ofNat_toNat]; rfl)

/-! ### Texts -/

theorem decodeFrom_append (index : Nat) (w : List UInt8) :
    decodeFrom index w.length (w ++ rest) = decodeFrom (index + w.length) 0 rest := by
  induction w generalizing index with
  | nil => rfl
  | cons b w ih =>
    rw [List.cons_append, List.length_cons, decodeFrom, ih, Nat.add_right_comm, Nat.add_assoc]

theorem decodeFrom_encode (index : Nat) (s : List Char) :
    decodeFrom index 0 (encode s) = .ok s := by
  induction s generalizing index with
  | nil => rfl
  | cons c s ih =>
    have hchar := char?_encodeChar (encode s) c
    have hne : encodeChar c ≠ [] := by
      rw [encodeChar]
      split_ifs <;> exact List.cons_ne_nil _ _
    obtain ⟨b, w, hw⟩ := List.exists_cons_of_ne_nil hne
    have hencode : encode (c :: s) = b :: (w ++ encode s) := by
      rw [encode, List.flatMap_cons, hw]
      rfl
    rw [hw, List.cons_append, List.length_cons] at hchar
    rw [hencode, decodeFrom, hchar]
    simp only [Nat.add_sub_cancel, decodeFrom_append, ih]

/-- **An encoded text is decoded.** -/
theorem decode?_encode (s : List Char) : decode? (encode s) = .ok s :=
  decodeFrom_encode 0 s

end Interdoc.Utf8
