import Interdoc.Proofs.Text.Trim
import Interdoc.Proofs.Text.Utf8

/-!
# Offsets

A place in a text, as the number of octets before it.  `octet?` reads the octet behind a place,
`take?` and `drop?` cut a text at a place, and `slice?` takes out what stands between two places.
A text is cut between whole characters only: cutting fails inside a character and beyond the end,
and a slice fails also when it ends before it starts (`isSome_slice?_iff`).

A scan that reads a text octet by octet, and looks for ASCII characters only, passes over every
other character as a whole (`StepsOver.char`), even if it has been sent into the middle of that
character (`StepsOver.escaped`).
-/

namespace Interdoc.Utf8

/-! ### Octets and cuts -/

/-- The octet of an ASCII character. -/
def ascii (c : Char) : UInt8 := c.toNat.toUInt8

/-- The octet at an offset, unless the text ends there or before. -/
def octet? (s : List Char) (offset : Nat) : Option UInt8 := (encode s)[offset]?

/-- The text behind an offset, if the offset is between characters. -/
def drop? : (offset : Nat) → List Char → Option (List Char)
  | 0, s => some s
  | _ + 1, [] => none
  | offset + 1, c :: s =>
    if charSize c ≤ offset + 1 then drop? (offset + 1 - charSize c) s else none

/-- The text before an offset, if the offset is between characters. -/
def take? : (offset : Nat) → List Char → Option (List Char)
  | 0, _ => some []
  | _ + 1, [] => none
  | offset + 1, c :: s =>
    if charSize c ≤ offset + 1 then (take? (offset + 1 - charSize c) s).map (c :: ·) else none

/-- The text between two offsets, if they are between characters and in order. -/
def slice? (s : List Char) (start stop : Nat) : Option (List Char) :=
  (take? stop s).bind (drop? start)

/-- The offset at which a text first occurs in another. -/
def find? (p s : List Char) : Option Nat :=
  (Text.splitOnce? p s).map fun (before, _) => size before

/-- An offset is between characters: it is the end, or the octet there begins a character. -/
def IsBoundary (s : List Char) (offset : Nat) : Prop :=
  offset = size s ∨ ∃ b, octet? s offset = some b ∧ isTail b = false

variable {s t u v w : List Char} {a c : Char} {offset : Nat}

/-! ### Sizes -/

theorem charSize_pos (c : Char) : 0 < charSize c := by
  unfold charSize
  split_ifs <;> decide

theorem charSize_of_ascii (h : c.toNat < 0x80) : charSize c = 1 := if_pos h

theorem length_encodeChar (c : Char) : (encodeChar c).length = charSize c := by
  rw [encodeChar, charSize]
  split_ifs <;> rfl

@[simp]
theorem size_nil : size [] = 0 := rfl

@[simp]
theorem size_cons (c : Char) (s : List Char) : size (c :: s) = charSize c + size s := rfl

@[simp]
theorem size_append (s t : List Char) : size (s ++ t) = size s + size t := by
  induction s with
  | nil => simp
  | cons c s ih => rw [List.cons_append, size_cons, size_cons, ih, Nat.add_assoc]

theorem size_concat (ha : a.toNat < 0x80) (u : List Char) : size (u ++ [a]) = size u + 1 := by
  rw [size_append, size_cons, size_nil, charSize_of_ascii ha]

theorem size_eq_zero_iff : size s = 0 ↔ s = [] := by
  cases s with
  | nil => simp
  | cons c s =>
    have hpos := charSize_pos c
    simp only [size_cons, reduceCtorEq, iff_false]
    omega

theorem encode_cons (c : Char) (s : List Char) : encode (c :: s) = encodeChar c ++ encode s :=
  List.flatMap_cons

theorem encode_append (s t : List Char) : encode (s ++ t) = encode s ++ encode t :=
  List.flatMap_append

/-- The size of a text counts its octets. -/
theorem length_encode (s : List Char) : (encode s).length = size s := by
  induction s with
  | nil => rfl
  | cons c s ih => rw [encode_cons, List.length_append, length_encodeChar, ih, size_cons]

/-! ### The octets of a character -/

theorem encodeChar_of_ascii (h : c.toNat < 0x80) : encodeChar c = [ascii c] := if_pos h

theorem ascii_injective (ha : a.toNat < 0x80) (hc : c.toNat < 0x80) (h : ascii a = ascii c) :
    a = c := by
  have hnat := congrArg UInt8.toNat h
  rw [ascii, ascii, toNat_toUInt8 (by omega), toNat_toUInt8 (by omega)] at hnat
  rw [← Char.ofNat_toNat a, ← Char.ofNat_toNat c, hnat]

theorem isTail_of_lt {n : Nat} (h : n < 0x80) : isTail n.toUInt8 = false := by
  have hlt : ¬ (0x80 : UInt8) ≤ n.toUInt8 := by
    rw [UInt8.le_iff_toNat_le, toNat_toUInt8 (by omega)]
    exact not_le.mpr h
  rw [isTail, decide_eq_false hlt, Bool.false_and]

theorem isTail_of_le {n : Nat} (hmin : 0xc0 ≤ n) (hmax : n < 0x100) :
    isTail n.toUInt8 = false := by
  have hlt : ¬ n.toUInt8 ≤ (0xbf : UInt8) := by
    rw [UInt8.le_iff_toNat_le, toNat_toUInt8 hmax]
    exact not_le.mpr hmin
  rw [isTail, decide_eq_false hlt, Bool.and_false]

/-- The first octet of a character that is not ASCII, and those that continue it. -/
theorem exists_encodeChar_of_not_ascii (hc : ¬ c.toNat < 0x80) : ∃ n tails,
    encodeChar c = n.toUInt8 :: tails ∧ 0xc0 ≤ n ∧ n < 0x100 ∧ ∀ b ∈ tails, isTail b = true := by
  have hmax := toNat_char c
  have htail (n : Nat) : isTail (0x80 + n % 64).toUInt8 = true :=
    isTail_toUInt8 (Nat.mod_lt n (by decide))
  have hlast (n : Nat) : ∀ b ∈ [(0x80 + n % 64).toUInt8], isTail b = true :=
    List.forall_mem_singleton.mpr (htail n)
  rw [encodeChar, if_neg hc]
  split_ifs with htwo hthree
  · exact ⟨_, _, rfl, by omega, by omega, hlast _⟩
  · exact ⟨_, _, rfl, by omega, by omega, List.forall_mem_cons.mpr ⟨htail _, hlast _⟩⟩
  · exact ⟨_, _, rfl, by omega, by omega, List.forall_mem_cons.mpr
      ⟨htail _, List.forall_mem_cons.mpr ⟨htail _, hlast _⟩⟩⟩

/-- The first octet of a character tells it from those that continue one. -/
theorem exists_encodeChar (c : Char) : ∃ first tails, encodeChar c = first :: tails ∧
    isTail first = false ∧ ∀ b ∈ tails, isTail b = true := by
  by_cases hc : c.toNat < 0x80
  · exact ⟨_, [], encodeChar_of_ascii hc, isTail_of_lt hc, by simp⟩
  · obtain ⟨n, tails, he, hmin, hmax, htails⟩ := exists_encodeChar_of_not_ascii hc
    exact ⟨_, tails, he, isTail_of_le hmin hmax, htails⟩

/-- No octet of another character is that of an ASCII character. -/
theorem ne_ascii_of_mem_encodeChar (hc : ¬ c.toNat < 0x80) (ha : a.toNat < 0x80) {b : UInt8}
    (h : b ∈ encodeChar c) : b ≠ ascii a := by
  rintro rfl
  obtain ⟨n, tails, he, hmin, hmax, htails⟩ := exists_encodeChar_of_not_ascii hc
  rw [he, List.mem_cons] at h
  rcases h with h | h
  · have hnat := congrArg UInt8.toNat h
    rw [ascii, toNat_toUInt8 hmax, toNat_toUInt8 (by omega)] at hnat
    omega
  · have htail := htails _ h
    rw [ascii, isTail_of_lt ha] at htail
    cases htail

/-! ### Octets at an offset -/

theorem octet?_append (u v : List Char) (n : Nat) : octet? (u ++ v) (size u + n) = octet? v n := by
  rw [octet?, octet?, encode_append, ← length_encode, List.getElem?_append_right (by omega),
    Nat.add_sub_cancel_left]

theorem octet?_append_size (u v : List Char) : octet? (u ++ v) (size u) = octet? v 0 :=
  octet?_append u v 0

theorem octet?_eq_none_iff : octet? s offset = none ↔ size s ≤ offset := by
  rw [octet?, List.getElem?_eq_none_iff, length_encode]

theorem lt_size_of_octet? {b : UInt8} (h : octet? s offset = some b) : offset < size s := by
  by_contra hle
  rw [octet?_eq_none_iff.mpr (not_lt.mp hle)] at h
  cases h

theorem octet?_cons_of_lt {n : Nat} (h : n < charSize c) (s : List Char) :
    octet? (c :: s) n = (encodeChar c)[n]? := by
  rw [octet?, encode_cons, List.getElem?_append_left (by rwa [length_encodeChar])]

theorem octet?_ascii (h : a.toNat < 0x80) (s : List Char) : octet? (a :: s) 0 = some (ascii a) := by
  rw [octet?_cons_of_lt (charSize_pos a), encodeChar_of_ascii h]
  rfl

theorem octet?_of_eq (ha : a.toNat < 0x80) (hs : s = u ++ a :: v) :
    octet? s (size u) = some (ascii a) := by
  rw [hs, octet?_append_size, octet?_ascii ha]

theorem octet?_end (s : List Char) : octet? s (size s) = none :=
  octet?_eq_none_iff.mpr le_rfl

/-- Two octets on from the last character of a text there is nothing left. -/
theorem octet?_escape_end (ha : a.toNat < 0x80) (hs : s = u ++ [a]) :
    octet? s (size u + 2) = none := by
  rw [octet?_eq_none_iff, hs, size_concat ha]
  omega

/-- The octets within a character mean nothing to a reader of ASCII characters. -/
theorem octet?_cons_ne_ascii (hc : ¬ c.toNat < 0x80) (ha : a.toNat < 0x80) {n : Nat}
    (h : n < charSize c) (s : List Char) : octet? (c :: s) n ≠ some (ascii a) := by
  intro hb
  rw [octet?_cons_of_lt h] at hb
  exact ne_ascii_of_mem_encodeChar hc ha (List.mem_of_getElem? hb) rfl

/-- **The octet of an ASCII character** stands where that character does. -/
theorem octet?_eq_ascii_iff (ha : a.toNat < 0x80) :
    octet? s offset = some (ascii a) ↔ ∃ u v, s = u ++ a :: v ∧ size u = offset := by
  constructor
  · intro h
    induction s generalizing offset with
    | nil => cases h
    | cons c s ih =>
      rcases lt_or_ge offset (charSize c) with hlt | hle
      · by_cases hc : c.toNat < 0x80
        · rw [charSize_of_ascii hc] at hlt
          obtain rfl : offset = 0 := by omega
          rw [octet?_ascii hc, Option.some_inj] at h
          exact ⟨[], s, by rw [ascii_injective hc ha h]; rfl, rfl⟩
        · exact absurd h (octet?_cons_ne_ascii hc ha hlt s)
      · have hsize : offset = size [c] + (offset - charSize c) := by simp; omega
        rw [hsize] at h
        obtain ⟨u, v, rfl, hu⟩ := ih ((octet?_append [c] s _).symm.trans h)
        exact ⟨c :: u, v, rfl, by rw [size_cons, hu]; omega⟩
  · rintro ⟨u, v, hs, rfl⟩
    exact octet?_of_eq ha hs

/-- Where another character begins there is not the octet of the ASCII character. -/
theorem octet?_ne_ascii (ha : a.toNat < 0x80) (hc : c ≠ a) (hs : s = u ++ c :: v) :
    octet? s (size u) ≠ some (ascii a) := by
  rw [hs, octet?_append_size]
  by_cases hascii : c.toNat < 0x80
  · rw [octet?_ascii hascii]
    intro hb
    exact hc (ascii_injective hascii ha (Option.some_inj.mp hb))
  · exact octet?_cons_ne_ascii hascii ha (charSize_pos c) v

/-! ### Cuts -/

theorem drop?_append_size (u v : List Char) : drop? (size u) (u ++ v) = some v := by
  induction u with
  | nil => rw [size_nil, drop?, List.nil_append]
  | cons c u ih =>
    obtain ⟨n, hn⟩ := Nat.exists_eq_add_of_lt (charSize_pos c)
    rw [Nat.zero_add] at hn
    rw [size_cons, List.cons_append, hn, Nat.add_right_comm, drop?, hn, if_pos (by omega),
      show n + size u + 1 - (n + 1) = size u by omega, ih]

theorem take?_append_size (u v : List Char) : take? (size u) (u ++ v) = some u := by
  induction u with
  | nil => rw [size_nil, take?]
  | cons c u ih =>
    obtain ⟨n, hn⟩ := Nat.exists_eq_add_of_lt (charSize_pos c)
    rw [Nat.zero_add] at hn
    rw [size_cons, List.cons_append, hn, Nat.add_right_comm, take?, hn, if_pos (by omega),
      show n + size u + 1 - (n + 1) = size u by omega, ih]
    rfl

theorem drop?_eq_some_iff : drop? offset s = some v ↔ ∃ u, s = u ++ v ∧ size u = offset := by
  constructor
  · fun_induction drop? offset s with
    | case1 s =>
      intro h
      rw [Option.some_inj] at h
      exact ⟨[], h, rfl⟩
    | case2 => exact fun h => by cases h
    | case3 offset c s hle ih =>
      intro h
      obtain ⟨u, rfl, hu⟩ := ih h
      exact ⟨c :: u, rfl, by rw [size_cons, hu]; omega⟩
    | case4 => exact fun h => by cases h
  · rintro ⟨u, rfl, rfl⟩
    exact drop?_append_size u v

theorem take?_eq_some_iff : take? offset s = some u ↔ ∃ v, s = u ++ v ∧ size u = offset := by
  constructor
  · fun_induction take? offset s generalizing u with
    | case1 s =>
      intro h
      rw [Option.some_inj] at h
      exact ⟨s, by rw [← h, List.nil_append], by rw [← h, size_nil]⟩
    | case2 => exact fun h => by cases h
    | case3 offset c s hle ih =>
      intro h
      obtain ⟨u, hu, rfl⟩ := Option.map_eq_some_iff.mp h
      obtain ⟨v, rfl, hsize⟩ := ih hu
      exact ⟨v, rfl, by rw [size_cons, hsize]; omega⟩
    | case4 => exact fun h => by cases h
  · rintro ⟨v, rfl, rfl⟩
    exact take?_append_size u v

/-- **A slice** stands between two texts whose sizes are its offsets. -/
theorem slice?_eq_some_iff {start stop : Nat} {m : List Char} :
    slice? s start stop = some m ↔
      ∃ u v, s = u ++ m ++ v ∧ size u = start ∧ size (u ++ m) = stop := by
  rw [slice?, Option.bind_eq_some_iff]
  simp only [take?_eq_some_iff, drop?_eq_some_iff]
  constructor
  · rintro ⟨_, ⟨v, rfl, hstop⟩, u, rfl, hstart⟩
    exact ⟨u, v, rfl, hstart, hstop⟩
  · rintro ⟨u, v, rfl, hstart, hstop⟩
    exact ⟨u ++ m, ⟨v, rfl, hstop⟩, u, rfl, hstart⟩

theorem slice?_mid {m : List Char} (hs : s = u ++ m ++ v) :
    slice? s (size u) (size (u ++ m)) = some m :=
  slice?_eq_some_iff.mpr ⟨u, v, hs, rfl, rfl⟩

theorem slice?_left (u v : List Char) : slice? (u ++ v) 0 (size u) = some u :=
  slice?_mid (u := []) rfl

theorem slice?_right (u v : List Char) : slice? (u ++ v) (size u) (size (u ++ v)) = some v :=
  slice?_mid (List.append_nil _).symm

theorem slice?_of_eq (hs : s = u ++ v) : slice? s (size u) (size s) = some v := by
  rw [hs, slice?_right]

/-! ### Searches -/

theorem find?_nil {p : List Char} (h : p ≠ []) : find? p [] = none := by
  rw [find?, Text.splitOnce?, if_neg (by simpa using h), Option.map_none]

theorem find?_cons_of {p : List Char} (h : p <+: c :: s) : find? p (c :: s) = some 0 := by
  obtain ⟨t, ht⟩ := h
  rw [find?, Text.splitOnce?, ← ht, Text.stripPrefix?_append]
  rfl

theorem find?_cons_of_not {p : List Char} (h : ¬ p <+: c :: s) :
    find? p (c :: s) = (find? p s).map (charSize c + ·) := by
  rw [find?, find?, Text.splitOnce?, Text.stripPrefix?_eq_none_iff.mpr h]
  cases Text.splitOnce? p s <;> rfl

/-! ### Boundaries -/

theorem isBoundary_iff : IsBoundary s offset ↔ ∃ u v, s = u ++ v ∧ size u = offset := by
  constructor
  · intro h
    induction s generalizing offset with
    | nil =>
      rcases h with rfl | ⟨b, hb, -⟩
      · exact ⟨[], [], rfl, rfl⟩
      · cases hb
    | cons c s ih =>
      rcases Nat.eq_zero_or_pos offset with rfl | hpos
      · exact ⟨[], c :: s, rfl, rfl⟩
      -- within the first character there are only octets that continue it
      have hle : charSize c ≤ offset := by
        rcases h with rfl | ⟨b, hb, htail⟩
        · exact Nat.le_add_right _ _
        · by_contra hlt
          rw [octet?_cons_of_lt (not_le.mp hlt)] at hb
          obtain ⟨first, tails, hc, -, htails⟩ := exists_encodeChar c
          obtain ⟨n, rfl⟩ := Nat.exists_eq_succ_of_ne_zero hpos.ne'
          rw [hc, List.getElem?_cons_succ] at hb
          rw [htails b (List.mem_of_getElem? hb)] at htail
          cases htail
      have hsize : offset = size [c] + (offset - charSize c) := by simp; omega
      have hrest : IsBoundary s (offset - charSize c) := by
        rcases h with h | ⟨b, hb, htail⟩
        · left
          rw [h, size_cons, Nat.add_sub_cancel_left]
        · right
          rw [hsize] at hb
          exact ⟨b, (octet?_append [c] s _).symm.trans hb, htail⟩
      obtain ⟨u, v, rfl, hu⟩ := ih hrest
      exact ⟨c :: u, v, rfl, by rw [size_cons, hu]; omega⟩
  · rintro ⟨u, v, rfl, rfl⟩
    cases v with
    | nil => exact Or.inl (by rw [List.append_nil])
    | cons c v =>
      obtain ⟨first, tails, hc, hfirst, -⟩ := exists_encodeChar c
      refine Or.inr ⟨first, ?_, hfirst⟩
      rw [octet?_append_size, octet?_cons_of_lt (charSize_pos c), hc]
      rfl

/-- **What is sliced** lies within the text, between characters, and does not end before it
starts; and every slice that does can be taken. -/
theorem isSome_slice?_iff {start stop : Nat} : (slice? s start stop).isSome ↔
    start ≤ stop ∧ stop ≤ size s ∧ IsBoundary s start ∧ IsBoundary s stop := by
  rw [Option.isSome_iff_exists]
  simp only [slice?_eq_some_iff, isBoundary_iff]
  constructor
  · rintro ⟨m, u, v, rfl, rfl, rfl⟩
    simp only [size_append]
    exact ⟨by omega, by omega, ⟨u, m ++ v, by simp, rfl⟩, ⟨u ++ m, v, rfl, by simp⟩⟩
  · rintro ⟨hle, -, ⟨u, v, rfl, rfl⟩, u', v', heq, rfl⟩
    -- the longer front goes on where the shorter one ends
    rcases List.append_eq_append_iff.mp heq with ⟨m, rfl, rfl⟩ | ⟨m, rfl, rfl⟩
    · exact ⟨m, u, v', by simp, rfl, rfl⟩
    · have hm : size m = 0 := by rw [size_append] at hle; omega
      rw [size_eq_zero_iff] at hm
      subst hm
      exact ⟨[], u', v, by simp, by simp, by simp⟩

-- the second character has two octets
example : slice? ['a', 'é', 'b'] 1 3 = some ['é'] ∧ slice? ['a', 'é', 'b'] 1 2 = none ∧
    slice? ['a', 'é', 'b'] 3 1 = none ∧ slice? ['a', 'é', 'b'] 3 5 = none := by
  decide

/-! ### Scans over octets -/

/-- A scan that goes on by one octet wherever the octet is none of some ASCII characters. -/
structure StepsOver {β : Type} (marks s : List Char) (scan : Nat → β) : Prop where
  ascii : ∀ a ∈ marks, a.toNat < 0x80
  step : ∀ offset b, octet? s offset = some b → (∀ a ∈ marks, b ≠ Utf8.ascii a) →
    scan offset = scan (offset + 1)

section

variable {β : Type} {marks : List Char} {scan : Nat → β}

/-- The octets within a character are passed over one after the other. -/
theorem StepsOver.within (h : StepsOver marks s scan) (hc : ¬ c.toNat < 0x80) (hs : s = u ++ c :: v)
    {n k : Nat} (hk : n + k = charSize c) : scan (size u + n) = scan (size u + charSize c) := by
  induction k generalizing n with
  | zero => rw [← hk, Nat.add_zero]
  | succ k ih =>
    have hlt : n < charSize c := by omega
    obtain ⟨b, hb⟩ : ∃ b, octet? s (size u + n) = some b := by
      rw [hs, octet?_append, octet?_cons_of_lt hlt]
      exact ⟨_, List.getElem?_eq_getElem (by rwa [length_encodeChar])⟩
    have hmark : ∀ a ∈ marks, b ≠ Utf8.ascii a := by
      rintro a ha rfl
      rw [hs, octet?_append] at hb
      exact octet?_cons_ne_ascii hc (h.ascii a ha) hlt v hb
    rw [h.step _ b hb hmark, Nat.add_assoc, ih (by omega)]

/-- **A character that is no mark** is passed over as a whole. -/
theorem StepsOver.char (h : StepsOver marks s scan) (hs : s = u ++ c :: v) (hc : c ∉ marks) :
    scan (size u) = scan (size (u ++ [c])) := by
  rw [size_append, size_cons, size_nil, Nat.add_zero]
  by_cases hascii : c.toNat < 0x80
  · have hb : octet? s (size u) = some (Utf8.ascii c) := by
      rw [hs, octet?_append_size, octet?_ascii hascii]
    have hmark : ∀ a ∈ marks, Utf8.ascii c ≠ Utf8.ascii a := by
      intro a ha he
      exact hc (ascii_injective hascii (h.ascii a ha) he ▸ ha)
    rw [h.step _ _ hb hmark, charSize_of_ascii hascii]
  · exact h.within hascii hs (Nat.zero_add _)

/-- **Two octets after an escape character** a scan goes on as it does behind the whole character
that is escaped. -/
theorem StepsOver.escaped (h : StepsOver marks s scan) (ha : a.toNat < 0x80)
    (hs : s = u ++ a :: c :: v) : scan (size u + 2) = scan (size (u ++ [a, c])) := by
  have hsize := size_concat ha u
  rw [show u ++ [a, c] = u ++ [a] ++ [c] by simp, size_append (u ++ [a]), hsize, size_cons,
    size_nil]
  by_cases hascii : c.toNat < 0x80
  · rw [charSize_of_ascii hascii]
  · have hpos := charSize_pos c
    have hc : s = u ++ [a] ++ c :: v := by rw [hs, List.append_assoc]; rfl
    have hwithin := h.within hascii hc (n := 1) (k := charSize c - 1) (by omega)
    rwa [hsize] at hwithin

end

end Interdoc.Utf8
