import Interdoc.Proofs.Registry.History

/-!
# Spellings of file extensions

A look-up brings the extension that it is asked for into lower case and takes the dots in front of
it away, so all spellings of an extension are one question (`forExtension?_congr`).  The extensions
that formats claim are compared as they stand.  So an extension that a format claims is found, in
whatever spelling, exactly if some format claims it in lower case
(`forExtension?_finds_spelling_iff`).  A format that claims it in capitals alone is not found by it
(`forExtension?_capitalsFormat`).
-/

namespace Interdoc

namespace Text

theorem toLower_toLower (s : List Char) : toLower (toLower s) = toLower s := by
  have hchar : ∀ c : Char, c.toLower.toLower = c.toLower := by
    intro c
    unfold Char.toLower
    split
    · next h =>
      -- a capital has become a letter beyond the capitals
      rw [dif_neg]
      rintro ⟨-, hle⟩
      simp only [ge_iff_le, UInt32.le_iff_toNat_le] at h hle
      simp at h hle
      omega
    · rfl
  rw [toLower, toLower, List.map_map]
  exact List.map_congr_left fun c _ => hchar c

theorem head?_toLower_eq_dot_iff (s : List Char) :
    (toLower s).head? = some '.' ↔ s.head? = some '.' := by
  have hchar : ∀ c : Char, c.toLower = '.' ↔ c = '.' := by
    intro c
    unfold Char.toLower
    split
    · next h =>
      simp only [ge_iff_le, UInt32.le_iff_toNat_le] at h
      simp only [Char.ext_iff, UInt32.ext_iff]
      simp at h ⊢
      omega
    · rfl
  cases s with
  | nil => rfl
  | cons c s => simp [toLower, hchar]

end Text

namespace Registry

variable {fs : List Format} {f : Format} {x y : String}

/-- Two extensions are the same but for the case of their letters. -/
def SameLetters (x y : String) : Prop :=
  Text.toLower x.toList = Text.toLower y.toList

instance (x y : String) : Decidable (SameLetters x y) :=
  inferInstanceAs (Decidable (_ = _))

/-- A text spells an extension: it has the same letters in any case, after a dot or without one. -/
def Spells (y x : String) : Prop :=
  SameLetters y x ∨ ∃ rest, y = "." ++ rest ∧ SameLetters rest x

/-- An extension in lower case. -/
def lowered (x : String) : String :=
  String.ofList (Text.toLower x.toList)

theorem sameLetters_lowered (x : String) : SameLetters (lowered x) x := by
  rw [SameLetters, lowered, String.toList_ofList, Text.toLower_toLower]

/-! ### What is looked up -/

theorem normalizeExtension_of_sameLetters (h : SameLetters y x)
    (hdot : x.toList.head? ≠ some '.') : normalizeExtension y = lowered x := by
  have hy : ¬ y.toList.head? = some '.' := by
    rwa [← Text.head?_toLower_eq_dot_iff, h, Text.head?_toLower_eq_dot_iff]
  have hdrop : y.toList.dropWhile (· == '.') = y.toList := by
    cases hchars : y.toList with
    | nil => rfl
    | cons c rest =>
      rw [hchars, List.head?_cons, Option.some_inj] at hy
      exact List.dropWhile_cons_of_neg (by rwa [beq_iff_eq])
  rw [normalizeExtension, lowered, hdrop, h]

/-- **Every spelling of an extension is looked up in lower case.** -/
theorem normalizeExtension_of_spells (h : Spells y x) (hdot : x.toList.head? ≠ some '.') :
    normalizeExtension y = lowered x := by
  rcases h with h | ⟨rest, rfl, h⟩
  · exact normalizeExtension_of_sameLetters h hdot
  · rw [← normalizeExtension_of_sameLetters h hdot, normalizeExtension, normalizeExtension,
      String.toList_append]
    rfl

theorem claims_iff_lowered (h : Spells y x) (hdot : x.toList.head? ≠ some '.') (g : Format) :
    Claims g y ↔ lowered x ∈ g.extensions := by
  rw [← normalizeExtension_of_spells h hdot, ← contains_normalizeExtension, List.contains_iff_mem]

/-- What is found does not depend on how the extension is spelt. -/
theorem forExtension?_congr (h : Spells y x) (hdot : x.toList.head? ≠ some '.') (r : Registry) :
    r.forExtension? y = r.forExtension? x := by
  rw [forExtension?, forExtension?, normalizeExtension_of_spells h hdot,
    normalizeExtension_of_spells (.inl rfl) hdot]

/-! ### What is claimed -/

/-- A spelling is found exactly if a format claims the extension in lower case. -/
theorem exists_forExtension?_iff (h : Spells y x) (hdot : x.toList.head? ≠ some '.') :
    (∃ g, (ofList fs).forExtension? y = some g) ↔
      ∃ g, lastNamed? g.name fs = some g ∧ lowered x ∈ g.extensions := by
  rw [← Option.isSome_iff_exists, Option.isSome_iff_ne_none, ne_eq, forExtension?_eq_none_iff]
  simp only [claims_iff_lowered h hdot, mem_ofList, not_forall, not_not, exists_prop]

/-- **An extension that a registered format claims is found in any spelling if and only if some
registered format claims it in lower case.**  Then it is found in every spelling, and what is found
claims it in lower case.  So every format whose extensions are in lower case is reached by them. -/
theorem forExtension?_finds_spelling_iff (hf : lastNamed? f.name fs = some f)
    (hx : x ∈ f.extensions) (hdot : x.toList.head? ≠ some '.') (hy : Spells y x) :
    ((∃ g, (ofList fs).forExtension? y = some g ∧ ∃ x' ∈ g.extensions, SameLetters x' x) ↔
      ∃ g, lastNamed? g.name fs = some g ∧ lowered x ∈ g.extensions) ∧
    (lowered x = x →
      ∃ g, (ofList fs).forExtension? y = some g ∧ ∃ x' ∈ g.extensions, SameLetters x' x) ∧
    (ofList fs).forExtension? y = (ofList fs).forExtension? x := by
  have hfound : (∃ g, (ofList fs).forExtension? y = some g ∧
      ∃ x' ∈ g.extensions, SameLetters x' x) ↔
        ∃ g, lastNamed? g.name fs = some g ∧ lowered x ∈ g.extensions := by
    rw [← exists_forExtension?_iff hy hdot]
    refine exists_congr fun g => and_iff_left_of_imp fun hg => ?_
    have hclaims : Claims g y := (forExtension?_eq_some_iff.mp hg).2.1
    exact ⟨lowered x, (claims_iff_lowered hy hdot g).mp hclaims, sameLetters_lowered x⟩
  refine ⟨hfound, fun hlower => hfound.mpr ⟨f, hf, ?_⟩, forExtension?_congr hy hdot _⟩
  rwa [hlower]

/-- A format that does nothing but claim extensions. -/
def claimant (name : String) (extensions : List String) : Format where
  name := name
  extensions := extensions
  read := fun _ => .ok ⟨[]⟩
  write := fun _ => .ok []

theorem forExtension?_finds_spelling_two_claimants :
    lastNamed? "report" [claimant "report" ["TST"], claimant "table" ["csv", "tst"]] =
        some (claimant "report" ["TST"]) ∧
      "TST" ∈ (claimant "report" ["TST"]).extensions ∧ "TST".toList.head? ≠ some '.' ∧
      Spells ".tsT" "TST" ∧
      ∃ g, (ofList [claimant "report" ["TST"], claimant "table" ["csv", "tst"]]).forExtension?
        ".tsT" = some g ∧ ∃ x' ∈ g.extensions, SameLetters x' "TST" := by
  have hspells : Spells ".tsT" "TST" := .inr ⟨"tsT", by decide, by decide +kernel⟩
  refine ⟨rfl, by decide, by decide, hspells, ?_⟩
  have hlast : lastNamed? (claimant "report" ["TST"]).name
      [claimant "report" ["TST"], claimant "table" ["csv", "tst"]] =
        some (claimant "report" ["TST"]) := rfl
  have hfinds := forExtension?_finds_spelling_iff (x := "TST") hlast (by decide) (by decide) hspells
  exact hfinds.1.mpr ⟨claimant "table" ["csv", "tst"], rfl, by decide +kernel⟩

/-- A format that claims an extension in capitals alone is found neither by what it claims nor in
lower case. -/
theorem forExtension?_capitalsFormat :
    (ofList [claimant "report" ["TST"]]).get? "report" = some (claimant "report" ["TST"]) ∧
      "TST" ∈ (claimant "report" ["TST"]).extensions ∧
      Spells "TST" "TST" ∧ (ofList [claimant "report" ["TST"]]).forExtension? "TST" = none ∧
      Spells ".tst" "TST" ∧ (ofList [claimant "report" ["TST"]]).forExtension? ".tst" = none := by
  refine ⟨rfl, by decide, .inl rfl, rfl, .inr ⟨"tst", by decide, by decide +kernel⟩, rfl⟩

end Registry
end Interdoc
