import Interdoc.Registry
import Mathlib.Data.List.Find
import Mathlib.Data.List.Induction
import Mathlib.Data.List.Nodup

/-!
# What a registry remembers

Of all registrations a registry remembers the last one under each name (`lastNamed?`), and nothing
else: two histories lead to the same registry exactly if they have the same last formats.  This is
so because a registry is determined by its look-ups by name (`ext_get?`), which holds of formats
that are sorted and have different names.

A look-up by extension finds the format with the least name that claims the extension.  It can be
read off the formats in whatever order they are held, if their names are sorted first: `sortedNames`
and `claimingIn?` work on entries in any order, and the order does not show in what they give.
-/

namespace Interdoc.Registry

variable {r s : Registry} {f g : Format} {fs entries : List Format} {name extension : String}

/-! ### Look-ups and members -/

theorem nodup_names (r : Registry) : (r.formats.map Format.name).Nodup :=
  List.pairwise_map.mpr (r.sorted.imp fun hlt => Std.ne_of_lt hlt)

/-- Among formats with different names, the one that is found by a name is the one of that name. -/
theorem find?_name_eq_some_iff (h : (entries.map Format.name).Nodup) :
    entries.find? (fun f => f.name = name) = some f ↔ f ∈ entries ∧ f.name = name := by
  constructor
  · intro hfound
    exact ⟨List.mem_of_find?_eq_some hfound, by simpa using List.find?_some hfound⟩
  · rintro ⟨hf, rfl⟩
    cases hfound : entries.find? (fun g => g.name = f.name) with
    | none => exact absurd (by simp) (List.find?_eq_none.mp hfound f hf)
    | some g =>
      have hname : g.name = f.name := by simpa using List.find?_some hfound
      rw [List.inj_on_of_nodup_map h (List.mem_of_find?_eq_some hfound) hf hname]

theorem get?_eq_some_iff : r.get? name = some f ↔ f ∈ r.formats ∧ f.name = name :=
  find?_name_eq_some_iff r.nodup_names

theorem get?_name_eq_some_iff : r.get? f.name = some f ↔ f ∈ r.formats := by
  rw [get?_eq_some_iff, and_iff_left rfl]

/-- **A registry is determined by its look-ups.** -/
theorem ext_get? (h : ∀ name, r.get? name = s.get? name) : r = s := by
  have hmem : ∀ f, f ∈ r.formats ↔ f ∈ s.formats := fun f => by
    rw [← get?_name_eq_some_iff, h, get?_name_eq_some_iff]
  have hperm : r.formats.Perm s.formats :=
    (List.perm_ext_iff_of_nodup r.nodup_names.of_map s.nodup_names.of_map).mpr hmem
  -- sorted lists with the same members are the same
  have hformats : r.formats = s.formats :=
    hperm.eq_of_pairwise (fun f g _ _ hlt hgt => absurd hgt (String.lt_asymm hlt)) r.sorted s.sorted
  cases r
  cases s
  cases hformats
  rfl

/-! ### Histories -/

/-- The last format of a name in a list. -/
def lastNamed? (name : String) (fs : List Format) : Option Format :=
  fs.reverse.find? fun f => f.name = name

theorem lastNamed?_concat (name : String) (fs : List Format) (f : Format) :
    lastNamed? name (fs ++ [f]) = if f.name = name then some f else lastNamed? name fs := by
  rw [lastNamed?, List.reverse_concat, List.find?_cons]
  by_cases h : f.name = name <;> simp [h, lastNamed?]

theorem ofList_concat (fs : List Format) (f : Format) :
    ofList (fs ++ [f]) = (ofList fs).register f := by
  rw [ofList, List.foldl_concat, ofList]

/-- **After any registrations the last format of each name is found.** -/
theorem get?_ofList (fs : List Format) (name : String) :
    (ofList fs).get? name = lastNamed? name fs := by
  induction fs using List.reverseRecOn with
  | nil => rfl
  | append_singleton fs f ih => rw [ofList_concat, get?_register, lastNamed?_concat, ih]

theorem mem_ofList : f ∈ (ofList fs).formats ↔ lastNamed? f.name fs = some f := by
  rw [← get?_name_eq_some_iff, get?_ofList]

theorem isSome_lastNamed? : (lastNamed? name fs).isSome = true ↔ ∃ f ∈ fs, f.name = name := by
  rw [lastNamed?, List.find?_isSome]
  simp only [List.mem_reverse, decide_eq_true_eq]

theorem has_ofList : (ofList fs).has name = true ↔ ∃ f ∈ fs, f.name = name := by
  rw [has, get?_ofList, isSome_lastNamed?]

theorem get_ofList (fs : List Format) (name : String) :
    (ofList fs).get name = (lastNamed? name fs).elim (.error (.formatNotFound name)) .ok := by
  rw [get, get?_ofList]
  cases lastNamed? name fs <;> rfl

/-! ### Names -/

/-- The names come in strictly increasing order. -/
theorem pairwise_names (r : Registry) : r.names.Pairwise (· < ·) :=
  List.pairwise_map.mpr r.sorted

theorem mem_names : name ∈ r.names ↔ r.has name = true := by
  rw [names, List.mem_map, has, Option.isSome_iff_exists]
  simp only [get?_eq_some_iff]

/-- The names of formats that are held in any order, in increasing order. -/
def sortedNames (entries : List Format) : List String :=
  (entries.map Format.name).mergeSort fun a b => decide (a ≤ b)

/-- **The order in which formats are held does not show in the list of their names.** -/
theorem sortedNames_eq (h : entries.Perm r.formats) : sortedNames entries = r.names := by
  have hperm : (sortedNames entries).Perm r.names :=
    (List.mergeSort_perm _ _).trans (h.map Format.name)
  have hsorted : (sortedNames entries).Pairwise (· ≤ ·) := by
    have htrans : ∀ a b c : String, decide (a ≤ b) = true → decide (b ≤ c) = true →
        decide (a ≤ c) = true := by
      simpa using fun a b c : String => String.le_trans
    have htotal : ∀ a b : String, (decide (a ≤ b) || decide (b ≤ a)) = true := by
      simpa using String.le_total
    have hpairwise : (sortedNames entries).Pairwise fun a b => decide (a ≤ b) = true :=
      List.pairwise_mergeSort htrans htotal (entries.map Format.name)
    exact hpairwise.imp fun hle => by simpa using hle
  have hnames : r.names.Pairwise (· ≤ ·) :=
    r.pairwise_names.imp fun hlt => Std.le_of_lt hlt
  exact hperm.eq_of_pairwise (fun a b _ _ hab hba => String.le_antisymm hab hba) hsorted hnames

/-! ### Extensions -/

/-- A format claims an extension, which is given with or without dots and in any case. -/
def Claims (f : Format) (extension : String) : Prop :=
  String.ofList ((extension.toList.dropWhile (· == '.')).map Char.toLower) ∈ f.extensions

theorem contains_normalizeExtension :
    f.extensions.contains (normalizeExtension extension) = true ↔ Claims f extension :=
  List.contains_iff_mem

theorem forExtension?_eq_none_iff :
    r.forExtension? extension = none ↔ ∀ f ∈ r.formats, ¬ Claims f extension := by
  rw [forExtension?, List.find?_eq_none]
  simp only [contains_normalizeExtension]

/-- **A look-up by extension finds the least name** among the formats that claim the extension. -/
theorem forExtension?_eq_some_iff :
    r.forExtension? extension = some f ↔ f ∈ r.formats ∧ Claims f extension ∧
      ∀ g ∈ r.formats, Claims g extension → f.name ≤ g.name := by
  rw [forExtension?, List.find?_eq_some_iff_append]
  simp only [contains_normalizeExtension]
  constructor
  · rintro ⟨hf, before, after, hformats, hbefore⟩
    have hsorted := r.sorted
    rw [hformats, List.pairwise_append, List.pairwise_cons] at hsorted
    rw [hformats]
    refine ⟨by simp, hf, fun g hg hclaims => ?_⟩
    -- what stands before the first claiming format does not claim, and what follows is greater
    rcases List.mem_append.mp hg with hg | hg
    · have hnot := hbefore g hg
      rw [Bool.not_eq_true', ← Bool.not_eq_true, contains_normalizeExtension] at hnot
      exact absurd hclaims hnot
    · rcases List.mem_cons.mp hg with rfl | hg
      · exact String.le_refl _
      · exact Std.le_of_lt (hsorted.2.1.1 g hg)
  · rintro ⟨hf, hclaims, hleast⟩
    obtain ⟨before, after, hformats⟩ := List.append_of_mem hf
    refine ⟨hclaims, before, after, hformats, fun g hg => ?_⟩
    -- a format before it has a smaller name, so it cannot claim the extension
    have hsorted := r.sorted
    rw [hformats, List.pairwise_append] at hsorted
    rw [Bool.not_eq_true', ← Bool.not_eq_true, contains_normalizeExtension]
    intro hg'
    have hlt : g.name < f.name := hsorted.2.2 g hg f List.mem_cons_self
    exact hleast g (hformats ▸ List.mem_append_left _ hg) hg' hlt

/-- The format that is found by an extension among formats that are held in any order: of the sorted
names those whose format claims the extension, and of these the first. -/
def claimingIn? (entries : List Format) (extension : String) : Option Format :=
  let find? (name : String) : Option Format := entries.find? fun f => f.name = name
  let isClaimed (name : String) : Bool :=
    (find? name).any fun f => f.extensions.contains (normalizeExtension extension)
  ((sortedNames entries).filter isClaimed).head?.bind find?

/-- **The order in which formats are held does not show in a look-up by name.** -/
theorem find?_name_eq_get? (h : entries.Perm r.formats) (name : String) :
    entries.find? (fun f => f.name = name) = r.get? name := by
  have hnodup : (entries.map Format.name).Nodup := (h.map Format.name).nodup_iff.mpr r.nodup_names
  ext f
  rw [find?_name_eq_some_iff hnodup, get?_eq_some_iff, h.mem_iff]

/-- **The order in which formats are held does not show in a look-up by extension.** -/
theorem claimingIn?_eq (h : entries.Perm r.formats) (extension : String) :
    claimingIn? entries extension = r.forExtension? extension := by
  have hget : ∀ f ∈ r.formats, r.get? f.name = some f := fun f => get?_name_eq_some_iff.mpr
  -- each format is found under its name, so a name is claimed if its format claims the extension
  have hclaimed : r.formats.find? ((fun name => (r.get? name).any fun f =>
        f.extensions.contains (normalizeExtension extension)) ∘ Format.name) =
      r.formats.find? fun f => f.extensions.contains (normalizeExtension extension) :=
    List.find?_congr fun f hf => by rw [Function.comp_apply, hget f hf, Option.any_some]
  simp only [claimingIn?, sortedNames_eq h, find?_name_eq_get? h]
  rw [List.head?_filter, names, List.find?_map, forExtension?, hclaimed]
  cases hfound : r.formats.find? (fun f =>
      f.extensions.contains (normalizeExtension extension)) with
  | none => rfl
  | some f => exact hget f (List.mem_of_find?_eq_some hfound)

/-! ### Registrations -/

/-- **A registry is what was registered last under each name.**  After any registrations the names
are those that were registered, in strictly increasing order; each is that of the last format which
was registered under it, and an extension is that of the least name whose format claims it.  These
answers do not depend on the order in which the formats are held, and two histories that end with
the same format under each name lead to one and the same registry. -/
theorem ofList_eq_last_registered (fs : List Format) :
    (∀ name, (ofList fs).get name =
        (lastNamed? name fs).elim (.error (.formatNotFound name)) .ok ∧
      ((ofList fs).has name = true ↔ ∃ f ∈ fs, f.name = name) ∧
      (name ∈ (ofList fs).names ↔ ∃ f ∈ fs, f.name = name)) ∧
    (ofList fs).names.Pairwise (· < ·) ∧
    (∀ extension,
      (∀ f, (ofList fs).forExtension? extension = some f ↔ lastNamed? f.name fs = some f ∧
        Claims f extension ∧
          ∀ g, lastNamed? g.name fs = some g → Claims g extension → f.name ≤ g.name) ∧
      ((ofList fs).forExtension? extension = none ↔
        ∀ f, lastNamed? f.name fs = some f → ¬ Claims f extension)) ∧
    (∀ entries : List Format, entries.Perm (ofList fs).formats →
      sortedNames entries = (ofList fs).names ∧
      (∀ name, entries.find? (fun f => f.name = name) = (ofList fs).get? name) ∧
      ∀ extension, claimingIn? entries extension = (ofList fs).forExtension? extension) ∧
    ∀ gs, ofList gs = ofList fs ↔ ∀ name, lastNamed? name gs = lastNamed? name fs := by
  refine ⟨fun name => ⟨get_ofList fs name, has_ofList, mem_names.trans has_ofList⟩,
    pairwise_names _, fun extension => ⟨fun f => ?_, ?_⟩,
    fun entries h => ⟨sortedNames_eq h, find?_name_eq_get? h, claimingIn?_eq h⟩, fun gs => ?_⟩
  · simp only [forExtension?_eq_some_iff, mem_ofList]
  · simp only [forExtension?_eq_none_iff, mem_ofList]
  · constructor
    · intro h name
      rw [← get?_ofList, ← get?_ofList, h]
    · intro h
      refine ext_get? fun name => ?_
      rw [get?_ofList, get?_ofList, h]

end Interdoc.Registry
