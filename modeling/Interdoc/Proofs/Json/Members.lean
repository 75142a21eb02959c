import Interdoc.Json.Basic
import Mathlib.Data.String.Basic

/-!
# Members of objects

The members of an object are a finite map from names to values, and the order in which they stand
says nothing.  `Json.canonical` sorts them, so two objects have one canonical form as soon as they
have the same member of every name (`canonical_object_congr`).  That needs the names of an object to
be distinct, which is what `Json.HasDistinctNames` says of a whole value.

A sorted list of members is determined by its look-ups (`eq_of_member?_eq`); the rest is what
sorting does with a look-up (`member?_sortMembers`).
-/

namespace Interdoc.Json

/-! ### Look-ups -/

/-- The names of members. -/
def names (members : List (String × Json)) : List String :=
  members.map Prod.fst

theorem member?_cons (name n : String) (v : Json) (rest : List (String × Json)) :
    member? name ((n, v) :: rest) = if n = name then some v else member? name rest := by
  rw [member?]

theorem member?_eq_none_iff {name : String} {members : List (String × Json)} :
    member? name members = none ↔ name ∉ names members := by
  induction members with
  | nil => simp [member?, names]
  | cons p rest ih =>
    obtain ⟨n, v⟩ := p
    rw [names, List.map_cons, List.mem_cons, ← names, member?_cons]
    by_cases hn : n = name
    · simp [hn]
    · simp [hn, ih, Ne.symm hn]

/-! ### Sorted members -/

/-- Members whose names increase from one to the next. -/
def IsSorted (members : List (String × Json)) : Prop :=
  members.Pairwise fun a b => a.1 < b.1

/-- A name before all names of sorted members is the name of none. -/
theorem member?_eq_none_of_lt {name n : String} {v : Json} {rest : List (String × Json)}
    (h : IsSorted ((n, v) :: rest)) (hlt : name < n) : member? name ((n, v) :: rest) = none := by
  rw [member?_eq_none_iff, names, List.mem_map]
  rintro ⟨⟨m, w⟩, hm, rfl⟩
  rcases List.mem_cons.mp hm with he | hrest
  · exact absurd (congrArg Prod.fst he) hlt.ne
  · exact absurd (List.rel_of_pairwise_cons h hrest) hlt.not_gt

theorem member?_head {n : String} {v : Json} {rest : List (String × Json)} :
    member? n ((n, v) :: rest) = some v := by
  rw [member?_cons, if_pos rfl]

/-- Behind the first of sorted members its name does not come again. -/
theorem member?_tail_head {n : String} {v : Json} {rest : List (String × Json)}
    (h : IsSorted ((n, v) :: rest)) : member? n rest = none := by
  rw [member?_eq_none_iff, names, List.mem_map]
  rintro ⟨⟨m, w⟩, hm, rfl⟩
  exact absurd (List.rel_of_pairwise_cons h hm) (lt_irrefl m)

/-- **Sorted members are determined by their look-ups.** -/
theorem eq_of_member?_eq : ∀ {xs ys : List (String × Json)}, IsSorted xs → IsSorted ys →
    (∀ name, member? name xs = member? name ys) → xs = ys
  | [], [], _, _, _ => rfl
  | [], (n, v) :: ys, _, _, h => by
    have hn := h n
    rw [member?_head] at hn
    simp [member?] at hn
  | (n, v) :: xs, [], _, _, h => by
    have hn := h n
    rw [member?_head] at hn
    simp [member?] at hn
  | (n, v) :: xs, (m, w) :: ys, hx, hy, h => by
    -- a smaller first name on one side would be missing on the other
    have hnm : n = m := by
      rcases lt_trichotomy n m with hlt | he | hlt
      · have hn := h n
        rw [member?_head, member?_eq_none_of_lt hy hlt] at hn
        simp at hn
      · exact he
      · have hm := h m
        rw [member?_head, member?_eq_none_of_lt hx hlt] at hm
        simp at hm
    subst hnm
    have hv := h n
    rw [member?_head, member?_head] at hv
    cases hv
    congr 1
    apply eq_of_member?_eq hx.of_cons hy.of_cons
    intro name
    by_cases hne : n = name
    · rw [← hne, member?_tail_head hx, member?_tail_head hy]
    · have hname := h name
      rwa [member?_cons, member?_cons, if_neg hne, if_neg hne] at hname

/-! ### Sorting -/

theorem member?_insert (name n : String) (v : Json) (members : List (String × Json)) :
    member? name (insert n v members) = if n = name then some v else member? name members := by
  induction members with
  | nil => rw [insert, member?_cons]
  | cons p rest ih =>
    obtain ⟨m, w⟩ := p
    rw [insert]
    split
    · next hm =>
      subst hm
      rw [member?_cons, member?_cons]
      split <;> rfl
    · next hm =>
      split
      · rw [member?_cons]
      · rw [member?_cons, member?_cons, ih]
        by_cases hn : n = name
        · rw [if_pos hn, if_pos hn, if_neg]
          intro hmn
          exact hm (hn.trans hmn.symm)
        · rw [if_neg hn, if_neg hn]

theorem mem_names_insert {name n : String} {v : Json} {members : List (String × Json)}
    (h : name ∈ names (insert n v members)) : name = n ∨ name ∈ names members := by
  by_contra hc
  rw [not_or] at hc
  have hnone : member? name (insert n v members) = none := by
    rw [member?_insert, if_neg (Ne.symm hc.1), member?_eq_none_iff]
    exact hc.2
  exact member?_eq_none_iff.mp hnone h

theorem isSorted_insert (n : String) (v : Json) {members : List (String × Json)}
    (h : IsSorted members) : IsSorted (insert n v members) := by
  induction members with
  | nil => exact List.pairwise_singleton _ _
  | cons p rest ih =>
    obtain ⟨m, w⟩ := p
    rw [insert]
    split
    · next hm =>
      subst hm
      exact h.of_cons.cons fun a ha => List.rel_of_pairwise_cons h ha
    · next hm =>
      split
      · next hlt =>
        refine h.cons fun a ha => ?_
        rcases List.mem_cons.mp ha with rfl | ha
        · exact hlt
        · exact hlt.trans (List.rel_of_pairwise_cons h ha)
      · next hlt =>
        -- the name comes later, so what is inserted is behind the first member
        have hmn : m < n := lt_of_le_of_ne (not_lt.mp hlt) (Ne.symm hm)
        refine (ih h.of_cons).cons fun a ha => ?_
        rcases mem_names_insert (List.mem_map_of_mem ha) with he | hrest
        · exact he ▸ hmn
        · obtain ⟨b, hb, hab⟩ := List.mem_map.mp hrest
          exact hab ▸ List.rel_of_pairwise_cons h hb

/-- Sorting, after some members that are sorted already. -/
def sortAfter (sorted members : List (String × Json)) : List (String × Json) :=
  members.foldl (fun sorted (name, v) => insert name v sorted) sorted

theorem isSorted_sortAfter (members : List (String × Json)) {sorted : List (String × Json)}
    (h : IsSorted sorted) : IsSorted (sortAfter sorted members) := by
  induction members generalizing sorted with
  | nil => exact h
  | cons p rest ih => exact ih (isSorted_insert p.1 p.2 h)

theorem isSorted_sortMembers (members : List (String × Json)) : IsSorted (sortMembers members) :=
  isSorted_sortAfter members .nil

theorem member?_sortAfter {members : List (String × Json)} (h : (names members).Nodup)
    (name : String) (sorted : List (String × Json)) :
    member? name (sortAfter sorted members) = (member? name members).or (member? name sorted) := by
  induction members generalizing sorted with
  | nil => rfl
  | cons p rest ih =>
    obtain ⟨n, v⟩ := p
    rw [names, List.map_cons, List.nodup_cons, ← names] at h
    have hstep : sortAfter sorted ((n, v) :: rest) = sortAfter (insert n v sorted) rest := rfl
    rw [hstep, ih h.2, member?_insert, member?_cons]
    by_cases hn : n = name
    · -- no later member has this name
      have hnone : member? name rest = none := by rw [member?_eq_none_iff, ← hn]; exact h.1
      rw [if_pos hn, if_pos hn, hnone, Option.none_or, Option.some_or]
    · rw [if_neg hn, if_neg hn]

theorem member?_sortMembers {members : List (String × Json)} (h : (names members).Nodup)
    (name : String) : member? name (sortMembers members) = member? name members := by
  have hs := member?_sortAfter h name []
  rwa [member?, Option.or_none] at hs

/-- Sorting depends on the look-ups alone. -/
theorem sortMembers_congr {xs ys : List (String × Json)} (hx : (names xs).Nodup)
    (hy : (names ys).Nodup) (h : ∀ name, member? name xs = member? name ys) :
    sortMembers xs = sortMembers ys := by
  apply eq_of_member?_eq (isSorted_sortMembers xs) (isSorted_sortMembers ys)
  intro name
  rw [member?_sortMembers hx, member?_sortMembers hy, h]

/-! ### Canonical forms -/

theorem names_canonicalMembers (members : List (String × Json)) :
    names (canonicalMembers members) = names members := by
  induction members with
  | nil => rfl
  | cons p rest ih =>
    obtain ⟨n, v⟩ := p
    rw [canonicalMembers, names, List.map_cons, ← names, ih]
    rfl

theorem member?_canonicalMembers (name : String) (members : List (String × Json)) :
    member? name (canonicalMembers members) = (member? name members).map canonical := by
  induction members with
  | nil => rfl
  | cons p rest ih =>
    obtain ⟨n, v⟩ := p
    rw [canonicalMembers, member?_cons, member?_cons, ih]
    split <;> rfl

/-- **Objects with the same members have one canonical form.** -/
theorem canonical_object_congr {xs ys : List (String × Json)} (hx : (names xs).Nodup)
    (hy : (names ys).Nodup)
    (h : ∀ name, (member? name xs).map canonical = (member? name ys).map canonical) :
    canonical (.object xs) = canonical (.object ys) := by
  rw [canonical, canonical]
  congr 1
  apply sortMembers_congr
  · rwa [names_canonicalMembers]
  · rwa [names_canonicalMembers]
  · intro name
    rw [member?_canonicalMembers, member?_canonicalMembers, h]

theorem canonical_array_congr {xs ys : List Json} (h : canonicalItems xs = canonicalItems ys) :
    canonical (.array xs) = canonical (.array ys) := by
  rw [canonical, canonical, h]

/-! ### Distinct names -/

mutual

/-- In every object of the value, no two members have one name. -/
def HasDistinctNames : Json → Prop
  | .array items => ItemsHaveDistinctNames items
  | .object members => (names members).Nodup ∧ MembersHaveDistinctNames members
  | .null | .bool _ | .integer _ | .real _ | .string _ => True

/-- `HasDistinctNames` for each item. -/
def ItemsHaveDistinctNames : List Json → Prop
  | [] => True
  | v :: rest => HasDistinctNames v ∧ ItemsHaveDistinctNames rest

/-- `HasDistinctNames` for the value of each member. -/
def MembersHaveDistinctNames : List (String × Json) → Prop
  | [] => True
  | (_, v) :: rest => HasDistinctNames v ∧ MembersHaveDistinctNames rest

end

theorem hasDistinctNames_of_member? {name : String} {members : List (String × Json)} {v : Json}
    (h : MembersHaveDistinctNames members) (hv : member? name members = some v) :
    v.HasDistinctNames := by
  induction members with
  | nil => simp [member?] at hv
  | cons p rest ih =>
    obtain ⟨n, w⟩ := p
    rw [MembersHaveDistinctNames] at h
    rw [member?_cons] at hv
    split at hv
    · exact Option.some.inj hv ▸ h.1
    · exact ih h.2 hv

theorem HasDistinctNames.get? {name : String} {v w : Json} (h : v.HasDistinctNames)
    (hw : v.get? name = some w) : w.HasDistinctNames := by
  cases v with
  | object members =>
    rw [HasDistinctNames] at h
    exact hasDistinctNames_of_member? h.2 hw
  | _ => simp [Json.get?] at hw

theorem HasDistinctNames.items {name : String} {v : Json} {items : List Json}
    (h : v.HasDistinctNames) (hw : v.get? name = some (.array items)) :
    ItemsHaveDistinctNames items := by
  have hi := h.get? hw
  rwa [HasDistinctNames] at hi

end Interdoc.Json
