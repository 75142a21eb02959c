import Interdoc.Proofs.Document.Clauses
import Interdoc.Proofs.Json.Pointer

/-!
# Locality of validation

A clause leads from a node to the nodes in the member it reads (`Clause.LeadsTo`), and validation
visits what can be reached that way (`Visits`).  Every violation is located at a visited node or at
an alignment of one (`exists_visits_of_mem`), so its path leads to a part of the value.

The report on a node has a segment for each node it leads to: whatever stands there is reported in
the segment as it is on its own, and all else stays and is located elsewhere (`HasSegment`).  For
one step down this holds since a clause reads nothing but its member and the items of an array are
checked one by one (`hasSegment_of_isPart`), and so it holds for any number of steps
(`hasSegment_of_visits`).
-/

namespace Interdoc

/-- A violation is located at the end of a path or below, by the steps in writing. -/
def Violation.IsBelow (y : Violation) (path : List Step) : Prop :=
  path.map Step.text <+: y.path.map Step.text

namespace Json

open Violation (under here pathText)

variable {role role' : Role} {c : Clause} {v w x : Json} {kind name : String}
  {path front : List Step} {y : Violation}

/-! ### What is visited -/

/-- A clause leads from a node to a node below it, which is checked in the role. -/
inductive Clause.LeadsTo (v : Json) : Clause → List Step → Json → Role → Prop
  | node {name : String} {role : Role} {w : Json} :
    v.get? name = some w → LeadsTo v (.node name role) [.member name] w role
  | nodes {name : String} {role : Role} {items : List Json} {index : Nat} {w : Json} :
    v.get? name = some (.array items) → items[index]? = some w →
      LeadsTo v (.nodes name role) [.member name, .item index] w role

/-- A node below a node, in the roles of both. -/
def IsPart (role : Role) (v : Json) (front : List Step) (w : Json) (role' : Role) : Prop :=
  ∃ kind c, kindOrProblem v = .ok kind ∧ c ∈ role.clauses kind ∧ c.LeadsTo v front w role'

/-- The check of a value in a role comes to the part at the end of the path, in its role. -/
inductive Visits : Role → Json → List Step → Json → Role → Prop
  | here {role : Role} {v : Json} : Visits role v [] v role
  | down {role role' role'' : Role} {v w x : Json} {front path : List Step} :
    IsPart role v front w role' → Visits role' w path x role'' →
      Visits role v (front ++ path) x role''

namespace Clause.LeadsTo

theorem exists_name (h : c.LeadsTo v front w role) :
    ∃ name rest, c.name? = some name ∧ front = .member name :: rest := by
  cases h with
  | node hw => exact ⟨_, _, rfl, rfl⟩
  | nodes hv hw => exact ⟨_, _, rfl, rfl⟩

theorem at? (h : c.LeadsTo v front w role) : v.at? front = some w := by
  cases h with
  | node hw => rw [at?_member, hw, Option.bind_some, at?_nil]
  | nodes hv hw => rw [at?_member, hv, Option.bind_some, at?_item, item?, hw, Option.bind_some,
      at?_nil]

/-- A node below is smaller. -/
theorem sizeOf_lt (h : c.LeadsTo v front w role) : sizeOf w < sizeOf v := by
  obtain ⟨name, rest, -, rfl⟩ := h.exists_name
  exact sizeOf_at? (List.cons_ne_nil _ _) h.at?

end Clause.LeadsTo

theorem at?_of_visits (h : Visits role v path w role') : v.at? path = some w := by
  induction h with
  | here => exact at?_nil _
  | down hpart _ ih =>
    obtain ⟨kind, c, -, -, hlead⟩ := hpart
    rw [at?_append, hlead.at?, Option.bind_some, ih]

/-! ### Violations at visited places -/

/-- The path from a table to an alignment. -/
def alignmentPath (index : Nat) : List Step :=
  [.member "alignments", .item index]

theorem mem_alignmentsViolations (hy : y ∈ alignmentsViolations v) :
    y.path = [] ∨ ∃ index a, y.path = alignmentPath index ∧
      v.at? (alignmentPath index) = some a := by
  unfold alignmentsViolations at hy
  split at hy
  · cases hy
  · cases hy
  · next items hv =>
    obtain ⟨report, hreport, hy⟩ := List.mem_flatten.mp hy
    obtain ⟨⟨a, index⟩, hmem, rfl⟩ := List.mem_map.mp hreport
    obtain ⟨z, hz, rfl⟩ := List.mem_map.mp hy
    -- an alignment is a single value, so its own check reports on nothing below it
    have hroot : z.path = [] := by
      unfold alignmentViolations at hz
      split at hz
      · split_ifs at hz
        · cases hz
        · rw [List.mem_singleton.mp hz, here]
      · rw [List.mem_singleton.mp hz, here]
    refine .inr ⟨index, a, ?_, ?_⟩
    · rw [under, hroot, alignmentPath, List.append_nil]
    · rw [alignmentPath, at?_member, hv, Option.bind_some, at?_item, item?,
        List.mem_zipIdx_iff_getElem?.mp hmem, Option.bind_some, at?_nil]
  · rw [List.mem_singleton.mp hy]
    exact .inl rfl

/-- What a clause reports is about the node itself, an alignment, or a node that it leads to. -/
theorem mem_report (hy : y ∈ c.report v) :
    y.path = [] ∨
      (c = .alignments ∧ ∃ index a, y.path = alignmentPath index ∧
        v.at? (alignmentPath index) = some a) ∨
      ∃ front w role z, c.LeadsTo v front w role ∧ z ∈ role.violations w ∧ y = z.under front := by
  have hroot : ∀ {p : Problem}, y ∈ [here p] → y.path = [] := fun hy => by
    rw [List.mem_singleton.mp hy, here]
  -- only the clauses that lead to other nodes report on more than the node itself
  cases c with
  | problem p => exact .inl (hroot hy)
  | string name =>
    rw [report_string, stringViolations] at hy
    split at hy
    · cases hy
    · exact .inl (hroot hy)
    · exact .inl (hroot hy)
  | optionalString name =>
    rw [report_optionalString, optionalStringViolations] at hy
    split at hy
    · cases hy
    · cases hy
    · cases hy
    · exact .inl (hroot hy)
  | level =>
    rw [report_level, levelViolations] at hy
    split at hy
    · split_ifs at hy
      · exact .inl (hroot hy)
      · cases hy
      · exact .inl (hroot hy)
    · exact .inl (hroot hy)
  | ordered =>
    rw [report_ordered, orderedViolations] at hy
    split at hy
    · cases hy
    · exact .inl (hroot hy)
  | alignments => exact (mem_alignmentsViolations hy).imp_right fun h => .inl ⟨rfl, h⟩
  | node name role =>
    rw [Clause.report] at hy
    split at hy
    · cases hy
    · next w hw =>
      obtain ⟨z, hz, rfl⟩ := List.mem_map.mp hy
      exact .inr (.inr ⟨_, w, role, z, .node hw, hz, rfl⟩)
  | nodes name role =>
    rw [Clause.report] at hy
    split at hy
    · next items hv =>
      obtain ⟨index, w, hw, z, hz, rfl⟩ := mem_itemsViolations hy
      rw [Nat.zero_add]
      exact .inr (.inr ⟨_, w, role, z, .nodes hv hw, hz, rfl⟩)
    · exact .inl (hroot hy)
    · exact .inl (hroot hy)

/-- What a clause reports on parts is located in the member it reads. -/
theorem path_of_mem_report (hy : y ∈ c.report v) :
    y.path = [] ∨ ∃ name rest, c.name? = some name ∧ y.path = .member name :: rest := by
  rcases mem_report hy with hroot | ⟨rfl, index, a, hpath, -⟩ | ⟨front, w, role, z, hlead, -, rfl⟩
  · exact .inl hroot
  · exact .inr ⟨"alignments", [.item index], rfl, hpath⟩
  · obtain ⟨name, rest, hname, rfl⟩ := hlead.exists_name
    exact .inr ⟨name, rest ++ z.path, hname, rfl⟩

/-- **Every violation is located at a visited value** or at an alignment of it. -/
theorem exists_visits_of_mem (hy : y ∈ role.violations v) :
    ∃ path w role', Visits role v path w role' ∧
      (y.path = path ∨ ∃ index a, y.path = path ++ alignmentPath index ∧
        w.at? (alignmentPath index) = some a) := by
  induction hsize : sizeOf v using Nat.strong_induction_on generalizing role v y with
  | h size ih =>
    subst hsize
    cases hkind : kindOrProblem v with
    | error problem =>
      exact ⟨[], v, role, .here, .inl (path_eq_nil_of_problem role hkind hy)⟩
    | ok kind =>
      rw [violations_of_kind role hkind] at hy
      obtain ⟨c, hc, hy⟩ := List.mem_flatMap.mp hy
      rcases mem_report hy with
        hroot | ⟨-, index, a, hpath, ha⟩ | ⟨front, w, role₁, z, hlead, hz, rfl⟩
      · exact ⟨[], v, role, .here, .inl hroot⟩
      · exact ⟨[], v, role, .here, .inr ⟨index, a, hpath, ha⟩⟩
      · -- the violation is one of a smaller node, seen from further up
        obtain ⟨path, x, role₂, hvisits, hplace⟩ := ih _ hlead.sizeOf_lt hz rfl
        refine ⟨front ++ path, x, role₂, .down ⟨kind, c, hkind, hc, hlead⟩ hvisits, ?_⟩
        rcases hplace with hplace | ⟨index, a, hplace, ha⟩
        · exact .inl (by rw [under, hplace])
        · exact .inr ⟨index, a, by rw [under, hplace, List.append_assoc], ha⟩

/-! ### Paths as pointers -/

theorem not_mem_of_mem_readNames (hname : name ∈ readNames) :
    '/' ∉ name.toList ∧ '~' ∉ name.toList := by
  have hall : ∀ name ∈ readNames, '/' ∉ name.toList ∧ '~' ∉ name.toList := by decide
  exact hall name hname

theorem hasPlainNames_member (hname : name ∈ readNames) : HasPlainNames [.member name] :=
  List.forall_mem_singleton.mpr (not_mem_of_mem_readNames hname)

theorem hasPlainNames_item (hname : name ∈ readNames) (index : Nat) :
    HasPlainNames [.member name, .item index] :=
  hasPlainNames_append (hasPlainNames_member hname)
    (List.forall_mem_singleton.mpr
      ⟨not_mem_toString (by decide) index, not_mem_toString (by decide) index⟩)

theorem hasPlainNames_of_visits (h : Visits role v path w role') : HasPlainNames path := by
  induction h with
  | here => exact fun step hstep => by cases hstep
  | down hpart _ ih =>
    obtain ⟨kind, c, -, hc, hlead⟩ := hpart
    refine hasPlainNames_append ?_ ih
    cases hlead with
    | node hw => exact hasPlainNames_member (mem_readNames hc rfl)
    | nodes hv hw => exact hasPlainNames_item (mem_readNames hc rfl) _

/-- The path of a violation leads to a part of the value, and so does its text as a pointer. -/
theorem exists_part_of_mem (role : Role) (hy : y ∈ role.violations v) :
    ∃ part, v.at? y.path = some part ∧ v.pointer? (pathText y.path) = some part := by
  obtain ⟨path, w, role', hvisits, hpath | ⟨index, a, hpath, ha⟩⟩ := exists_visits_of_mem hy
  · have hat := at?_of_visits hvisits
    rw [hpath]
    exact ⟨w, hat, pointer?_pathText (hasPlainNames_of_visits hvisits) hat⟩
  · have hat : v.at? (path ++ alignmentPath index) = some a := by
      rw [at?_append, at?_of_visits hvisits, Option.bind_some, ha]
    have hplain : HasPlainNames (path ++ alignmentPath index) :=
      hasPlainNames_append (hasPlainNames_of_visits hvisits) (hasPlainNames_item (by decide) index)
    rw [hpath]
    exact ⟨a, hat, pointer?_pathText hplain hat⟩

/-! ### Segments -/

section

variable {step other : Step} {rest : List Step}

theorem isBelow_under (path : List Step) (y : Violation) : (y.under path).IsBelow path := by
  rw [Violation.IsBelow, under, List.map_append]
  exact List.prefix_append _ _

theorem isBelow_under_append (front : List Step) :
    (y.under front).IsBelow (front ++ path) ↔ y.IsBelow path := by
  rw [Violation.IsBelow, under, List.map_append, List.map_append, List.prefix_append_right_inj,
    Violation.IsBelow]

theorem isBelow_of_append (h : y.IsBelow (front ++ path)) : y.IsBelow front := by
  rw [Violation.IsBelow, List.map_append] at h
  exact (List.prefix_append _ _).trans h

theorem not_isBelow_of_path_eq_nil (hy : y.path = []) : ¬ y.IsBelow (step :: rest) := by
  rw [Violation.IsBelow, hy]
  simp

theorem not_isBelow_of_text_ne {after : List Step} (hy : y.path = other :: after)
    (h : step.text ≠ other.text) : ¬ y.IsBelow (step :: rest) := by
  rw [Violation.IsBelow, hy, List.map_cons, List.map_cons, List.cons_prefix_cons]
  exact fun hbelow => h hbelow.1

end

theorem under_append (front path : List Step) (y : Violation) :
    y.under (front ++ path) = (y.under path).under front := by
  rw [under, under, under, List.append_assoc]

theorem not_isBelow_item {i j : Nat} (h : i ≠ j) (z : Violation) :
    ¬ (z.under [.member name, .item i]).IsBelow [.member name, .item j] := by
  have hitem : ¬ (z.under [.item i]).IsBelow [.item j] :=
    not_isBelow_of_text_ne rfl (mt toString_inj.mp h.symm)
  have hmember := mt (isBelow_under_append [.member name]).mp hitem
  rwa [← under_append] at hmember

/-- The report on `v` has a segment for the part at the end of the path.  Whatever stands there is
reported in it as it is on its own, and the violations before and after it stay as they are and are
located elsewhere. -/
def HasSegment (report : Json → List Violation) (v : Json) (path : List Step) (role : Role) :
    Prop :=
  ∃ before after : List Violation,
    (∀ x, report (v.replaceAt path x) =
      before ++ (role.violations x).map (under path) ++ after) ∧
    ∀ y ∈ before ++ after, ¬ y.IsBelow path

theorem hasSegment_nil (role : Role) (v : Json) : HasSegment role.violations v [] role := by
  refine ⟨[], [], fun x => ?_, by simp⟩
  have hunder : under [] = id := rfl
  rw [replaceAt_nil, hunder, List.map_id, List.nil_append, List.append_nil]

/-- A segment in a segment is a segment. -/
theorem HasSegment.append {report : Json → List Violation}
    (hfront : HasSegment report v front role) (hw : v.at? front = some w)
    (hpath : HasSegment role.violations w path role') :
    HasSegment report v (front ++ path) role' := by
  obtain ⟨before, after, hreport, hoff⟩ := hfront
  obtain ⟨before', after', hreport', hoff'⟩ := hpath
  refine ⟨before ++ before'.map (under front), after'.map (under front) ++ after, fun x => ?_, ?_⟩
  · have hunder : under (front ++ path) = under front ∘ under path :=
      funext fun y => under_append front path y
    rw [replaceAt_append hw, hreport, hreport', hunder, ← List.map_map]
    simp only [List.map_append, List.append_assoc]
  · intro y hy hbelow
    -- what is outside of both segments is outside of the first, or outside of the second in it
    have hcases : y ∈ before ++ after ∨ ∃ z ∈ before' ++ after', y = z.under front := by
      simp only [List.mem_append, List.mem_map] at hy ⊢
      rcases hy with (hy | ⟨z, hz, rfl⟩) | ⟨z, hz, rfl⟩ | hy
      · exact .inl (.inl hy)
      · exact .inr ⟨z, .inl hz, rfl⟩
      · exact .inr ⟨z, .inr hz, rfl⟩
      · exact .inl (.inr hy)
    rcases hcases with hy | ⟨z, hz, rfl⟩
    · exact hoff y hy (isBelow_of_append hbelow)
    · exact hoff' z hz ((isBelow_under_append front).mp hbelow)

/-- A clause checks the nodes it leads to one by one. -/
theorem hasSegment_of_leadsTo (h : c.LeadsTo v front w role) :
    HasSegment c.report v front role := by
  cases h with
  | @node name role w hw =>
    refine ⟨[], [], fun x => ?_, by simp⟩
    rw [Clause.report, get?_replaceAt_self, hw, Option.map_some, replaceAt_nil, List.nil_append,
      List.append_nil]
  | @nodes name role items index w hv hw =>
    obtain ⟨hindex, -⟩ := List.getElem?_eq_some_iff.mp hw
    -- the report on a list is what stands before the item, the item, and what stands behind
    have hlength : (items.take index).length = index := List.length_take_of_le hindex.le
    refine ⟨role.itemsViolations name 0 (items.take index),
      role.itemsViolations name (index + 1) (items.drop (index + 1)), fun x => ?_, ?_⟩
    · rw [Clause.report, get?_replaceAt_self, hv, Option.map_some, replaceAt]
      simp only [replaceAt_nil]
      rw [List.modify_eq_take_cons_drop hindex, itemsViolations_append, Role.itemsViolations,
        hlength, Nat.zero_add, List.append_assoc]
    · intro y hy
      rcases List.mem_append.mp hy with hy | hy
      · obtain ⟨k, u, hu, z, -, rfl⟩ := mem_itemsViolations hy
        have hk : k < (items.take index).length := (List.getElem?_eq_some_iff.mp hu).1
        rw [hlength] at hk
        exact not_isBelow_item (by omega) z
      · obtain ⟨k, u, -, z, -, rfl⟩ := mem_itemsViolations hy
        exact not_isBelow_item (by omega) z

theorem kindOrProblem_replaceAt (v : Json) (hname : name ≠ "type") (path : List Step) (x : Json) :
    kindOrProblem (v.replaceAt (.member name :: path) x) = kindOrProblem v := by
  cases v with
  | object members =>
    rw [replaceAt, kindOrProblem, kindOrProblem, member?_modifyMember, if_neg hname.symm]
  | _ => rfl

/-- The other clauses read other members. -/
theorem name?_ne_of_nodup {before after : List Clause}
    (h : ((before ++ c :: after).filterMap Clause.name?).Nodup) (hname : c.name? = some name)
    {other : Clause} (hother : other ∈ before ++ after) : other.name? ≠ some name := by
  intro hsame
  have hrest : name ∈ (before ++ after).filterMap Clause.name? :=
    List.mem_filterMap.mpr ⟨other, hother, hsame⟩
  have hperm : ((c :: (before ++ after)).filterMap Clause.name?).Nodup :=
    (List.perm_middle.filterMap Clause.name?).nodup_iff.mp h
  rw [List.filterMap_cons_some hname, List.nodup_cons] at hperm
  exact hperm.1 hrest

/-- **One step down**: the report on a node has a segment for each node it leads to. -/
theorem hasSegment_of_isPart (h : IsPart role v front w role') :
    HasSegment role.violations v front role' := by
  obtain ⟨kind, c, hkind, hc, hlead⟩ := h
  obtain ⟨first, last, hclauses⟩ := List.append_of_mem hc
  obtain ⟨name, rest, hname, rfl⟩ := hlead.exists_name
  obtain ⟨before, after, hreport, hoff⟩ := hasSegment_of_leadsTo hlead
  -- no other clause reads the member, so what the others report stays
  have hne : ∀ other ∈ first ++ last, other.name? ≠ some name := fun other hother =>
    name?_ne_of_nodup (hclauses ▸ nodup_names_clauses role kind) hname hother
  have hsame : ∀ x, ∀ other ∈ first ++ last,
      other.report (v.replaceAt (.member name :: rest) x) = other.report v := by
    intro x other hother
    refine report_congr fun name' hname' => get?_replaceAt_of_ne v ?_ rest x
    rintro rfl
    exact hne other hother hname'
  have htype : name ≠ "type" := by
    rintro rfl
    exact absurd (mem_readNames hc hname) (by decide)
  refine ⟨first.flatMap (fun other => other.report v) ++ before,
    after ++ last.flatMap (fun other => other.report v), fun x => ?_, ?_⟩
  · rw [violations_of_kind role ((kindOrProblem_replaceAt v htype rest x).trans hkind), hclauses,
      List.flatMap_append, List.flatMap_cons, hreport,
      List.flatMap_congr fun other hother => hsame x other (List.mem_append_left _ hother),
      List.flatMap_congr fun other hother => hsame x other (List.mem_append_right _ hother)]
    simp only [List.append_assoc]
  · intro y hy
    -- what is outside of the segment is about the node itself or about another member
    have hcases : y ∈ before ++ after ∨ ∃ other ∈ first ++ last, y ∈ other.report v := by
      simp only [List.mem_append, List.mem_flatMap] at hy ⊢
      rcases hy with (⟨other, hother, hy⟩ | hy) | hy | ⟨other, hother, hy⟩
      · exact .inr ⟨other, .inl hother, hy⟩
      · exact .inl (.inl hy)
      · exact .inl (.inr hy)
      · exact .inr ⟨other, .inr hother, hy⟩
    rcases hcases with hy | ⟨other, hother, hy⟩
    · exact hoff y hy
    · rcases path_of_mem_report hy with hroot | ⟨name', rest', hname', hpath⟩
      · exact not_isBelow_of_path_eq_nil hroot
      · refine not_isBelow_of_text_ne hpath ?_
        rintro rfl
        exact hne other hother hname'

/-- **Any number of steps down**: the report on a value has a segment for each that is visited. -/
theorem hasSegment_of_visits (h : Visits role v path w role') :
    HasSegment role.violations v path role' := by
  induction h with
  | here => exact hasSegment_nil _ _
  | down hpart _ ih =>
    obtain ⟨kind, c, -, -, hlead⟩ := id hpart
    exact (hasSegment_of_isPart hpart).append hlead.at? ih

/-- **Validation is exhaustive and local.**  Every path that is reported leads to a part of the
value, and so does its text as a pointer.  For each value that is visited the report has a segment.
If another value is put in its place, its own report stands in the segment, moved under the path,
and the rest of the report stays.  The violations in the segment are located at the path or below,
the others are not. -/
theorem documentViolations_local (v : Json) :
    (∀ y ∈ v.documentViolations,
      ∃ part, v.at? y.path = some part ∧ v.pointer? (pathText y.path) = some part) ∧
    ∀ path w role, Visits .document v path w role →
      ∃ before after : List Violation,
        v.documentViolations = before ++ (role.violations w).map (under path) ++ after ∧
        (∀ y ∈ before ++ after, ¬ y.IsBelow path) ∧
        ∀ x, (v.replaceAt path x).at? path = some x ∧
          (v.replaceAt path x).documentViolations =
            before ++ (role.violations x).map (under path) ++ after ∧
          ∀ y ∈ (role.violations x).map (under path), y.IsBelow path := by
  refine ⟨fun y hy => exists_part_of_mem .document hy, fun path w role hvisits => ?_⟩
  have hw := at?_of_visits hvisits
  obtain ⟨before, after, hreport, hoff⟩ := hasSegment_of_visits hvisits
  refine ⟨before, after, ?_, hoff, fun x => ⟨at?_replaceAt hw x, hreport x, ?_⟩⟩
  · have hself := hreport w
    rwa [replaceAt_self hw] at hself
  · intro y hy
    obtain ⟨z, -, rfl⟩ := List.mem_map.mp hy
    exact isBelow_under path z

/-- A heading of a level that there is not, and a table with the given cell and with an alignment
that there is not. -/
def tableWithCell (cell : Json) : Json :=
  .object [("type", .string "Document"), ("blocks", .array [
    .object [("type", .string "Heading"), ("level", .integer 9), ("inlines", .array [])],
    .object [("type", .string "Table"),
      ("rows", .array [.object [("type", .string "TableRow"), ("cells", .array [cell])]]),
      ("alignments", .array [.null])]])]

/-- The path to the cell. -/
def cellPath : List Step :=
  [.member "blocks", .item 1, .member "rows", .item 0, .member "cells", .item 0]

/-- Whatever is put in place of the cell, the level and the alignment are reported, before the
report on the cell and after it. -/
theorem documentViolations_local_cell :
    Visits .document (tableWithCell .null) cellPath .null .cell ∧
    pathText cellPath = "/blocks/1/rows/0/cells/0" ∧
    ∀ x, (tableWithCell x).documentViolations =
      ⟨[.member "blocks", .item 0], .levelOutside 9⟩ ::
        (containerViolations "TableCell" x).map (under cellPath) ++
        [⟨[.member "blocks", .item 1, .member "alignments", .item 0],
          .unknownAlignment "null"⟩] := by
  have hvisits : Visits .document (tableWithCell .null) cellPath .null .cell :=
    .down ⟨"Document", _, rfl, .head _, .nodes rfl rfl⟩ <|
      .down ⟨"Table", _, rfl, .tail _ (.head _), .nodes rfl rfl⟩ <|
        .down ⟨"TableRow", _, rfl, .head _, .nodes rfl rfl⟩ .here
  obtain ⟨before, after, hreport, -, hnew⟩ :=
    (documentViolations_local (tableWithCell .null)).2 _ _ _ hvisits
  have hall : (tableWithCell .null).documentViolations =
      [⟨[.member "blocks", .item 0], .levelOutside 9⟩, ⟨cellPath, .notObject "null"⟩,
        ⟨[.member "blocks", .item 1, .member "alignments", .item 0],
          .unknownAlignment "null"⟩] := by
    have hnull : String.ofList (compact .null) = "null" := by decide
    simp [tableWithCell, documentViolations, kindOrProblem, member?, get?, blocksViolations,
      blockItemsViolations, blockViolations, levelViolations, inlinesViolations,
      inlineItemsViolations, headerViolations, rowsViolations, rowItemsViolations, rowViolations,
      containersViolations, containerItemsViolations, containerViolations, alignmentsViolations,
      alignmentViolations, hnull, Json.kind, under, here, cellPath]
  have hcell : (Role.cell.violations .null).map (under cellPath) =
      [⟨cellPath, .notObject "null"⟩] := by
    simp [Role.violations, containerViolations, kindOrProblem, Json.kind, under, here]
  rw [hall, hcell] at hreport
  refine ⟨hvisits, by decide, fun x => ?_⟩
  have hx := (hnew x).2.1
  -- the report on the cell is the middle one of the three
  rcases before with _ | ⟨first, _ | ⟨second, before⟩⟩
  · simp at hreport
  · obtain ⟨rfl, rfl⟩ : first = ⟨[.member "blocks", .item 0], .levelOutside 9⟩ ∧
        after = [⟨[.member "blocks", .item 1, .member "alignments", .item 0],
          .unknownAlignment "null"⟩] := by
      simpa [eq_comm] using hreport
    exact hx
  · cases before <;> simp at hreport

end Json

end Interdoc
