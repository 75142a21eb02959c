import Interdoc.Xml.Tree

/-!
# Balanced events

Events are `Balanced` if they are the content of some element: elements one after the other, and
between them anything that is no tag.  An element is an empty element tag, or a start tag and an end
tag with balanced events between them; the names of the tags play no part in this.

Any sequence of events is balanced, or it has an end tag with balanced events before it, so that
there is nothing for it to end, or it has a start tag with balanced events behind it, which is that
of the innermost element left open (`hasOutcome`).

The events of a text have tags that fit by their names too (`endsNamed_events`).
-/

namespace Interdoc.Xml

/-- Whether an event is a tag. -/
def Event.isTag : Event → Bool
  | .start _ | .empty _ | .finish _ => true
  | .text _ | .data _ | .other => false

mutual

/-- The events of one element. -/
inductive OneElement : List Event → Prop
  | empty (tag : Tag) : OneElement [.empty tag]
  | pair (tag : Tag) (name : List Char) {inner : List Event} (h : Balanced inner) :
      OneElement (.start tag :: (inner ++ [.finish name]))

/-- Elements, and between them anything that is no tag. -/
inductive Balanced : List Event → Prop
  | nil : Balanced []
  | outside {e : Event} {es : List Event} (he : e.isTag = false) (h : Balanced es) :
      Balanced (e :: es)
  | element {es rest : List Event} (he : OneElement es) (h : Balanced rest) :
      Balanced (es ++ rest)

end

/-- There is an end tag for which no start tag is left. -/
def HasLooseEnd (es : List Event) : Prop :=
  ∃ before name after, es = before ++ .finish name :: after ∧ Balanced before

/-- There is a start tag with balanced events behind it. -/
def LeavesOpen (tag : Tag) (es : List Event) : Prop :=
  ∃ before after, es = before ++ .start tag :: after ∧ Balanced after

/-- The first element outside of all others. -/
def FirstElement (element es : List Event) : Prop :=
  ∃ before after, es = before ++ (element ++ after) ∧ (∀ e ∈ before, e.isTag = false) ∧
    OneElement element

/-- Each end tag has the name of its start tag. -/
def EndsNamed (es : List Event) : Prop :=
  ∀ before tag inner name after, es = before ++ .start tag :: (inner ++ .finish name :: after) →
    Balanced inner → name = tag.name

variable {es front rest : List Event} {tag : Tag}

/-! ### Kinds of sequences -/

theorem Balanced.append : ∀ {es rest : List Event}, Balanced es → Balanced rest →
    Balanced (es ++ rest)
  | _, _, .nil, hrest => hrest
  | _, _, .outside he h, hrest => .outside he (h.append hrest)
  | _, _, .element he h, hrest => by
    rw [List.append_assoc]
    exact .element he (h.append hrest)

theorem HasLooseEnd.append_left (hfront : Balanced front) (h : HasLooseEnd es) :
    HasLooseEnd (front ++ es) := by
  obtain ⟨before, name, after, rfl, hbefore⟩ := h
  exact ⟨front ++ before, name, after, (List.append_assoc ..).symm, hfront.append hbefore⟩

theorem HasLooseEnd.append_right (h : HasLooseEnd es) (rest : List Event) :
    HasLooseEnd (es ++ rest) := by
  obtain ⟨before, name, after, rfl, hbefore⟩ := h
  exact ⟨before, name, after ++ rest, by rw [List.append_assoc, List.cons_append], hbefore⟩

theorem LeavesOpen.append_left (front : List Event) (h : LeavesOpen tag es) :
    LeavesOpen tag (front ++ es) := by
  obtain ⟨before, after, rfl, hafter⟩ := h
  exact ⟨front ++ before, after, (List.append_assoc ..).symm, hafter⟩

/-- What can become of tags: they are balanced, or an end tag is loose, or an element is left
open. -/
def HasOutcome (es : List Event) : Prop :=
  Balanced es ∨ HasLooseEnd es ∨ ∃ tag, LeavesOpen tag es

theorem HasOutcome.append_left (hfront : Balanced front) (h : HasOutcome es) :
    HasOutcome (front ++ es) := by
  rcases h with h | h | ⟨tag, h⟩
  · exact .inl (hfront.append h)
  · exact .inr (.inl (h.append_left hfront))
  · exact .inr (.inr ⟨tag, h.append_left front⟩)

/-- **The tags of any events have one of the outcomes.**  What stands behind a start tag decides
whether it is closed: it is if there is an end tag that is loose by itself. -/
theorem hasOutcome (es : List Event) : HasOutcome es := by
  induction hn : es.length using Nat.strongRecOn generalizing es with
  | _ n ih =>
  cases es with
  | nil => exact .inl .nil
  | cons e es =>
    have hrest : HasOutcome es := ih es.length (by rw [← hn, List.length_cons]; omega) es rfl
    cases e with
    | start tag =>
      -- behind a start tag: balanced events, a loose end tag that closes it, or one left open
      rcases hrest with h | ⟨inner, name, after, rfl, hinner⟩ | ⟨tag', h⟩
      · exact .inr (.inr ⟨tag, [], es, rfl, h⟩)
      · have hafter : HasOutcome after := by
          refine ih after.length ?_ after rfl
          simp only [List.length_cons, List.length_append] at hn
          omega
        have hpair := Balanced.element (.pair tag name hinner) .nil
        have hall := hafter.append_left hpair
        simpa using hall
      · exact .inr (.inr ⟨tag', h.append_left [.start tag]⟩)
    | finish name => exact .inr (.inl ⟨[], name, es, rfl, .nil⟩)
    | empty tag => exact hrest.append_left (.element (.empty tag) .nil)
    | text raw => exact hrest.append_left (.outside rfl .nil)
    | data s => exact hrest.append_left (.outside rfl .nil)
    | other => exact hrest.append_left (.outside rfl .nil)

/-- Balanced events are without tags, or there is a first element and what follows it is balanced.
-/
theorem Balanced.exists_first : ∀ {es : List Event}, Balanced es → (∀ e ∈ es, e.isTag = false) ∨
    ∃ before element after, es = before ++ (element ++ after) ∧ (∀ e ∈ before, e.isTag = false) ∧
      OneElement element ∧ Balanced after
  | _, .nil => .inl (List.forall_mem_nil _)
  | _, @Balanced.outside e _ he h => by
    rcases h.exists_first with hnone | ⟨before, element, after, rfl, hbefore, helement, hafter⟩
    · exact .inl (List.forall_mem_cons.mpr ⟨he, hnone⟩)
    · exact .inr ⟨e :: before, element, after, rfl, List.forall_mem_cons.mpr ⟨he, hbefore⟩,
        helement, hafter⟩
  | _, @Balanced.element es rest he h =>
    .inr ⟨[], es, rest, rfl, List.forall_mem_nil _, he, h⟩

theorem OneElement.exists_isTag {element : List Event} (h : OneElement element) :
    ∃ e ∈ element, e.isTag = true := by
  cases h with
  | empty tag => exact ⟨_, List.mem_singleton_self _, rfl⟩
  | pair tag name h => exact ⟨_, List.mem_cons_self, rfl⟩

/-- Without tags there is no element. -/
theorem not_firstElement (h : ∀ e ∈ es, e.isTag = false) (element : List Event) :
    ¬ FirstElement element es := by
  rintro ⟨before, after, rfl, -, helement⟩
  obtain ⟨e, he, htag⟩ := helement.exists_isTag
  have hnone := h e (List.mem_append_right _ (List.mem_append_left _ he))
  rw [htag] at hnone
  cases hnone

/-! ### Names -/

theorem EndsNamed.of_part {es' : List Event} (h : EndsNamed es) (hpart : es' <:+: es) :
    EndsNamed es' := by
  obtain ⟨front, back, rfl⟩ := hpart
  rintro before tag inner name after rfl hinner
  exact h (front ++ before) tag inner name (after ++ back) (by simp) hinner

/-- An end tag has the name that was opened last. -/
def Event.NamesLast (opened : List (List Char)) : Event → Prop
  | .finish name => opened.head? = some name
  | _ => True

/-- Each end tag has the name that was opened last, where the given names are open. -/
def EndsNameLast : (opened : List (List Char)) → List Event → Prop
  | _, [] => True
  | opened, e :: es => e.NamesLast opened ∧ EndsNameLast (e.openAfter opened) es

mutual

theorem OneElement.endsNameLast_rest : ∀ {es : List Event}, OneElement es →
    ∀ {opened : List (List Char)} {rest : List Event}, EndsNameLast opened (es ++ rest) →
      EndsNameLast opened rest
  | _, .empty _, _, _, h => h.2
  | _, .pair tag name hinner, opened, rest, h => by
    have hinside : EndsNameLast (tag.name :: opened) (_ ++ [.finish name] ++ rest) := h.2
    rw [List.append_assoc] at hinside
    exact (hinner.endsNameLast_rest hinside).2

/-- Behind balanced events the names are open that were open in front of them. -/
theorem Balanced.endsNameLast_rest : ∀ {es : List Event}, Balanced es →
    ∀ {opened : List (List Char)} {rest : List Event}, EndsNameLast opened (es ++ rest) →
      EndsNameLast opened rest
  | _, .nil, _, _, h => h
  | _, @Balanced.outside e _ he hes, opened, rest, h => by
    have hopen : e.openAfter opened = opened := by cases e <;> first | rfl | cases he
    have hbehind := h.2
    rw [hopen] at hbehind
    exact hes.endsNameLast_rest hbehind
  | _, .element he hes, _, _, h => by
    rw [List.append_assoc] at h
    exact hes.endsNameLast_rest (he.endsNameLast_rest h)

end

theorem EndsNameLast.endsNamed {opened : List (List Char)} (h : EndsNameLast opened es) :
    EndsNamed es := by
  rintro before tag inner name after rfl hinner
  induction before generalizing opened with
  | nil =>
    have hend : EndsNameLast (tag.name :: opened) (.finish name :: after) :=
      hinner.endsNameLast_rest h.2
    exact (Option.some.inj hend.1).symm
  | cons e before ih => exact ih h.2

/-! ### Events of texts -/

theorem namesLast_of_readBang {opened : List (List Char)} {s rest : List Char} {e : Event}
    (h : readBang s = .ok (e, rest)) : e.NamesLast opened := by
  unfold readBang at h
  repeat' split at h
  all_goals cases h
  all_goals trivial

theorem namesLast_of_readFinish {opened : List (List Char)} {s rest : List Char} {e : Event}
    (h : readFinish opened s = .ok (e, rest)) : e.NamesLast opened := by
  unfold readFinish at h
  repeat' split at h
  all_goals cases h
  rfl

theorem namesLast_of_readInstruction {opened : List (List Char)} {s rest : List Char} {e : Event}
    (h : readInstruction s = .ok (e, rest)) : e.NamesLast opened := by
  unfold readInstruction at h
  repeat' split at h
  all_goals cases h
  trivial

theorem namesLast_of_readStart {opened : List (List Char)} {s rest : List Char} {e : Event}
    (h : readStart s = .ok (e, rest)) : e.NamesLast opened := by
  unfold readStart at h
  repeat' split at h
  all_goals cases h
  all_goals trivial

/-- **A reader takes an end tag** only if it has the name that was opened last. -/
theorem namesLast_of_readMarkup {opened : List (List Char)} {s rest : List Char} {e : Event}
    (h : readMarkup opened s = .ok (e, rest)) : e.NamesLast opened := by
  unfold readMarkup at h
  split at h
  · cases h
  · split at h
    · exact namesLast_of_readBang h
    · split at h
      · exact namesLast_of_readFinish h
      · split at h
        · exact namesLast_of_readInstruction h
        · exact namesLast_of_readStart h

theorem endsNameLast_textEvent {opened : List (List Char)} (s : List Char)
    (h : EndsNameLast opened es) : EndsNameLast opened (textEvent s ++ es) := by
  rw [textEvent]
  split
  · exact h
  · exact ⟨trivial, h⟩

theorem endsNameLast_eventsFrom (opened : List (List Char)) (s : List Char) :
    EndsNameLast opened (eventsFrom opened s).1 := by
  have htext (opened : List (List Char)) (s : List Char) : EndsNameLast opened (textEvent s) := by
    have hnil : EndsNameLast opened [] := trivial
    have hall := endsNameLast_textEvent s hnil
    rwa [List.append_nil] at hall
  fun_induction eventsFrom opened s with
  | case1 opened s before => exact htext opened _
  | case2 opened s before => exact htext opened _
  | case3 opened s before _ markup _ e rest hread more fault hmore ih =>
    rw [hmore] at ih
    exact endsNameLast_textEvent _ ⟨namesLast_of_readMarkup hread, ih⟩

/-- **The events of a text** have the names of the start tags in the end tags. -/
theorem endsNamed_events (s : List Char) : EndsNamed (events s).1 :=
  (endsNameLast_eventsFrom [] _).endsNamed

end Interdoc.Xml
