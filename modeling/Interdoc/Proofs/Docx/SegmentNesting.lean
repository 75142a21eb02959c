import Interdoc.Proofs.Docx.WellNested

/-!
# The elements around segments

Rendered segments consist of the segments and of the tags between them.  `Mark` keeps the two apart,
so that what is said of the tags holds whatever a segment itself consists of, and `Mark.run?`
follows the tags with the elements that are open, the outermost first.

Between one segment and the next the tags lead from the elements of the one format to those of the
other by the shortest way (`Changes`): the elements that both have from the outside in stay open,
the others of the first are closed from the inside, and the others of the second are opened.  The
invariant of the rendering is that behind a segment exactly the elements of its format are open.
-/

namespace Interdoc.Docx

open Html (Piece)

/-! ### Formats -/

/-- Whether a format asks for an element. -/
def RunFormat.asksFor (f : RunFormat) (tag : String) : Bool :=
  (f.bold && tag == "strong") || (f.italic && tag == "em") || (f.underline && tag == "u") ||
    (f.code && tag == "code")

/-- The elements that a format asks for, from the outermost to the innermost. -/
def RunFormat.elements (f : RunFormat) : List String :=
  formatTags.filter f.asksFor

theorem RunFormat.tags_eq_elements (f : RunFormat) : f.tags = f.elements := by
  have hall : ∀ bold italic underline code,
      (RunFormat.mk bold italic underline code).tags =
        (RunFormat.mk bold italic underline code).elements := by
    decide
  exact hall f.bold f.italic f.underline f.code

/-! ### Marks -/

/-- A part of rendered segments: a tag of an element for formats, or a whole segment. -/
inductive Mark where
  | start (tag : String)
  | finish (tag : String)
  | segment (s : Segment)

namespace Mark

/-- The piece of a part. -/
def piece : Mark → Piece
  | start tag => .start tag []
  | finish tag => .finish tag
  | segment s => s.piece

/-- The segment that a part is. -/
def segment? : Mark → Option Segment
  | segment s => some s
  | _ => none

/-- The open elements after a part, the outermost first.  An end tag has to be that of the innermost
element. -/
def step? (opened : List String) : Mark → Option (List String)
  | start tag => some (opened ++ [tag])
  | finish tag => if opened.getLast? = some tag then some opened.dropLast else none
  | segment _ => some opened

/-- The open elements after parts. -/
def run? (opened : List String) (marks : List Mark) : Option (List String) :=
  marks.foldlM step? opened

/-- The segments among parts. -/
def segments (marks : List Mark) : List Segment :=
  marks.filterMap segment?

/-- The end tags of open elements. -/
def closing (tags : List String) : List Mark :=
  tags.reverse.map finish

/-- The start tags of elements. -/
def opening (tags : List String) : List Mark :=
  tags.map start

theorem run?_append (opened : List String) (marks others : List Mark) :
    run? opened (marks ++ others) = (run? opened marks).bind (run? · others) :=
  List.foldlM_append

theorem run?_start (opened : List String) (tag : String) (marks : List Mark) :
    run? opened (start tag :: marks) = run? (opened ++ [tag]) marks := rfl

theorem run?_segment (opened : List String) (s : Segment) (marks : List Mark) :
    run? opened (segment s :: marks) = run? opened marks := rfl

theorem run?_finish (opened : List String) (tag : String) (marks : List Mark) :
    run? (opened ++ [tag]) (finish tag :: marks) = run? opened marks := by
  rw [run?, List.foldlM_cons, step?, List.getLast?_concat, if_pos rfl, List.dropLast_concat]
  rfl

theorem closing_concat (tags : List String) (tag : String) :
    closing (tags ++ [tag]) = finish tag :: closing tags := by
  rw [closing, List.reverse_concat, List.map_cons, closing]

theorem segments_append (marks others : List Mark) :
    segments (marks ++ others) = segments marks ++ segments others :=
  List.filterMap_append

theorem segments_closing (tags : List String) : segments (closing tags) = [] := by
  rw [segments, closing, List.filterMap_map]
  exact List.filterMap_eq_nil_iff.mpr fun _ _ => rfl

theorem segments_opening (tags : List String) : segments (opening tags) = [] := by
  rw [segments, opening, List.filterMap_map]
  exact List.filterMap_eq_nil_iff.mpr fun _ _ => rfl

/-- End tags close what they name and leave what is around it. -/
theorem run?_of_prefix_closing (outer : List String) {tags : List String} {mid : List Mark}
    (h : mid <+: closing tags) :
    ∃ inner, run? (outer ++ tags) mid = some (outer ++ inner) ∧
      (mid = closing tags → inner = []) := by
  induction tags using List.reverseRecOn generalizing mid with
  | nil =>
    obtain rfl := List.prefix_nil.mp h
    exact ⟨[], rfl, fun _ => rfl⟩
  | append_singleton tags tag ih =>
    rw [closing_concat] at h ⊢
    rcases List.prefix_cons_iff.mp h with rfl | ⟨mid', rfl, hmid⟩
    · exact ⟨tags ++ [tag], rfl, nofun⟩
    · obtain ⟨inner, hrun, hall⟩ := ih hmid
      refine ⟨inner, ?_, fun heq => hall (List.cons.inj heq).2⟩
      rw [← List.append_assoc, run?_finish, hrun]

/-- Start tags leave open what was open. -/
theorem run?_of_prefix_opening (outer : List String) {tags : List String} {mid : List Mark}
    (h : mid <+: opening tags) :
    ∃ inner, run? outer mid = some (outer ++ inner) ∧ (mid = opening tags → inner = tags) := by
  induction tags generalizing outer mid with
  | nil =>
    obtain rfl := List.prefix_nil.mp h
    exact ⟨[], by rw [List.append_nil]; rfl, fun _ => rfl⟩
  | cons tag tags ih =>
    rcases List.prefix_cons_iff.mp h with rfl | ⟨mid', rfl, hmid⟩
    · exact ⟨[], by rw [List.append_nil]; rfl, nofun⟩
    · obtain ⟨inner, hrun, hall⟩ := ih (outer ++ [tag]) hmid
      refine ⟨tag :: inner, ?_, fun heq => by rw [hall (List.cons.inj heq).2]⟩
      rw [run?_start, hrun, List.append_assoc, List.singleton_append]

end Mark

/-! ### From one format to the next -/

/-- What lists have in common from the start on, and what each has beyond it. -/
structure Fork (as bs common as' bs' : List String) : Prop where
  left : as = common ++ as'
  right : bs = common ++ bs'
  /-- They have nothing more in common. -/
  longest : ∀ tag ∈ as'.head?, tag ∉ bs'.head?

/-- Tags that close and open what elements do not share with the elements that are wanted, and
nothing else. -/
def Changes (opened wanted : List String) (marks : List Mark) : Prop :=
  ∃ common closed added, Fork opened wanted common closed added ∧
    marks = Mark.closing closed ++ Mark.opening added

theorem fork_commonLength (as bs : List String) :
    Fork as bs (as.take (commonLength as bs)) (as.drop (commonLength as bs))
      (bs.drop (commonLength as bs)) := by
  refine ⟨(List.take_append_drop _ _).symm, ?_, ?_⟩
  · rw [take_commonLength, List.take_append_drop]
  · induction as generalizing bs with
    | nil =>
      intro tag htag
      rw [List.drop_nil] at htag
      cases htag
    | cons a as ih =>
      cases bs with
      | nil =>
        intro tag _ htag
        rw [List.drop_nil] at htag
        cases htag
      | cons b bs =>
        rw [commonLength]
        split
        · exact ih bs
        · next hne =>
          rintro tag ⟨⟩ ⟨⟩
          exact hne rfl

/-- **The elements that are shared stay open** on the way from some elements to others. -/
theorem run?_of_fork {opened wanted common closed added : List String} {mid : List Mark}
    (h : Fork opened wanted common closed added)
    (hmid : mid <+: Mark.closing closed ++ Mark.opening added) :
    ∃ inner, Mark.run? opened mid = some (common ++ inner) := by
  rw [h.left]
  rcases List.prefix_or_prefix_of_prefix hmid (List.prefix_append _ _) with hclosing | ⟨rest, rfl⟩
  · obtain ⟨inner, hrun, -⟩ := Mark.run?_of_prefix_closing common hclosing
    exact ⟨inner, hrun⟩
  · have hopening := (List.prefix_append_right_inj _).mp hmid
    obtain ⟨inner, hrun, -⟩ := Mark.run?_of_prefix_opening common hopening
    obtain ⟨closedAll, hclosed, hall⟩ :=
      Mark.run?_of_prefix_closing common (List.prefix_refl (Mark.closing closed))
    rw [hall rfl, List.append_nil] at hclosed
    refine ⟨inner, ?_⟩
    rw [Mark.run?_append, hclosed, Option.bind_some, hrun]

/-- The tags between lead from the elements that are open to those that are wanted. -/
theorem Changes.run?_eq {opened wanted : List String} {marks : List Mark}
    (h : Changes opened wanted marks) : Mark.run? opened marks = some wanted := by
  obtain ⟨common, closed, added, hfork, rfl⟩ := h
  obtain ⟨inner, hclosing, hclosed⟩ :=
    Mark.run?_of_prefix_closing common (List.prefix_refl (Mark.closing closed))
  obtain ⟨all, hopening, hadded⟩ :=
    Mark.run?_of_prefix_opening common (List.prefix_refl (Mark.opening added))
  rw [hclosed rfl, List.append_nil] at hclosing
  rw [hadded rfl] at hopening
  rw [hfork.left, hfork.right, Mark.run?_append, hclosing, Option.bind_some, hopening]

theorem Changes.segments_eq_nil {opened wanted : List String} {marks : List Mark}
    (h : Changes opened wanted marks) : Mark.segments marks = [] := by
  obtain ⟨common, closed, added, -, rfl⟩ := h
  rw [Mark.segments_append, Mark.segments_closing, Mark.segments_opening, List.append_nil]

/-! ### The rendering in parts -/

/-- The tags from some elements to others. -/
def changeMarks (opened wanted : List String) : List Mark :=
  let common := commonLength opened wanted
  Mark.closing (opened.drop common) ++ Mark.opening (wanted.drop common)

/-- The parts of rendered segments, where the given elements are open. -/
def marksFrom (opened : List String) : List Segment → List Mark
  | [] => Mark.closing opened
  | s :: rest => changeMarks opened s.format.tags ++ .segment s :: marksFrom s.format.tags rest

theorem changes_changeMarks (opened wanted : List String) :
    Changes opened wanted (changeMarks opened wanted) :=
  ⟨_, _, _, fork_commonLength opened wanted, rfl⟩

theorem changes_closing (opened : List String) : Changes opened [] (Mark.closing opened) :=
  ⟨[], opened, [], ⟨rfl, rfl, fun _ _ => nofun⟩, (List.append_nil _).symm⟩

theorem renderSegmentsFrom_eq (opened : List String) (segs : List Segment) :
    renderSegmentsFrom opened segs = (marksFrom opened segs).map Mark.piece := by
  have hclose (tags : List String) : (Mark.closing tags).map Mark.piece = closeTags tags := by
    rw [Mark.closing, List.map_map]
    rfl
  have hopen (tags : List String) : (Mark.opening tags).map Mark.piece = openTags tags := by
    rw [Mark.opening, List.map_map]
    rfl
  induction segs generalizing opened with
  | nil => exact (hclose opened).symm
  | cons s segs ih =>
    rw [renderSegmentsFrom, marksFrom, changeMarks, List.map_append, List.map_append, hclose, hopen,
      List.map_cons, ← ih]
    rfl

theorem segments_marksFrom (opened : List String) (segs : List Segment) :
    Mark.segments (marksFrom opened segs) = segs := by
  induction segs generalizing opened with
  | nil => exact Mark.segments_closing opened
  | cons s segs ih =>
    rw [marksFrom, Mark.segments_append, (changes_changeMarks _ _).segments_eq_nil]
    exact congrArg (s :: ·) (ih s.format.tags)

/-- **Segments close what they open**, and what was open before them. -/
theorem run?_marksFrom (opened : List String) (segs : List Segment) :
    Mark.run? opened (marksFrom opened segs) = some [] := by
  induction segs generalizing opened with
  | nil => exact (changes_closing opened).run?_eq
  | cons s segs ih =>
    rw [marksFrom, Mark.run?_append, (changes_changeMarks _ _).run?_eq, Option.bind_some,
      Mark.run?_segment, ih]

/-! ### Between segments -/

/-- The elements of the last segment, none if there is none. -/
def lastElements (marks : List Mark) : List String :=
  ((Mark.segments marks).getLast?.map fun s => s.format.elements).getD []

/-- The elements of the first segment, none if there is none. -/
def firstElements (marks : List Mark) : List String :=
  ((Mark.segments marks).head?.map fun s => s.format.elements).getD []

/-- There are only tags in the middle, and a segment on each side of them where there is
anything. -/
structure IsGap (before between after : List Mark) : Prop where
  none : Mark.segments between = []
  left : ∀ m ∈ before.getLast?, ∃ s, m = .segment s
  right : ∀ m ∈ after.head?, ∃ s, m = .segment s

theorem not_mem_of_segments_eq_nil {marks : List Mark} (h : Mark.segments marks = [])
    (s : Segment) : Mark.segment s ∉ marks := fun hmem =>
  absurd (List.filterMap_eq_nil_iff.mp h _ hmem) (by simp [Mark.segment?])

/-- Parts that are without segments hold none at any place. -/
theorem ne_append_segment {marks : List Mark} (h : Mark.segments marks = [])
    (before after : List Mark) (s : Segment) : marks ≠ before ++ .segment s :: after := by
  rintro rfl
  exact not_mem_of_segments_eq_nil h s (List.mem_append_right _ List.mem_cons_self)

/-- The first segment behind tags is the one that any reading of the parts comes to first. -/
theorem append_segment_eq {tags rest before after : List Mark} {s t : Segment}
    (htags : Mark.segments tags = [])
    (h : tags ++ .segment s :: rest = before ++ .segment t :: after) :
    (before = tags ∧ t = s ∧ after = rest) ∨ ∃ before',
      before = tags ++ .segment s :: before' ∧ rest = before' ++ .segment t :: after := by
  rcases List.append_eq_append_iff.mp h with ⟨more, rfl, hmore⟩ | ⟨more, rfl, hmore⟩
  · rcases List.cons_eq_append_iff.mp hmore with ⟨rfl, hafter⟩ | ⟨before', rfl, hrest⟩
    · obtain ⟨rfl, rfl⟩ : t = s ∧ after = rest := by simpa using hafter
      exact .inl ⟨List.append_nil _, rfl, rfl⟩
    · exact .inr ⟨before', rfl, hrest⟩
  · rcases List.cons_eq_append_iff.mp hmore with ⟨rfl, hafter⟩ | ⟨more', rfl, -⟩
    · obtain ⟨rfl, rfl⟩ : s = t ∧ rest = after := by simpa using hafter
      exact .inl ⟨(List.append_nil _).symm, rfl, rfl⟩
    · exact absurd rfl (ne_append_segment htags before more' t)

/-- **Behind a segment its elements are open**, and so they are in front of it. -/
theorem run?_before_segment {opened : List String} {segs : List Segment} {before after : List Mark}
    {s : Segment} (h : marksFrom opened segs = before ++ .segment s :: after) :
    Mark.run? opened before = some s.format.elements := by
  induction segs generalizing opened before with
  | nil => exact absurd h (ne_append_segment (Mark.segments_closing opened) before after s)
  | cons t segs ih =>
    have hchange := changes_changeMarks opened t.format.tags
    rw [marksFrom] at h
    rcases append_segment_eq hchange.segments_eq_nil h with ⟨rfl, rfl, -⟩ | ⟨before', rfl, hrest⟩
    · rw [hchange.run?_eq, RunFormat.tags_eq_elements]
    · rw [Mark.run?_append, hchange.run?_eq, Option.bind_some, Mark.run?_segment, ih hrest]

/-- The tags in front of everything lead from what is open to the first segment. -/
theorem changes_first {opened : List String} {segs : List Segment} {between after : List Mark}
    (h : marksFrom opened segs = between ++ after) (hnone : Mark.segments between = [])
    (hright : ∀ m ∈ after.head?, ∃ s, m = .segment s) :
    Changes opened (firstElements after) between := by
  -- the first segment is that of the rendered ones, for no segment stands in front of it
  cases after with
  | nil =>
    rw [List.append_nil] at h
    cases segs with
    | nil =>
      rw [← show Mark.closing opened = between from h]
      exact changes_closing opened
    | cons t segs =>
      rw [marksFrom] at h
      exact absurd h.symm (ne_append_segment hnone _ _ t)
  | cons m after =>
    obtain ⟨s, rfl⟩ := hright m rfl
    cases segs with
    | nil => exact absurd h (ne_append_segment (Mark.segments_closing opened) between after s)
    | cons t segs =>
      have hchange := changes_changeMarks opened t.format.tags
      rw [marksFrom] at h
      rcases append_segment_eq hchange.segments_eq_nil h with ⟨rfl, rfl, -⟩ | ⟨between', rfl, -⟩
      · rwa [RunFormat.tags_eq_elements] at hchange ⊢
      · exact absurd rfl (ne_append_segment hnone _ between' t)

/-- The tags behind a segment lead from its elements to the next segment. -/
theorem changes_behind {opened : List String} {segs : List Segment}
    {before between after : List Mark} {s : Segment}
    (h : marksFrom opened segs = before ++ .segment s :: (between ++ after))
    (hnone : Mark.segments between = []) (hright : ∀ m ∈ after.head?, ∃ t, m = .segment t) :
    Changes s.format.elements (firstElements after) between := by
  induction segs generalizing opened before with
  | nil => exact absurd h (ne_append_segment (Mark.segments_closing opened) before _ s)
  | cons t segs ih =>
    have hchange := changes_changeMarks opened t.format.tags
    rw [marksFrom] at h
    rcases append_segment_eq hchange.segments_eq_nil h with ⟨-, rfl, hrest⟩ | ⟨before', -, hrest⟩
    · rw [← RunFormat.tags_eq_elements]
      exact changes_first hrest.symm hnone hright
    · exact ih hrest

/-- **The tags between two segments** lead from the elements of the one to those of the other. -/
theorem changes_between {segs : List Segment} {before between after : List Mark}
    (h : marksFrom [] segs = before ++ (between ++ after)) (hgap : IsGap before between after) :
    Changes (lastElements before) (firstElements after) between := by
  rcases List.eq_nil_or_concat' before with rfl | ⟨front, m, rfl⟩
  · exact changes_first h hgap.none hgap.right
  · obtain ⟨s, rfl⟩ := hgap.left m List.getLast?_concat
    rw [List.append_assoc, List.singleton_append] at h
    have hlast : lastElements (front ++ [.segment s]) = s.format.elements := by
      rw [lastElements, Mark.segments_append]
      exact congrArg (fun last => (Option.map _ last).getD []) List.getLast?_concat
    rw [hlast]
    exact changes_behind h hgap.none hgap.right

/-! ### Segments -/

/-- **Rendered segments keep their elements.**  The pieces are those of the segments in order and of
tags of the rendering.  The tags are well nested; at each segment exactly the elements of its format
are open, in the order of `formatTags`.  From one segment to the next, and from and to the ends, the
tags close from the inside what the next format does not share and open what it adds, and there are
no others, so the elements that both formats have from the outside in stay open all the way. -/
theorem renderSegments_keeps_elements (segs : List Segment) :
    ∃ marks : List Mark, renderSegments segs = marks.map Mark.piece ∧
      Mark.segments marks = segs ∧ Mark.run? [] marks = some [] ∧
      (∀ before s after, marks = before ++ .segment s :: after →
        Mark.run? [] before = some (formatTags.filter s.format.asksFor)) ∧
      ∀ before between after, marks = before ++ (between ++ after) → IsGap before between after →
        ∃ common closed added,
          Fork (lastElements before) (firstElements after) common closed added ∧
          between = Mark.closing closed ++ Mark.opening added ∧
          ∀ mid, mid <+: between →
            ∃ inner, Mark.run? (lastElements before) mid = some (common ++ inner) := by
  refine ⟨marksFrom [] segs, renderSegmentsFrom_eq [] segs, segments_marksFrom [] segs,
    run?_marksFrom [] segs, fun before s after h => run?_before_segment h,
    fun before between after h hgap => ?_⟩
  obtain ⟨common, closed, added, hfork, hbetween⟩ := changes_between h hgap
  refine ⟨common, closed, added, hfork, hbetween, fun mid hmid => ?_⟩
  rw [hbetween] at hmid
  exact run?_of_fork hfork hmid

-- the element that the second format has inside another one is closed and opened again
example : renderSegments
      [⟨⟨false, true, false, false⟩, .text "a"⟩, ⟨⟨true, true, false, false⟩, .text "b"⟩] =
    [.start "em" [], .text "a", .finish "em", .start "strong" [], .start "em" [], .text "b",
      .finish "em", .finish "strong"] := by
  decide

end Interdoc.Docx
