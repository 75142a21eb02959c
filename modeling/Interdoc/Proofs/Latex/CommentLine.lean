import Interdoc.Proofs.Latex.Composition

/-!
# Comment lines

Where blocks are read, a comment line is passed over.  But the lines of an environment are collected
before they are read, and those of a list are split into items, and there a comment is a line like
others: a marker in it counts, and before the first item of a list it is text that makes an item of
its own (`parse_comment_is_item_and_closes_quote`).

So what a comment does depends on what is around the place where it stands, which `framesAt` gives:
the environments that are open there, and whether the place is at the front of a list.  A comment
can be put in wherever each of these ignores it (`parse_insert_comment`).  Unless the comment has
markers, that is everywhere but in verbatim code and at the front of a list
(`Frame.ignores_of_unmarked`).

The proof follows the reading of the lines before the place.  An environment that ends before it is
the same with and without the comment.  One that does not gets the comment as one more line of its
body, or of the item around the place (`itemLines_insert`), and that is read again.
-/

namespace Interdoc.Latex

/-! ### Items around a place -/

/-- Whether an environment is a list. -/
def isList (name : List Char) : Bool :=
  isItemize name || isEnumerate name

/-- The number of open environments after lines. -/
def openAfter (depth : Nat) (lines : List Line) : Nat :=
  lines.foldl (fun depth line => depthAfter depth (Text.trim line)) depth

/-- Lines and items with more behind them: more lines belong to the last item, or to the lines
before the items if there is none. -/
def appendItems (leading : List Line) : List (List Line) → List Line × List (List Line) →
    List Line × List (List Line)
  | [], more => (leading ++ more.1, more.2)
  | item :: items, more => (leading, (appendItems item items more).1 ::
      (appendItems item items more).2)

/-- A line put in front of the lines before the first item stays there. -/
theorem appendItems_cons (line : Line) (leading : List Line) (items : List (List Line))
    (more : List Line × List (List Line)) :
    appendItems (line :: leading) items more =
      prependLeading [line] (appendItems leading items more) := by
  cases items <;> rfl

theorem appendItems_concat (leading : List Line) (items : List (List Line)) (item : List Line)
    (more : List Line × List (List Line)) :
    appendItems leading (items ++ [item]) more =
      (leading, items ++ (item ++ more.1) :: more.2) := by
  induction items generalizing leading with
  | nil => rfl
  | cons first items ih => rw [List.cons_append, appendItems, ih, List.cons_append]

/-- **Lines behind other lines** fall into items as if those were not there, but for the lines
before their first item. -/
theorem splitItems_append_lines (depth : Nat) (xs ys : List Line) :
    splitItems depth (xs ++ ys) = appendItems (splitItems depth xs).1 (splitItems depth xs).2
      (splitItems (openAfter depth xs) ys) := by
  induction xs generalizing depth with
  | nil => rfl
  | cons line xs ih =>
    have hrest := ih (depthAfter depth (Text.trim line))
    rw [List.cons_append, splitItems, splitItems]
    dsimp only
    cases if depth = 0 then item? (Text.trim line) else none with
    | some first =>
      dsimp only
      rw [appendItems, appendItems_cons, hrest]
      rfl
    | none =>
      dsimp only
      rw [appendItems_cons, hrest]
      rfl

/-- The lines before and after a place that belong to the item around it, if there is an item.
Lines before the first item are one unless they are all blank. -/
def itemAround (before after : List Line) : Option (List Line × List Line) :=
  let split := splitItems 0 before
  let following := (splitItems (openAfter 0 before) after).1
  match split.2.getLast? with
  | some item => some (item, following)
  | none =>
    if (split.1 ++ following).all Text.isBlank then none else some (split.1, following)

theorem weight_le_itemsWeight {item : List Line} {items : List (List Line)} (h : item ∈ items) :
    weight item ≤ itemsWeight items := by
  induction h with
  | head items =>
    rw [itemsWeight_cons]
    omega
  | tail first _ ih =>
    rw [itemsWeight_cons]
    omega

theorem weight_itemAround {before after itemBefore itemAfter : List Line}
    (h : itemAround before after = some (itemBefore, itemAfter)) :
    weight itemBefore ≤ weight before := by
  have hsplit := weight_splitItems 0 before
  rw [itemAround] at h
  split at h
  · next item hlast =>
    cases h
    have hitem := weight_le_itemsWeight (List.mem_of_getLast? hlast)
    omega
  · split_ifs at h
    cases h
    omega

/-- A line that begins no item and opens and closes as many environments. -/
structure IsNeutral (line : Line) : Prop where
  item : item? (Text.trim line) = none
  depth : ∀ depth, depthAfter depth (Text.trim line) = depth

theorem IsNeutral.splitItems {line : Line} (h : IsNeutral line) (depth : Nat) (lines : List Line) :
    splitItems depth (line :: lines) = prependLeading [line] (splitItems depth lines) := by
  rw [splitItems_cons (fun _ => h.item), h.depth]

/-- **A line that is put into an item** changes no other item. -/
theorem itemLines_insert {before after itemBefore itemAfter : List Line}
    (h : itemAround before after = some (itemBefore, itemAfter)) {line : Line}
    (hline : IsNeutral line) (hblank : Text.isBlank line = false) :
    ∃ items others, itemLines (before ++ after) = items ++ (itemBefore ++ itemAfter) :: others ∧
      itemLines (before ++ line :: after) =
        items ++ (itemBefore ++ line :: itemAfter) :: others := by
  rw [itemLines, itemLines, splitItems_append_lines, splitItems_append_lines, hline.splitItems]
  rw [itemAround] at h
  dsimp only at h ⊢
  generalize splitItems 0 before = split at h ⊢
  generalize splitItems (openAfter 0 before) after = more at h ⊢
  obtain ⟨leading, items⟩ := split
  obtain ⟨following, others⟩ := more
  -- the line comes into what leads the items, or into the last item in front of it
  rcases List.eq_nil_or_concat' items with rfl | ⟨items, item, rfl⟩
  · dsimp only [List.getLast?_nil] at h
    split_ifs at h with hall
    cases h
    have hmore : ¬ (itemBefore ++ line :: itemAfter).all Text.isBlank = true := by
      rw [List.all_append, List.all_cons, hblank, Bool.false_and, Bool.and_false]
      decide
    refine ⟨[], others, ?_, ?_⟩
    · exact if_neg hall
    · exact if_neg hmore
  · rw [List.getLast?_concat] at h
    cases h
    rw [appendItems_concat, appendItems_concat]
    dsimp only
    split_ifs
    · exact ⟨items, others, rfl, rfl⟩
    · exact ⟨leading :: items, others, rfl, rfl⟩

/-! ### Frames -/

/-- What is around a place between lines. -/
inductive Frame where
  /-- The body of an environment. -/
  | body (name : List Char)
  /-- The blank lines before the first item of a list. -/
  | front

/-- The lines in an environment weigh less than those from its opening marker on. -/
theorem weight_lines_lt {raw : Line} {name opening : List Char}
    (h : opening? (significant raw) = some (name, opening)) (before : List Line) :
    weight (Environment.lines ⟨name, opening, before, []⟩) < weight (raw :: before) := by
  have hlines := weight_lines ⟨name, opening, before, []⟩
  have hopening := length_opening? h
  have hraw := length_significant raw
  simp only [Environment.weight, List.length_nil] at hlines
  rw [weight_cons]
  omega

/-- What is around the place between lines, the outermost first. -/
def framesAt (before after : List Line) : List Frame :=
  match before with
  | [] => []
  | raw :: before =>
    match _hopen : opening? (significant raw) with
    | none => framesAt before after
    | some (name, opening) =>
      match scanLines name 0 (opening :: before) with
      | none => framesAt (collect name opening before).2 after
      | some depth =>
        if isList name then
          match _hitem : itemAround (Environment.lines ⟨name, opening, before, []⟩)
              (collectBody name depth after).body with
          | none => [.body name, .front]
          | some (itemBefore, itemAfter) => .body name :: framesAt itemBefore itemAfter
        else if name = "tabular".toList then [.body name]
        else .body name :: framesAt (Environment.lines ⟨name, opening, before, []⟩)
          (collectBody name depth after).body
termination_by weight before
decreasing_by
  · rw [weight_cons]
    omega
  · have hcollect := weight_collect name opening before
    have hopening := length_opening? _hopen
    have hraw := length_significant raw
    rw [weight_cons]
    omega
  · have hitem := weight_itemAround _hitem
    have hlines := weight_lines_lt _hopen before
    omega
  · exact weight_lines_lt _hopen before

section

variable {raw : Line} {name opening : List Char} {before after : List Line} {depth : Nat}

theorem framesAt_line (h : opening? (significant raw) = none) :
    framesAt (raw :: before) after = framesAt before after := by
  rw [framesAt]
  split
  · rfl
  · next h' => exact absurd (h.symm.trans h') (by simp)

theorem framesAt_list (hopen : opening? (significant raw) = some (name, opening))
    (hscan : scanLines name 0 (opening :: before) = some depth) (hlist : isList name = true)
    {itemBefore itemAfter : List Line}
    (hitem : itemAround (Environment.lines ⟨name, opening, before, []⟩)
      (collectBody name depth after).body = some (itemBefore, itemAfter)) :
    framesAt (raw :: before) after = .body name :: framesAt itemBefore itemAfter := by
  rw [framesAt]
  split
  · next h => exact absurd (hopen.symm.trans h) (by simp)
  · next h =>
    cases hopen.symm.trans h
    rw [hscan]
    dsimp only
    rw [if_pos hlist]
    split
    · next h => exact absurd (hitem.symm.trans h) (by simp)
    · next h =>
      cases hitem.symm.trans h
      rfl

theorem framesAt_lines (hopen : opening? (significant raw) = some (name, opening))
    (hscan : scanLines name 0 (opening :: before) = some depth) (hlist : isList name = false)
    (htab : name ≠ "tabular".toList) :
    framesAt (raw :: before) after = .body name ::
      framesAt (Environment.lines ⟨name, opening, before, []⟩)
        (collectBody name depth after).body := by
  rw [framesAt]
  split
  · next h => exact absurd (hopen.symm.trans h) (by simp)
  · next h =>
    cases hopen.symm.trans h
    rw [hscan]
    dsimp only
    rw [if_neg (Bool.not_eq_true _ ▸ hlist), if_neg htab]

theorem framesAt_nil (after : List Line) : framesAt [] after = [] := by
  rw [framesAt]

end

/-- Nothing around the place takes notice of a line that stands there.  In a body it must not close
the environment, and in the body of a list it must not seem to stand in another environment than
the lines after it. -/
def Frame.Ignores (line : Line) : Frame → Prop
  | .body name => isVerbatim name = false ∧ Balanced (markers name [line]) ∧
      (isList name = true → Text.count "\\begin\x7b".toList (Text.trim line) =
        Text.count "\\end\x7b".toList (Text.trim line))
  | .front => False

instance (line : Line) (frame : Frame) : Decidable (frame.Ignores line) :=
  match frame with
  | .body name => inferInstanceAs (Decidable (isVerbatim name = false ∧ Balanced _ ∧ (_ → _)))
  | .front => inferInstanceAs (Decidable False)

theorem markersIn_of_unmarked {name line : List Char} (h : Unmarked line) :
    markersIn name line = [] := by
  induction line with
  | nil => rfl
  | cons c line ih =>
    rw [markersIn_cons, ih (h.of_infix (List.suffix_cons c line).isInfix)]
    · exact fun ho => h.1 (openingMarker_isPrefix name ho).isInfix
    · exact fun hc => h.2 (closingMarker_isPrefix name hc).isInfix

/-- **A line without markers** is noticed in no body but verbatim ones. -/
theorem Frame.ignores_of_unmarked {name line : List Char} (hv : isVerbatim name = false)
    (h : Unmarked line) : (Frame.body name).Ignores line := by
  have htrim : Unmarked (Text.trim line) := h.of_infix (Text.trim_isInfix line)
  refine ⟨hv, ?_, fun _ => ?_⟩
  · rw [markers, List.flatMap_singleton, markersIn_of_unmarked h]
    decide
  · rw [Text.count, Text.count, countAux_of_not_isInfix htrim.1, countAux_of_not_isInfix htrim.2]

/-! ### Comments -/

theorem not_isBlank_of_isComment {line : Line} (h : isComment line = true) :
    Text.isBlank line = false := by
  rw [isComment, Text.startsWith_iff] at h
  obtain ⟨t, ht⟩ := h
  rw [← Bool.not_eq_true, ← Text.trim_eq_nil_iff, ← ht]
  exact List.cons_ne_nil _ _

theorem isNeutral_of_isComment {line : Line} (h : isComment line = true)
    (hcount : Text.count "\\begin\x7b".toList (Text.trim line) =
      Text.count "\\end\x7b".toList (Text.trim line)) : IsNeutral line := by
  rw [isComment, Text.startsWith_iff] at h
  obtain ⟨t, ht⟩ := h
  constructor
  · rw [← ht]
    rfl
  · intro depth
    rw [depthAfter, hcount]
    omega

/-- Segments that are the same blocks after each paragraph. -/
def SameBlocks (xs ys : List Segment) : Prop :=
  ∀ paragraph, assemble paragraph xs = assemble paragraph ys

theorem SameBlocks.append {xs ys : List Segment} (h : SameBlocks xs ys) (own : List Segment) :
    SameBlocks (own ++ xs) (own ++ ys) := by
  induction own with
  | nil => exact h
  | cons seg own ih =>
    intro paragraph
    cases seg <;> simp only [List.cons_append, assemble, ih _]

theorem sameBlocks_environment {e e' : Environment} (h : environmentBlocks e = environmentBlocks e')
    (segs : List Segment) : SameBlocks (.environment e :: segs) (.environment e' :: segs) := by
  intro paragraph
  rw [assemble, assemble, h]

/-! ### Open environments -/

section

variable {name opening : List Char}

/-- An environment that is still open after lines goes on with what follows. -/
theorem collect_of_scanLines {before : List Line} {depth : Nat}
    (h : scanLines name 0 (opening :: before) = some depth) (rest : List Line) :
    collect name opening (before ++ rest) =
      (⟨name, opening, before ++ (collectBody name depth rest).body,
        (collectBody name depth rest).trailing⟩, (collectBody name depth rest).rest) := by
  rw [scanLines, Option.bind_eq_some_iff] at h
  obtain ⟨during, hopening, hbefore⟩ := h
  have hopen : scanClose name 0 0 opening = .stillOpen during := by
    cases hs : scanClose name 0 0 opening <;> rw [hs] at hopening <;> cases hopening
    rfl
  rw [collect, hopen]
  dsimp only
  rw [collectBody_of_scanLines hbefore]
  rfl

theorem Environment.lines_append (before rest : List Line) (trailing : List Char) :
    Environment.lines ⟨name, opening, before ++ rest, trailing⟩ =
      Environment.lines ⟨name, opening, before, []⟩ ++ rest := by
  rw [Environment.lines, Environment.lines]
  dsimp only
  split_ifs <;> rfl

variable {body body' : List Line} {trailing : List Char}

theorem environmentBlocks_list_congr (hlist : isList name = true)
    (h : (itemLines (Environment.lines ⟨name, opening, body, trailing⟩)).map parseBlocks =
      (itemLines (Environment.lines ⟨name, opening, body', trailing⟩)).map parseBlocks) :
    environmentBlocks ⟨name, opening, body, trailing⟩ =
      environmentBlocks ⟨name, opening, body', trailing⟩ := by
  rw [isList, isItemize, isEnumerate, Bool.or_eq_true, beq_iff_eq, beq_iff_eq] at hlist
  rw [environmentBlocks, environmentBlocks, itemBlocks_eq_map, itemBlocks_eq_map, h]
  rcases hlist with rfl | rfl <;> rfl

theorem environmentBlocks_tabular_congr
    (h : body.flatMap tabularLine = body'.flatMap tabularLine) :
    environmentBlocks ⟨"tabular".toList, opening, body, trailing⟩ =
      environmentBlocks ⟨"tabular".toList, opening, body', trailing⟩ := by
  have htabular : Environment.tabular ⟨"tabular".toList, opening, body, trailing⟩ =
      Environment.tabular ⟨"tabular".toList, opening, body', trailing⟩ := by
    rw [Environment.tabular, Environment.tabular]
    dsimp only
    rw [h]
  rw [environmentBlocks, environmentBlocks, htabular]
  rfl

theorem environmentBlocks_lines_congr (hv : isVerbatim name = false) (hlist : isList name = false)
    (htab : name ≠ "tabular".toList)
    (h : parseBlocks (Environment.lines ⟨name, opening, body, trailing⟩) =
      parseBlocks (Environment.lines ⟨name, opening, body', trailing⟩)) :
    environmentBlocks ⟨name, opening, body, trailing⟩ =
      environmentBlocks ⟨name, opening, body', trailing⟩ := by
  rw [isList, Bool.or_eq_false_iff] at hlist
  rw [environmentBlocks, environmentBlocks]
  simp only [hlist.1, hlist.2, hv, htab, h, Bool.false_eq_true, if_false]

end

/-! ### Places in which a comment is not seen -/

variable {comment : Line}

/-- The body of an environment goes on through a comment that does not close it. -/
theorem collectBody_comment {name : List Char} (hname : '\x7d' ∉ name)
    (h : (Frame.body name).Ignores comment) (depth : Nat) (after : List Line) :
    collectBody name depth (comment :: after) =
      (collectBody name depth after).prepend [comment] := by
  obtain ⟨hv, hbalanced, -⟩ := h
  have hscan : scanLines name depth [comment] = some depth := by
    rw [scanLines_eq hv hname, hbalanced.depthAfter?_eq]
  exact collectBody_of_scanLines hscan after

/-- A comment in an environment is not seen if it is not seen in its body. -/
theorem sameBlocks_open {raw : Line} {name opening : List Char} {before after : List Line}
    {depth : Nat} (hopen : opening? (significant raw) = some (name, opening))
    (hscan : scanLines name 0 (opening :: before) = some depth)
    (hignores : (Frame.body name).Ignores comment)
    (hblocks : ∀ trailing, environmentBlocks ⟨name, opening,
        before ++ comment :: (collectBody name depth after).body, trailing⟩ =
      environmentBlocks ⟨name, opening, before ++ (collectBody name depth after).body, trailing⟩) :
    SameBlocks (segments (raw :: before ++ comment :: after))
      (segments (raw :: before ++ after)) := by
  rw [List.cons_append, List.cons_append, segments_of_opening? hopen, segments_of_opening? hopen,
    collect_of_scanLines hscan, collect_of_scanLines hscan,
    collectBody_comment (not_mem_of_opening? hopen) hignores]
  exact sameBlocks_environment (hblocks _) _

theorem tabularLine_of_isComment (hc : isComment comment = true) : tabularLine comment = [] := by
  rw [tabularLine, if_pos hc]

/-- **A comment is not seen** where nothing around it takes notice of it. -/
theorem sameBlocks_insert_comment (hc : isComment comment = true) {before after : List Line}
    (h : ∀ frame ∈ framesAt before after, frame.Ignores comment) :
    SameBlocks (segments (before ++ comment :: after)) (segments (before ++ after)) := by
  fun_induction framesAt before after with
  | case1 after =>
    intro paragraph
    rw [List.nil_append, List.nil_append, segments, if_pos hc]
  | case2 after raw before hopen ih =>
    obtain ⟨own, hown⟩ := segments_of_opening?_eq_none hopen
    rw [List.cons_append, List.cons_append, hown, hown]
    exact (ih h).append own
  | case3 after raw before name opening hopen hscan ih =>
    have hends := (scanLines_eq_none_iff (not_mem_of_opening? hopen)).mp hscan
    rw [List.cons_append, List.cons_append, segments_of_opening? hopen, segments_of_opening? hopen,
      collect_append (not_mem_of_opening? hopen) hends,
      collect_append (not_mem_of_opening? hopen) hends]
    exact (ih h).append [_]
  | case4 after raw before name opening hopen depth hscan hlist hitem =>
    -- the comment would be an item of its own
    exact (h .front (by simp)).elim
  | case5 after raw before name opening hopen depth hscan hlist itemBefore itemAfter hitem ih =>
    rw [List.forall_mem_cons] at h
    have hneutral := isNeutral_of_isComment hc (h.1.2.2 hlist)
    obtain ⟨items, others, hwithout, hwith⟩ :=
      itemLines_insert hitem hneutral (not_isBlank_of_isComment hc)
    refine sameBlocks_open hopen hscan h.1 fun trailing => environmentBlocks_list_congr hlist ?_
    rw [Environment.lines_append, Environment.lines_append, hwithout, hwith, List.map_append,
      List.map_append, List.map_cons, List.map_cons, parseBlocks, ih h.2 [], ← parseBlocks]
  | case6 after raw before opening depth hopen hscan =>
    rw [List.forall_mem_singleton] at h
    refine sameBlocks_open hopen hscan h fun trailing => environmentBlocks_tabular_congr ?_
    rw [List.flatMap_append, List.flatMap_append, List.flatMap_cons, tabularLine_of_isComment hc,
      List.nil_append]
  | case7 after raw before name opening hopen depth hscan hlist htab ih =>
    rw [List.forall_mem_cons] at h
    rw [Bool.not_eq_true] at hlist
    refine sameBlocks_open hopen hscan h.1 fun trailing =>
      environmentBlocks_lines_congr h.1.1 hlist htab ?_
    rw [Environment.lines_append, Environment.lines_append, parseBlocks, ih h.2 [], ← parseBlocks]

/-- **A comment line is not seen** in a source, wherever nothing around it takes notice of it. -/
theorem parse_insert_comment {source commented : List Char} {before after : List Line}
    (hsource : Text.lines source = before ++ after)
    (hcommented : Text.lines commented = before ++ comment :: after)
    (hc : isComment comment = true)
    (h : ∀ frame ∈ framesAt before after, frame.Ignores comment) :
    parse commented = parse source := by
  rw [parse, parse, hsource, hcommented, parseBlocks, sameBlocks_insert_comment hc h [],
    ← parseBlocks]

/-- A comment with a closed quote in it, in an environment in an item in a quote. -/
theorem parse_insert_comment_in_item :
    let before : List Line := ["\\begin\x7bquote\x7d".toList, "\\begin\x7bitemize\x7d".toList,
      "\\item a".toList, "\\begin\x7bcenter\x7d b".toList]
    let after : List Line := ["c".toList, "\\end\x7bcenter\x7d".toList,
      "\\end\x7bitemize\x7d".toList, "\\end\x7bquote\x7d".toList]
    let comment : Line := " % \\begin\x7bquote\x7d\\end\x7bquote\x7d \\item".toList
    framesAt before after = [.body "quote".toList, .body "itemize".toList,
        .body "center".toList] ∧
      parse (Text.unlines (before ++ comment :: after)) =
        parse (Text.unlines (before ++ after)) := by
  intro before after comment
  -- the frames from the outermost on
  have hquote : framesAt before after =
      .body "quote".toList :: framesAt (before.drop 1) (after.take 3) := by
    have hopen : opening? (significant before[0]) = some ("quote".toList, []) := by decide
    have hscan : scanLines "quote".toList 0 ([] :: before.drop 1) = some 0 := by decide
    exact framesAt_lines hopen hscan (by decide) (by decide)
  have hlist : framesAt (before.drop 1) (after.take 3) =
      .body "itemize".toList :: framesAt ("a".toList :: before.drop 3) (after.take 2) := by
    have hopen : opening? (significant before[1]) = some ("itemize".toList, []) := by decide
    have hscan : scanLines "itemize".toList 0 ([] :: before.drop 2) = some 0 := by decide
    exact framesAt_list hopen hscan (by decide) rfl
  have hcenter : framesAt (before.drop 3) (after.take 2) =
      .body "center".toList :: framesAt ["b".toList] (after.take 1) := by
    have hopen : opening? (significant before[3]) = some ("center".toList, " b".toList) := by decide
    have hscan : scanLines "center".toList 0 [" b".toList] = some 0 := by decide
    exact framesAt_lines hopen hscan (by decide) (by decide)
  have hframes : framesAt before after = [.body "quote".toList, .body "itemize".toList,
      .body "center".toList] := by
    rw [hquote, hlist, framesAt_line (by decide), hcenter, framesAt_line (by decide), framesAt_nil]
  have hignores : ∀ frame ∈ framesAt before after, frame.Ignores comment := by
    rw [hframes]
    decide
  have hlines : Text.lines (Text.unlines (before ++ after)) = before ++ after := by decide
  have hcommented : Text.lines (Text.unlines (before ++ comment :: after)) =
      before ++ comment :: after := by decide
  exact ⟨hframes, parse_insert_comment hlines hcommented (by decide) hignores⟩

/-- A source that begins with an environment. -/
theorem parse_of_collect {name source : List Char} {lines body rest : List Line}
    (hlines : Text.lines source = openingMarker name :: lines)
    (h : collect name [] lines = (⟨name, [], body, []⟩, rest)) (hname : IsEnvironmentName name)
    (htab : name ≠ "tabular".toList) :
    parse source =
      (Document.mk (environmentContent name body ++ parseBlocks rest)).normalize := by
  have hsegments := segments_opening hname isArgument_nil lines
  rw [List.append_nil, h] at hsegments
  rw [parse, hlines, parseBlocks, hsegments, assemble, environmentBlocks_eq_content htab,
    parseBlocks]
  rfl

/-- A line of text, and perhaps a comment behind it. -/
theorem parseBlocks_text {line : Line} (htrim : Text.trim line = line) (hne : line ≠ [])
    (hcomment : stripComment line = line) (hstarts : startsBlock line = false) {rest : List Line}
    (hrest : ∀ raw ∈ rest, isComment raw = true) :
    parseBlocks (line :: rest) = flush (tokenize line) := by
  have hsegments : segments rest = [] := by
    induction rest with
    | nil => rw [segments]
    | cons raw rest ih =>
      rw [List.forall_mem_cons] at hrest
      rw [segments, if_pos hrest.1, ih hrest.2]
  rw [parseBlocks, segments_trimmed htrim hne hcomment hstarts, hsegments, assemble, assemble]
  rfl

/-- **A comment is an item** where nothing else stands before the first item, **and a marker in a
comment closes the quote around it.** -/
theorem parse_comment_is_item_and_closes_quote :
    let itemize (body : List Line) : List Char := Text.unlines
      (openingMarker "itemize".toList :: (body ++ [closingMarker "itemize".toList]))
    let quote (body : List Line) : List Char := Text.unlines
      (openingMarker "quote".toList :: (body ++ [closingMarker "quote".toList]))
    parse (itemize ["\\item a".toList]) = ⟨[.list false [[.paragraph [.text "a"]]]]⟩ ∧
      parse (itemize ["% note".toList, "\\item a".toList]) =
        ⟨[.list false [[.paragraph []], [.paragraph [.text "a"]]]]⟩ ∧
      parse (quote ["a".toList]) = ⟨[.quote [.paragraph [.text "a"]]]⟩ ∧
      parse (quote ["a".toList, "% \\end\x7bquote\x7d".toList]) =
        ⟨[.quote [.paragraph [.text "a"]], .paragraph [.text "\\end\x7bquote\x7d"]]⟩ := by
  intro itemize quote
  have ha {rest : List Line} (hrest : ∀ raw ∈ rest, isComment raw = true) :
      parseBlocks ("a".toList :: rest) = flush (tokenize "a".toList) :=
    parseBlocks_text (by decide) (by decide) (by decide) (by decide) hrest
  have hnil : parseBlocks [] = [] := by
    rw [parseBlocks, segments, assemble]
    rfl
  refine ⟨?_, ?_, ?_, ?_⟩
  · have hcollect : collect "itemize".toList []
          ["\\item a".toList, closingMarker "itemize".toList] =
        (⟨"itemize".toList, [], ["\\item a".toList], []⟩, []) := rfl
    have hitems : environmentContent "itemize".toList ["\\item a".toList] =
        [.list false [parseBlocks ["a".toList]]] := rfl
    rw [parse_of_collect (by decide) hcollect (by decide) (by decide), hitems, ha (by simp), hnil]
    decide +kernel
  · have hcollect : collect "itemize".toList []
          ["% note".toList, "\\item a".toList, closingMarker "itemize".toList] =
        (⟨"itemize".toList, [], ["% note".toList, "\\item a".toList], []⟩, []) := rfl
    have hitems : environmentContent "itemize".toList ["% note".toList, "\\item a".toList] =
        [.list false [parseBlocks ["% note".toList], parseBlocks ["a".toList]]] := rfl
    have hcomment : parseBlocks ["% note".toList] = [] := by
      rw [parseBlocks, segments, if_pos (by decide), ← parseBlocks, hnil]
    rw [parse_of_collect (by decide) hcollect (by decide) (by decide), hitems, hcomment,
      ha (by simp), hnil]
    decide +kernel
  · have hcollect : collect "quote".toList [] ["a".toList, closingMarker "quote".toList] =
        (⟨"quote".toList, [], ["a".toList], []⟩, []) := rfl
    have hquote : environmentContent "quote".toList ["a".toList] =
        [.quote (parseBlocks ["a".toList])] := rfl
    rw [parse_of_collect (by decide) hcollect (by decide) (by decide), hquote, ha (by simp), hnil]
    decide +kernel
  · have hcollect : collect "quote".toList []
          ["a".toList, "% \\end\x7bquote\x7d".toList, closingMarker "quote".toList] =
        (⟨"quote".toList, [], ["a".toList, "% ".toList], []⟩, [closingMarker "quote".toList]) := rfl
    have hquote : environmentContent "quote".toList ["a".toList, "% ".toList] =
        [.quote (parseBlocks ["a".toList, "% ".toList])] := rfl
    have hclosing : parseBlocks [closingMarker "quote".toList] =
        flush (tokenize (closingMarker "quote".toList)) :=
      parseBlocks_text (by decide) (by decide) (by decide) (by decide) (by simp)
    rw [parse_of_collect (by decide) hcollect (by decide) (by decide), hquote, ha (by decide),
      hclosing]
    decide +kernel

end Interdoc.Latex
