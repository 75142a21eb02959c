import Interdoc.Proofs.Latex.Reading
import Mathlib.Data.List.Infix

/-!
# Matching markers

The marker that closes an environment is the first one that has no opening marker of the same name
before it.  `markers` are the markers of a name in lines, from left to right, wherever they stand in
a line; as brackets they say where the environment ends (`scanLines_eq`).  A verbatim environment
ends at the first closing marker (`scanLines_of_isVerbatim`).

So an environment whose body is `Enclosed` in its markers, since the markers of its name in the body
are balanced, is read as its body, and what is behind the closing marker is read on its own.
-/

namespace Interdoc.Latex

variable {name : List Char}

/-! ### Markers -/

/-- A marker of the environments of one name. -/
inductive Marker where
  | opening
  | closing
  deriving DecidableEq, Repr

/-- The markers of a name in a line, from left to right. -/
def markersIn (name : List Char) : Line → List Marker
  | [] => []
  | c :: s =>
    if openingMarker name <+: c :: s then .opening :: markersIn name s
    else if closingMarker name <+: c :: s then .closing :: markersIn name s
    else markersIn name s

/-- The markers of a name in lines. -/
def markers (name : List Char) (lines : List Line) : List Marker :=
  lines.flatMap (markersIn name)

/-- As many environments are closed as are opened, and none before it is opened. -/
structure Balanced (ms : List Marker) : Prop where
  total : ms.count .closing = ms.count .opening
  ordered : ∀ p, p <+: ms → p.count .closing ≤ p.count .opening

instance (ms : List Marker) : Decidable (Balanced ms) :=
  decidable_of_iff (ms.count .closing = ms.count .opening ∧
      ∀ p ∈ ms.inits, p.count .closing ≤ p.count .opening)
    ⟨fun h => ⟨h.1, fun p hp => h.2 p ((List.mem_inits p ms).mpr hp)⟩,
      fun h => ⟨h.1, fun p hp => h.2 p ((List.mem_inits p ms).mp hp)⟩⟩

/-- The lines between two markers do not end the environment of that name. -/
def Enclosed (name : List Char) (lines : List Line) : Prop :=
  if isVerbatim name then ∀ line ∈ lines, ¬ closingMarker name <:+: line
  else Balanced (markers name lines)

instance (name : List Char) (lines : List Line) : Decidable (Enclosed name lines) :=
  inferInstanceAs (Decidable (if isVerbatim name then _ else _))

/-- The environment of a name ends in lines. -/
def EndsIn (name : List Char) (lines : List Line) : Prop :=
  if isVerbatim name then ∃ line ∈ lines, closingMarker name <:+: line
  else ∃ p, p <+: markers name lines ∧ p.count .opening < p.count .closing

/-! ### Depths -/

/-- The number of open environments after markers, unless the environment around them is closed. -/
def depthAfter? : (depth : Nat) → List Marker → Option Nat
  | depth, [] => some depth
  | depth, .opening :: ms => depthAfter? (depth + 1) ms
  | 0, .closing :: _ => none
  | depth + 1, .closing :: ms => depthAfter? depth ms

theorem depthAfter?_append (depth : Nat) (ms ns : List Marker) :
    depthAfter? depth (ms ++ ns) = (depthAfter? depth ms).bind (depthAfter? · ns) := by
  fun_induction depthAfter? depth ms with
  | case1 depth => rfl
  | case2 depth ms ih => exact ih
  | case3 ms => rfl
  | case4 depth ms ih => exact ih

theorem forall_prefix_cons {m : Marker} {ms : List Marker} {P : List Marker → Prop} :
    (∀ p, p <+: m :: ms → P p) ↔ P [] ∧ ∀ p, p <+: ms → P (m :: p) := by
  constructor
  · exact fun h => ⟨h [] List.nil_prefix, fun p hp => h _ (List.cons_prefix_cons.mpr ⟨rfl, hp⟩)⟩
  · rintro ⟨hnil, hcons⟩ p hp
    rcases List.prefix_cons_iff.mp hp with rfl | ⟨q, rfl, hq⟩
    · exact hnil
    · exact hcons q hq

/-- **Markers leave a depth** if they close nothing that is not open. -/
theorem depthAfter?_eq_some_iff {depth after : Nat} {ms : List Marker} :
    depthAfter? depth ms = some after ↔
      (∀ p, p <+: ms → p.count .closing ≤ depth + p.count .opening) ∧
        after + ms.count .closing = depth + ms.count .opening := by
  fun_induction depthAfter? depth ms with
  | case1 depth => simp [eq_comm]
  | case2 depth ms ih =>
    rw [ih, forall_prefix_cons]
    simp [Nat.add_right_comm _ 1, Nat.add_assoc]
  | case3 ms =>
    rw [forall_prefix_cons]
    -- the first marker closes the environment around them
    refine iff_of_false (by simp) fun h => ?_
    exact absurd (h.1.2 [] List.nil_prefix) (by simp)
  | case4 depth ms ih =>
    have ho (p : List Marker) : (Marker.closing :: p).count .opening = p.count .opening :=
      List.count_cons_of_ne (by decide)
    have hc (p : List Marker) : (Marker.closing :: p).count .closing = p.count .closing + 1 :=
      List.count_cons_self
    rw [ih, forall_prefix_cons, ho, hc]
    refine and_congr ⟨fun h => ⟨Nat.zero_le _, fun p hp => ?_⟩, fun h p hp => ?_⟩ (by omega)
    · have hle := h p hp
      rw [ho, hc]
      omega
    · have hle := h.2 p hp
      rw [ho, hc] at hle
      omega

theorem Balanced.depthAfter?_eq {ms : List Marker} (h : Balanced ms) (depth : Nat) :
    depthAfter? depth ms = some depth := by
  rw [depthAfter?_eq_some_iff, h.total]
  exact ⟨fun p hp => (h.ordered p hp).trans (Nat.le_add_left _ _), rfl⟩

theorem depthAfter?_eq_none_iff {depth : Nat} {ms : List Marker} :
    depthAfter? depth ms = none ↔
      ∃ p, p <+: ms ∧ depth + p.count .opening < p.count .closing := by
  constructor
  · intro h
    by_contra hall
    push Not at hall
    have hle := hall ms List.prefix_rfl
    have hsome : depthAfter? depth ms = some (depth + ms.count .opening - ms.count .closing) :=
      depthAfter?_eq_some_iff.mpr ⟨hall, by omega⟩
    exact absurd (h.symm.trans hsome) (by simp)
  · rintro ⟨p, hp, hlt⟩
    cases h : depthAfter? depth ms with
    | none => rfl
    | some after => exact absurd ((depthAfter?_eq_some_iff.mp h).1 p hp) (not_le.mpr hlt)

/-! ### Markers in a line -/

theorem markersIn_cons {c : Char} {s : List Char} (ho : ¬ openingMarker name <+: c :: s)
    (hc : ¬ closingMarker name <+: c :: s) : markersIn name (c :: s) = markersIn name s := by
  rw [markersIn, if_neg ho, if_neg hc]

/-- Two texts up to the same brace are the same. -/
theorem eq_of_isPrefix_brace {v w s : List Char} (hv : '\x7d' ∉ v) (hw : '\x7d' ∉ w)
    (h : v ++ ['\x7d'] <+: w ++ '\x7d' :: s) : v = w := by
  obtain ⟨t, ht⟩ := h
  rw [List.append_assoc, List.singleton_append] at ht
  rw [← takeWhile_name hv t, ht, takeWhile_name hw]

/-- No marker begins in a text up to a brace, unless that text is a marker from some place on. -/
theorem markersIn_word (h : '\x7d' ∉ name) {w : List Char} (hw : '\x7d' ∉ w)
    (hne : ∀ v, v <:+ w → v ≠ "\\begin\x7b".toList ++ name ∧ v ≠ "\\end\x7b".toList ++ name)
    (s : List Char) : markersIn name (w ++ '\x7d' :: s) = markersIn name s := by
  have hbrace {command : List Char} (hcommand : '\x7d' ∉ command) : '\x7d' ∉ command ++ name := by
    rw [List.mem_append, not_or]
    exact ⟨hcommand, h⟩
  have hb : '\x7d' ∉ "\\begin\x7b".toList := by decide
  have he : '\x7d' ∉ "\\end\x7b".toList := by decide
  induction w with
  | nil =>
    refine markersIn_cons (fun ho => ?_) (fun hc => ?_)
    · exact List.cons_ne_nil _ _ (eq_of_isPrefix_brace (hbrace hb) hw ho)
    · exact List.cons_ne_nil _ _ (eq_of_isPrefix_brace (hbrace he) hw hc)
  | cons c w ih =>
    have hself := hne (c :: w) List.suffix_rfl
    rw [List.cons_append, markersIn_cons]
    · refine ih (fun hmem => hw (List.mem_cons_of_mem c hmem)) fun v hv => ?_
      exact hne v (hv.trans (List.suffix_cons c w))
    · exact fun ho => hself.1 (eq_of_isPrefix_brace (hbrace hb) hw ho).symm
    · exact fun hc => hself.2 (eq_of_isPrefix_brace (hbrace he) hw hc).symm

/-- No marker begins inside the text that is left of a marker. -/
theorem markersIn_marker (h : '\x7d' ∉ name) {command : List Char}
    (hcommand : '\x7d' ∉ command ∧ ¬ "\\begin\x7b".toList <:+ command ∧
      ¬ "\\end\x7b".toList <:+ command) (s : List Char) :
    markersIn name (command ++ (name ++ '\x7d' :: s)) = markersIn name s := by
  have hsuffix {u v : List Char} (hv : v <:+ command ++ name) (he : v = u ++ name) :
      u <:+ command := by
    obtain ⟨t, ht⟩ := hv
    rw [he, ← List.append_assoc, List.append_left_inj] at ht
    exact ⟨t, ht⟩
  rw [← List.append_assoc]
  refine markersIn_word h ?_ (fun v hv => ?_) s
  · rw [List.mem_append, not_or]
    exact ⟨hcommand.1, h⟩
  · exact ⟨fun he => hcommand.2.1 (hsuffix hv he), fun he => hcommand.2.2 (hsuffix hv he)⟩

theorem markersIn_openingMarker (h : '\x7d' ∉ name) (s : List Char) :
    markersIn name (openingMarker name ++ s) = .opening :: markersIn name s := by
  have hcons : openingMarker name ++ s = '\\' :: ("begin\x7b".toList ++ (name ++ '\x7d' :: s)) :=
    openingMarker_append name s
  rw [hcons, markersIn, ← hcons, if_pos (List.prefix_append _ s), markersIn_marker h (by decide)]

theorem markersIn_closingMarker (h : '\x7d' ∉ name) (s : List Char) :
    markersIn name (closingMarker name ++ s) = .closing :: markersIn name s := by
  have hcons : closingMarker name ++ s = '\\' :: ("end\x7b".toList ++ (name ++ '\x7d' :: s)) :=
    closingMarker_append name s
  rw [hcons, markersIn, ← hcons, if_neg (not_openingMarker_isPrefix name name s),
    if_pos (List.prefix_append _ s), markersIn_marker h (by decide)]

/-! ### The scan -/

/-- The depth after a scan, unless the environment is closed. -/
def CloseScan.depth? : CloseScan → Option Nat
  | .stillOpen depth => some depth
  | .closed _ _ => none

theorem CloseScan.depth?_foldr (s : List Char) (scan : CloseScan) :
    (s.foldr CloseScan.cons scan).depth? = scan.depth? := by
  induction s with
  | nil => rfl
  | cons c s ih =>
    rw [List.foldr_cons, ← ih]
    cases s.foldr CloseScan.cons scan <;> rfl

theorem length_lt_append {m : List Char} (h : m ≠ []) (s : List Char) :
    s.length < (m ++ s).length := by
  rw [List.length_append]
  exact Nat.lt_add_of_pos_left (List.length_pos_of_ne_nil h)

/-- **The scan of a line** counts its markers. -/
theorem depth?_scanClose (hv : isVerbatim name = false) (h : '\x7d' ∉ name) (depth : Nat)
    (line : Line) :
    (scanClose name depth 0 line).depth? = depthAfter? depth (markersIn name line) := by
  -- a marker is passed over as a whole, so the induction is on the length of the line
  induction hn : line.length using Nat.strong_induction_on generalizing depth line with
  | _ n ih =>
    subst hn
    by_cases ho : openingMarker name <+: line
    · obtain ⟨s, rfl⟩ := ho
      rw [scanClose_openingMarker hv, CloseScan.depth?_foldr, markersIn_openingMarker h,
        depthAfter?]
      exact ih _ (length_lt_append (List.cons_ne_nil _ _) s) _ _ rfl
    by_cases hc : closingMarker name <+: line
    · obtain ⟨s, rfl⟩ := hc
      rw [scanClose_closingMarker, markersIn_closingMarker h]
      cases depth with
      | zero => rfl
      | succ depth =>
        rw [CloseScan.depth?_foldr, depthAfter?]
        exact ih _ (length_lt_append (List.cons_ne_nil _ _) s) _ _ rfl
    cases line with
    | nil => rw [scanClose, markersIn, depthAfter?, CloseScan.depth?]
    | cons c s =>
      rw [scanClose_cons ho hc, markersIn_cons ho hc]
      exact (CloseScan.depth?_foldr [c] _).trans (ih _ (Nat.lt_succ_self _) _ _ rfl)

/-- The depth after lines, unless the environment is closed in them. -/
def scanLines (name : List Char) : (depth : Nat) → List Line → Option Nat
  | depth, [] => some depth
  | depth, line :: lines => (scanClose name depth 0 line).depth?.bind (scanLines name · lines)

/-- **The scan of lines** counts their markers. -/
theorem scanLines_eq (hv : isVerbatim name = false) (h : '\x7d' ∉ name) (depth : Nat)
    (lines : List Line) :
    scanLines name depth lines = depthAfter? depth (markers name lines) := by
  induction lines generalizing depth with
  | nil => rfl
  | cons line lines ih =>
    rw [scanLines, depth?_scanClose hv h, markers, List.flatMap_cons, depthAfter?_append]
    congr 1
    funext depth
    exact ih depth

/-- A verbatim environment ends on the first line with its closing marker. -/
theorem depth?_scanClose_of_isVerbatim (hv : isVerbatim name = true) (line : Line) :
    (scanClose name 0 0 line).depth? = if closingMarker name <:+: line then none else some 0 := by
  induction line with
  | nil => rfl
  | cons c line ih =>
    by_cases hc : closingMarker name <+: c :: line
    · obtain ⟨s, hs⟩ := hc
      rw [← hs, scanClose_closingMarker, if_pos (List.prefix_append _ s).isInfix]
      rfl
    · have hrest : closingMarker name <:+: c :: line ↔ closingMarker name <:+: line := by
        rw [List.infix_cons_iff, or_iff_right hc]
      rw [scanClose_cons_of_isVerbatim hv hc, if_congr hrest rfl rfl, ← ih]
      exact CloseScan.depth?_foldr [c] _

/-- **The scan of lines** in a verbatim environment. -/
theorem scanLines_of_isVerbatim (hv : isVerbatim name = true) (lines : List Line) :
    scanLines name 0 lines =
      if ∃ line ∈ lines, closingMarker name <:+: line then none else some 0 := by
  induction lines with
  | nil => simp [scanLines]
  | cons line lines ih =>
    rw [scanLines, depth?_scanClose_of_isVerbatim hv]
    by_cases h : closingMarker name <:+: line <;> simp [h, ih]

theorem scanLines_eq_some_iff (h : '\x7d' ∉ name) {lines : List Line} :
    scanLines name 0 lines = some 0 ↔ Enclosed name lines := by
  cases hv : isVerbatim name with
  | true => simp [scanLines_of_isVerbatim, Enclosed, hv]
  | false =>
    rw [scanLines_eq hv h, Enclosed, hv, if_neg (by decide)]
    refine ⟨fun hsome => ?_, fun hb => hb.depthAfter?_eq 0⟩
    obtain ⟨hordered, htotal⟩ := depthAfter?_eq_some_iff.mp hsome
    exact ⟨by omega, by simpa using hordered⟩

theorem scanLines_eq_none_iff (h : '\x7d' ∉ name) {lines : List Line} :
    scanLines name 0 lines = none ↔ EndsIn name lines := by
  cases hv : isVerbatim name with
  | true => simp [scanLines_of_isVerbatim, EndsIn, hv]
  | false =>
    rw [scanLines_eq hv h, EndsIn, hv, if_neg (by decide), depthAfter?_eq_none_iff]
    simp

/-! ### Collecting -/

/-- **The body of an environment goes on** through lines that do not close it. -/
theorem collectBody_of_scanLines {depth after : Nat} {body : List Line}
    (h : scanLines name depth body = some after) (tail : List Line) :
    collectBody name depth (body ++ tail) = (collectBody name after tail).prepend body := by
  induction body generalizing depth with
  | nil =>
    rw [scanLines, Option.some_inj] at h
    rw [h]
    rfl
  | cons line body ih =>
    rw [scanLines, Option.bind_eq_some_iff] at h
    obtain ⟨during, hline, hbody⟩ := h
    have hopen : scanClose name depth 0 line = .stillOpen during := by
      cases hs : scanClose name depth 0 line <;> rw [hs] at hline <;> cases hline
      rfl
    rw [List.cons_append, collectBody_cons hopen, ih hbody, Collected.prepend_prepend]
    rfl

/-- **The closing marker of an environment** is the one behind its body, or there is none. -/
theorem collect_enclosed (hn : '\x7d' ∉ name) {body : List Line} (h : Enclosed name body) :
    (∀ rest, collect name [] (body ++ closingMarker name :: rest) = (⟨name, [], body, []⟩, rest)) ∧
      collect name [] body = (⟨name, [], body, []⟩, []) := by
  have hscan := (scanLines_eq_some_iff hn).mpr h
  constructor
  · exact collect_of_append rfl (collectBody_of_scanLines hscan)
  · have hbody := collectBody_of_scanLines hscan []
    rw [List.append_nil] at hbody
    rw [collect, scanClose]
    dsimp only
    rw [hbody]
    simp [collectBody, Collected.prepend]

/-! ### Reading -/

theorem itemBlocks_eq_map (items : List (List Line)) :
    itemBlocks items = items.map parseBlocks := by
  induction items with
  | nil => rw [itemBlocks, List.map_nil]
  | cons lines items ih => rw [itemBlocks, ih, List.map_cons]

/-- What the body of an environment is read as when nothing stands beside its markers. -/
def environmentContent (name : List Char) (body : List Line) : List Block :=
  if isQuote name then [.quote (parseBlocks body)]
  else if isItemize name then [.list false ((itemLines body).map parseBlocks)]
  else if isEnumerate name then [.list true ((itemLines body).map parseBlocks)]
  else if isVerbatim name then [.code (String.ofList (Text.unlines body)) none]
  else parseBlocks body

theorem environmentBlocks_eq_content (htab : name ≠ "tabular".toList) (body : List Line) :
    environmentBlocks ⟨name, [], body, []⟩ = environmentContent name body := by
  have hcode : Environment.code ⟨name, [], body, []⟩ =
      .code (String.ofList (Text.unlines body)) none := by
    rw [Environment.code, Environment.codeLines, Environment.language?, listingArguments]
    split
    · rfl
    · split <;> rfl
  rw [environmentBlocks, environmentContent, if_neg htab, hcode, itemBlocks_eq_map]
  rfl

/-- **An environment ends** at the closing marker that its body leaves, and only its body is read
as its content.  Where nothing follows, the marker can be left out. -/
theorem parseBlocks_environment (hname : IsEnvironmentName name)
    (htab : name ≠ "tabular".toList) {body : List Line} (h : Enclosed name body) :
    (∀ rest, parseBlocks (openingMarker name :: (body ++ closingMarker name :: rest)) =
        environmentContent name body ++ parseBlocks rest) ∧
      parseBlocks (openingMarker name :: body) = environmentContent name body := by
  obtain ⟨hclosed, hunclosed⟩ := collect_enclosed hname.not_mem h
  have hread {lines rest : List Line} (hc : collect name [] lines = (⟨name, [], body, []⟩, rest)) :
      parseBlocks (openingMarker name :: lines) =
        environmentContent name body ++ parseBlocks rest := by
    have hs := segments_opening hname isArgument_nil lines
    rw [List.append_nil, hc] at hs
    rw [parseBlocks, hs, assemble, environmentBlocks_eq_content htab, parseBlocks]
    rfl
  refine ⟨fun rest => hread (hclosed rest), ?_⟩
  rw [hread hunclosed, parseBlocks, segments, assemble]
  exact List.append_nil _

/-- Quotes inside a quote that begin and end within lines, the same lines in an environment that
has no meaning of its own, and markers in verbatim code. -/
theorem parseBlocks_environment_quote_and_verbatim :
    let quoted : List Line :=
      ["a\\begin\x7bquote\x7db\\end\x7bquote\x7d\\begin\x7bquote\x7d".toList,
        "c\\end\x7bquote\x7d d".toList]
    let code : List Line := ["\\begin\x7bverbatim\x7d".toList, "\\end\x7bquote\x7d".toList]
    parseBlocks (openingMarker "quote".toList ::
        (quoted ++ closingMarker "quote".toList :: ["e".toList])) =
        .quote (parseBlocks quoted) :: parseBlocks ["e".toList] ∧
      parseBlocks (openingMarker "center*".toList :: quoted) = parseBlocks quoted ∧
      parseBlocks (openingMarker "verbatim".toList :: code) =
        [.code "\\begin\x7bverbatim\x7d\n\\end\x7bquote\x7d" none] :=
  ⟨(parseBlocks_environment (by decide) (by decide) (by decide)).1 _,
    (parseBlocks_environment (by decide) (by decide) (by decide)).2,
    (parseBlocks_environment (by decide) (by decide) (by decide)).2⟩

end Interdoc.Latex
