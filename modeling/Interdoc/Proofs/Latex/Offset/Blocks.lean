import Interdoc.Latex.Block
import Interdoc.Proofs.Latex.Offset.Inline
import Interdoc.Proofs.Latex.OpeningMarkers

/-!
# Blocks by offsets

The whole reader as it runs over octets: lines by their index, markers, groups and inline text by
offsets.  It fails wherever a text would be cut inside a character, beyond its end or backwards,
lines beyond their number, or a depth be lowered at zero, and wherever it would not get on: a loop
that stays where it is, or a call for lines within lines that have no fewer opening markers.  There
are no more calls inside each other than it is given levels (`parseBlocksWithin?`).

It never fails: `parse?` reads every source as the document that `Latex.parse` gives
(`parse?_eq`).

The scan for the rows and rules of a tabular remembers where the row has begun, and the row is cut
out when a marker or a rule ends it.  It finds in every body the pieces that `Latex.tablePieces`
does (`tablePieces?_eq`), and so every tabular is read as the same table (`table?_eq`).
-/

namespace Interdoc.Latex.Offset

open Utf8

variable {s u v w row : List Char}

/-- A function that always succeeds does so on all elements of a list. -/
theorem mapM_eq_some_map {α β : Type} {f : α → Option β} {g : α → β} {l : List α}
    (h : ∀ a ∈ l, f a = some (g a)) : l.mapM f = some (l.map g) := by
  induction l with
  | nil => rfl
  | cons a l ih =>
    rw [List.forall_mem_cons] at h
    rw [List.mapM_cons, h.1, ih h.2]
    rfl

/-! ### Rows and rules -/

/-- The offset behind a braced group, if there is one at an offset. -/
def skipBraced? (s : List Char) (start : Nat) : Option Nat := do
  match ← braced? s start with
  | some (_, next) => some next
  | none => some start

/-- The pieces of a tabular body from an offset on, where a row has begun at `start`. -/
def piecesFrom? (body : List Char) (start offset : Nat) : Option (List TablePiece) :=
  if offset < size body then
    match octet? body offset with
    | none => none
    | some b =>
      if b ≠ ascii '\\' then piecesFrom? body start (offset + 1)
      else if octet? body (offset + 1) = some (ascii '\\') then do
        let row ← slice? body start offset
        let next ← skipBracketed? body (offset + 2)
        let pieces ← if offset < next then piecesFrom? body next next else none
        some (.row row :: pieces)
      else do
        let rest ← slice? body (offset + 1) (size body)
        let name ← slice? body (offset + 1) (offset + 1 + nameLength rest)
        if ruleNames.contains name then do
          let row ← slice? body start offset
          let next ← skipBraced? body (offset + 1 + nameLength rest)
          let pieces ← if offset < next then piecesFrom? body next next else none
          some (pendingRow row ++ .rule :: pieces)
        else piecesFrom? body start (offset + 2)
  else do
    let row ← slice? body (min start (size body)) (size body)
    some (pendingRow row)
termination_by size body - offset

/-- The pieces of a tabular body. -/
def tablePieces? (body : List Char) : Option (List TablePiece) :=
  piecesFrom? body 0 0

theorem piecesFrom?_end {start offset : Nat} (h : octet? s offset = none) :
    piecesFrom? s start offset = (do
      let row ← slice? s (min start (size s)) (size s)
      some (pendingRow row)) := by
  rw [piecesFrom?, if_neg (not_lt.mpr (octet?_eq_none_iff.mp h))]

theorem piecesFrom?_of_ne {start offset : Nat} {b : UInt8} (h : octet? s offset = some b)
    (hb : b ≠ ascii '\\') : piecesFrom? s start offset = piecesFrom? s start (offset + 1) := by
  rw [piecesFrom?, if_pos (lt_size_of_octet? h), h]
  exact if_pos hb

theorem piecesFrom?_escape {start offset : Nat} (h : octet? s offset = some (ascii '\\')) :
    piecesFrom? s start offset =
      (if octet? s (offset + 1) = some (ascii '\\') then do
        let row ← slice? s start offset
        let next ← skipBracketed? s (offset + 2)
        let pieces ← if offset < next then piecesFrom? s next next else none
        some (.row row :: pieces)
      else do
        let rest ← slice? s (offset + 1) (size s)
        let name ← slice? s (offset + 1) (offset + 1 + nameLength rest)
        if ruleNames.contains name then do
          let row ← slice? s start offset
          let next ← skipBraced? s (offset + 1 + nameLength rest)
          let pieces ← if offset < next then piecesFrom? s next next else none
          some (pendingRow row ++ .rule :: pieces)
        else piecesFrom? s start (offset + 2)) := by
  rw [piecesFrom?, if_pos (lt_size_of_octet? h), h]
  rfl

theorem stepsOver_piecesFrom? (s : List Char) (start : Nat) :
    StepsOver ['\\'] s (piecesFrom? s start) where
  ascii := by decide
  step offset b hb hne := piecesFrom?_of_ne hb (hne '\\' (by decide))

/-- The name behind a backslash is cut out between characters. -/
theorem slice?_name (hs : s = u ++ v) :
    slice? s (size u) (size u + nameLength v) = some (v.takeWhile Char.isAlpha) := by
  have hslice := slice?_mid (eq_append_takeWhile Char.isAlpha hs)
  rwa [size_append, ← nameLength_eq] at hslice

/-- The offset behind the name of a rule and its argument. -/
theorem skipBraced?_append (hs : s = u ++ v) {rest : List Char} (h : rule? v = some rest) :
    ruleNames.contains (v.takeWhile Char.isAlpha) = true ∧ rest <:+ v ∧
      skipBraced? s (size u + nameLength v) = some (size s - size rest) := by
  have hname := eq_append_takeWhile Char.isAlpha hs
  have hsuffix : v.dropWhile Char.isAlpha <:+ v := List.dropWhile_suffix _
  unfold rule? at h
  rw [nameLength_eq, ← size_append, skipBraced?, braced?_append hname]
  split at h
  · next hcontains =>
    refine ⟨hcontains, ?_⟩
    cases hb : Latex.braced? (v.dropWhile Char.isAlpha) with
    | none =>
      simp only [hb, Option.some.injEq] at h
      subst h
      refine ⟨hsuffix, ?_⟩
      conv_rhs => rw [hname, size_append, Nat.add_sub_cancel]
      rfl
    | some r =>
      simp only [hb, Option.some.injEq] at h
      subst h
      exact ⟨(braced?_isSuffix hb).trans hsuffix, rfl⟩
  · cases h

/-- A backslash with no second one behind it may begin a rule, and otherwise hides the character
behind it. -/
theorem piecesFrom?_command (hs : s = w ++ row ++ '\\' :: v) (hv : ∀ t, v ≠ '\\' :: t) :
    piecesFrom? s (size w) (size (w ++ row)) =
      (if ruleNames.contains (v.takeWhile Char.isAlpha) then do
        let next ← skipBraced? s (size (w ++ row ++ ['\\']) + nameLength v)
        let pieces ← if size (w ++ row) < next then piecesFrom? s next next else none
        some (pendingRow row ++ .rule :: pieces)
      else piecesFrom? s (size w) (size (w ++ row) + 2)) := by
  have hsize := size_concat (a := '\\') (by decide) (w ++ row)
  have hbehind : s = w ++ row ++ ['\\'] ++ v := by simp [hs]
  -- the octet behind the backslash is not that of a second one
  have hsecond : ¬ octet? s (size (w ++ row ++ ['\\'])) = some (ascii '\\') := by
    cases v with
    | nil =>
      rw [List.append_nil] at hbehind
      rw [← hbehind, octet?_end]
      exact nofun
    | cons c v =>
      exact octet?_ne_ascii (by decide) (fun hc => hv v (by rw [hc])) hbehind
  rw [piecesFrom?_escape (octet?_of_eq (by decide) hs), ← hsize, if_neg hsecond,
    slice?_of_eq hbehind, Option.bind_eq_bind, Option.bind_some, slice?_name hbehind,
    Option.bind_some, slice?_mid hs]
  rfl

/-- **The scan of a tabular body** from an offset on, where a row has come from `start` to there. -/
theorem piecesFrom?_eq (hs : s = w ++ row ++ v) :
    piecesFrom? s (size w) (size (w ++ row)) = some (tablePieces row v) := by
  fun_induction tablePieces row v generalizing w with
  | case1 row =>
    have hmin : min (size w) (size s) = size w := min_eq_left (by simp [hs])
    rw [List.append_nil] at hs
    rw [piecesFrom?_end (hs ▸ octet?_end _), hmin, hs, slice?_right]
    rfl
  | case2 row =>
    have hmin : min (size w) (size s) = size w := min_eq_left (by simp [hs])
    rw [piecesFrom?_command hs (fun _ => nofun), if_neg (by decide),
      piecesFrom?_end (octet?_escape_end (by decide) hs), hmin, hs, List.append_assoc, slice?_right]
    rfl
  | case3 row t ih =>
    have hfirst : s = w ++ row ++ ['\\'] ++ '\\' :: t := by simp [hs]
    have hmarker : s = w ++ row ++ ['\\'] ++ ['\\'] ++ t := by simp [hs]
    have hsize : size (w ++ row) + 2 = size (w ++ row ++ ['\\'] ++ ['\\']) := by
      rw [size_concat (by decide), size_concat (by decide)]
    obtain ⟨front, hfront, hnext⟩ := exists_front hmarker (skipBracketed_isSuffix t)
    -- the scan has gone on, so it is not stopped
    have hlt : size (w ++ row) < size front := by
      have hle := size_le_of_isSuffix hmarker (skipBracketed_isSuffix t) hfront
      omega
    have hrest := ih (w := front) (by rw [List.append_nil, hfront])
    rw [List.append_nil] at hrest
    rw [piecesFrom?_escape (octet?_of_eq (by decide) hs), ← size_concat (a := '\\') (by decide),
      if_pos (octet?_of_eq (by decide) hfirst), slice?_mid hs, hsize, skipBracketed?_append hmarker,
      hnext]
    simp only [Option.bind_eq_bind, Option.bind_some, if_pos hlt, hrest]
  | case4 row d t hd rest hrule ih =>
    have hbehind : s = w ++ row ++ ['\\'] ++ d :: t := by simp [hs]
    obtain ⟨hcontains, hsuffix, hskip⟩ := skipBraced?_append hbehind hrule
    obtain ⟨front, hfront, hnext⟩ := exists_front hbehind hsuffix
    have hlt : size (w ++ row) < size front := by
      have hle := size_le_of_isSuffix hbehind hsuffix hfront
      rw [size_concat (by decide)] at hle
      omega
    have hrest := ih (w := front) (by rw [List.append_nil, hfront])
    rw [List.append_nil] at hrest
    rw [piecesFrom?_command hs (fun t ht => hd (List.cons.inj ht).1), if_pos hcontains, hskip,
      hnext]
    simp only [Option.bind_eq_bind, Option.bind_some, if_pos hlt, hrest]
  | case5 row d t hd hrule ih =>
    have hcontains : ¬ ruleNames.contains ((d :: t).takeWhile Char.isAlpha) = true := by
      intro h
      unfold rule? at hrule
      rw [if_pos h] at hrule
      cases hb : Latex.braced? ((d :: t).dropWhile Char.isAlpha) <;> simp [hb] at hrule
    rw [piecesFrom?_command hs (fun t ht => hd (List.cons.inj ht).1), if_neg hcontains,
      (stepsOver_piecesFrom? s (size w)).escaped (by decide) hs, List.append_assoc,
      ih (by simp [hs])]
  | case6 row c v hc ih =>
    rw [(stepsOver_piecesFrom? s (size w)).char hs (by simpa using hc), List.append_assoc,
      ih (by simp [hs])]

/-- **A tabular body** is cut between characters wherever it is cut. -/
theorem tablePieces?_eq (body : List Char) : tablePieces? body = some (tablePieces [] body) :=
  have hbody : body = [] ++ [] ++ body := rfl
  piecesFrom?_eq hbody

/-! ### Tables -/

/-- The cells of a row. -/
def row? (text : List Char) : Option (List (List Block)) := do
  let cells ← splitTop? '&' text
  cells.mapM fun cell => do
    let inlines ← tokenize? (Text.trim cell)
    some [.paragraph inlines]

/-- The table with the given column specification and body. -/
def ofBody? (spec body : List Char) : Option Block := do
  let pieces ← tablePieces? body
  let rows ← (rowTexts pieces).mapM row?
  let alignments := columns spec
  some (.table (if hasHeader pieces then rows.head? else none)
    (if hasHeader pieces then rows.tail else rows)
    (if alignments.isEmpty then none else some alignments))

/-- A line of a tabular body as part of the whole. -/
def tabularLine? (line : Line) : Option (List Char) :=
  if isComment line then some []
  else do
    let kept ← stripComment? (Text.trim line)
    some (' ' :: kept)

/-- The table that an environment holds. -/
def table? (e : Environment) : Option Block := do
  let rest := Text.trimLeft e.opening
  let start ← skipBracketed? rest 0
  let (spec, next) := match ← braced? rest start with
    | some (spec, next) => (spec, next)
    | none => ([], start)
  let first ← slice? rest next (size rest)
  let lines ← e.body.mapM tabularLine?
  ofBody? spec (first ++ lines.flatten)

theorem row?_eq (text : List Char) : row? text = some ((cellTexts text).map cellBlocks) := by
  rw [row?, splitTop?_eq, Option.bind_eq_bind, Option.bind_some,
    mapM_eq_some_map (g := cellBlocks ∘ Text.trim), cellTexts, List.map_map]
  intro cell _
  rw [tokenize?_eq]
  rfl

theorem ofBody?_eq (spec body : List Char) :
    ofBody? spec body = some (Tabular.ofBody spec body).block := by
  rw [ofBody?, Tabular.block, Tabular.ofBody]
  simp only [tablePieces?_eq, mapM_eq_some_map fun text _ => row?_eq text, Option.bind_eq_bind,
    Option.bind_some]
  cases hasHeader (tablePieces [] body) <;> simp [Function.comp_def]

theorem tabularLine?_eq (line : Line) : tabularLine? line = some (tabularLine line) := by
  rw [tabularLine?, tabularLine]
  split
  · rfl
  · rw [stripComment?_eq]
    rfl

/-- **A tabular** is cut between characters wherever it is cut. -/
theorem table?_eq (e : Environment) : table? e = some e.tabular.block := by
  rw [table?, Environment.tabular, List.flatMap]
  generalize Text.trimLeft e.opening = rest
  obtain ⟨front, hfront, hstart⟩ := exists_skipBracketed? rest
  simp only [hstart, Option.bind_eq_bind, Option.bind_some, braced?_append hfront,
    mapM_eq_some_map fun line _ => tabularLine?_eq line, ofBody?_eq]
  cases h : Latex.braced? (skipBracketed rest) with
  | none => simp only [Option.map_none, slice?_of_eq hfront, Option.bind_some]
  | some r =>
    obtain ⟨spec, behind⟩ := r
    obtain ⟨back, hback, hsize⟩ := exists_front hfront (braced?_isSuffix h)
    simp only [Option.map_some, placed, hsize, slice?_of_eq hback, Option.bind_some]

/-! ### Lines -/

/-- The name of the environment that a line opens, and what follows the marker. -/
def opening? (line : List Char) : Option (Option (List Char × List Char)) :=
  match Latex.opening? line with
  | none => some none
  | some (name, _) => do
    let after ← slice? line (size (openingMarker name)) (size line)
    some (some (name, after))

/-- What follows the `\item` at the start of a line and its optional label. -/
def item? (line : Line) : Option (Option Line) :=
  match Text.stripPrefix? "\\item".toList line with
  | none => some none
  | some rest =>
    if startsWithLetter rest then some none
    else do
      let behind ← match ← bracketed? rest 0 with
        | some (_, next) => slice? rest next (size rest)
        | none => some rest
      some (some (Text.trimLeft behind))

/-- The lines before the first item, and the lines of each item, where `depth` environments are
open. -/
def splitItems? : (depth : Nat) → List Line → Option (List Line × List (List Line))
  | _, [] => some ([], [])
  | depth, line :: lines => do
    let (leading, items) ← splitItems? (depthAfter depth (Text.trim line)) lines
    let marker ← (if depth = 0 then item? (Text.trim line) else some none)
    match marker with
    | some first => some ([], (first :: leading) :: items)
    | none => some (line :: leading, items)

/-- The lines of each item of a list body. -/
def itemLines? (body : List Line) : Option (List (List Line)) := do
  let (leading, items) ← splitItems? 0 body
  some (if leading.all Text.isBlank then items else leading :: items)

theorem opening?_eq (line : List Char) : opening? line = some (Latex.opening? line) := by
  rw [opening?]
  cases h : Latex.opening? line with
  | none => rfl
  | some r =>
    obtain ⟨name, after⟩ := r
    simp only [slice?_of_eq (opening?_eq_some h), Option.bind_eq_bind, Option.bind_some]

theorem item?_eq (line : Line) : item? line = some (Latex.item? line) := by
  rw [item?, Latex.item?]
  cases Text.stripPrefix? "\\item".toList line with
  | none => rfl
  | some rest =>
    dsimp only
    split
    · rfl
    · rw [bracketed?_zero, skipBracketed]
      cases h : Latex.bracketed? rest with
      | none => rfl
      | some r =>
        obtain ⟨label, behind⟩ := r
        obtain ⟨front, hfront⟩ := bracketed?_isSuffix h
        simp only [Option.map_some, placed_of_eq hfront.symm, Option.bind_eq_bind, Option.bind_some,
          slice?_of_eq hfront.symm]

theorem splitItems?_eq (depth : Nat) (lines : List Line) :
    splitItems? depth lines = some (splitItems depth lines) := by
  induction lines generalizing depth with
  | nil => rfl
  | cons line lines ih =>
    have hmarker : (if depth = 0 then item? (Text.trim line) else some none) =
        some (if depth = 0 then Latex.item? (Text.trim line) else none) := by
      split
      · exact item?_eq _
      · rfl
    rw [splitItems?, splitItems, ih, hmarker]
    simp only [Option.bind_eq_bind, Option.bind_some]
    split <;> simp [*]

theorem itemLines?_eq (body : List Line) : itemLines? body = some (itemLines body) := by
  rw [itemLines?, splitItems?_eq]
  rfl

/-! ### Code -/

/-- The language among the options of a listing. -/
def language? (options : List Char) : Option (Option (List Char)) := do
  let entries ← splitTop? ',' options
  some (Latex.language? entries)

/-- The language of a code environment. -/
def languageOf? (name rest : List Char) : Option (Option (List Char)) :=
  if name = "lstlisting".toList then do
    match ← bracketed? rest 0 with
    | some (options, _) => language? options
    | none => some none
  else if name = "minted".toList then do
    let next ← skipBracketed? rest 0
    match ← braced? rest next with
    | some (language, _) => some (some (Text.trim language))
    | none => some none
  else some none

/-- The offset behind the arguments of a code environment. -/
def codeStart? (name rest : List Char) : Option Nat :=
  if name = "lstlisting".toList then skipBracketed? rest 0
  else if name = "minted".toList then do
    let next ← skipBracketed? rest 0
    skipBraced? rest next
  else some 0

/-- A code environment. -/
def code? (e : Environment) : Option Block := do
  let rest := Text.trimLeft e.opening
  let language ← languageOf? e.name rest
  let start ← codeStart? e.name rest
  let first ← slice? rest start (size rest)
  let lines := if Text.isBlank first then e.body else first :: e.body
  some (.code (String.ofList (Text.unlines lines))
    ((language.filter fun language => !language.isEmpty).map String.ofList))

theorem language?_eq (options : List Char) :
    language? options = some (Latex.language? (splitTop ',' options)) := by
  rw [language?, splitTop?_eq]
  rfl

/-- The arguments of a code environment are cut out between characters. -/
theorem exists_codeStart? (name opening : List Char) : ∃ start,
    languageOf? name (Text.trimLeft opening) = some (listingArguments name opening).1 ∧
      codeStart? name (Text.trimLeft opening) = some start ∧
      slice? (Text.trimLeft opening) start (size (Text.trimLeft opening)) =
        some (listingArguments name opening).2 := by
  rw [languageOf?, codeStart?, listingArguments]
  generalize Text.trimLeft opening = rest
  -- a listing has options, minted has options and a language, and others have neither
  by_cases hlisting : name = "lstlisting".toList
  · rw [if_pos hlisting, if_pos hlisting, if_pos hlisting, skipBracketed?, bracketed?_zero]
    cases h : Latex.bracketed? rest with
    | none => exact ⟨0, rfl, rfl, slice?_of_eq (u := []) rfl⟩
    | some r =>
      obtain ⟨options, behind⟩ := r
      obtain ⟨front, hfront⟩ := bracketed?_isSuffix h
      rw [Option.map_some, placed_of_eq hfront.symm]
      exact ⟨size front, language?_eq options, rfl, slice?_of_eq hfront.symm⟩
  rw [if_neg hlisting, if_neg hlisting, if_neg hlisting]
  by_cases hminted : name = "minted".toList
  · obtain ⟨front, hfront, hstart⟩ := exists_skipBracketed? rest
    rw [if_pos hminted, if_pos hminted, if_pos hminted]
    simp only [hstart, Option.bind_eq_bind, Option.bind_some, skipBraced?, braced?_append hfront]
    cases h : Latex.braced? (skipBracketed rest) with
    | none => exact ⟨size front, rfl, rfl, slice?_of_eq hfront⟩
    | some r =>
      obtain ⟨language, behind⟩ := r
      obtain ⟨back, hback, hsize⟩ := exists_front hfront (braced?_isSuffix h)
      rw [Option.map_some, placed, hsize]
      exact ⟨size back, rfl, rfl, slice?_of_eq hback⟩
  rw [if_neg hminted, if_neg hminted, if_neg hminted]
  exact ⟨0, rfl, rfl, slice?_of_eq (u := []) rfl⟩

/-- **A code environment** is cut between characters wherever it is cut. -/
theorem code?_eq (e : Environment) : code? e = some e.code := by
  obtain ⟨start, hlanguage, hstart, hfirst⟩ := exists_codeStart? e.name e.opening
  rw [code?, Environment.code, Environment.codeLines, Environment.language?]
  simp only [hlanguage, hstart, hfirst, Option.bind_eq_bind, Option.bind_some]

/-! ### Reading -/

/-- The blocks of an environment, its lines and its items being read by `read`. -/
def contentBlocks? (read : List Line → Option (List Block)) (e : Environment) :
    Option (List Block) :=
  if isQuote e.name then do
    let blocks ← read e.lines
    some [.quote blocks]
  else if isItemize e.name then do
    let items ← itemLines? e.lines
    let blocks ← items.mapM read
    some [.list false blocks]
  else if isEnumerate e.name then do
    let items ← itemLines? e.lines
    let blocks ← items.mapM read
    some [.list true blocks]
  else if e.name = "tabular".toList then do
    let table ← table? e
    some [table]
  else if isVerbatim e.name then do
    let code ← code? e
    some [code]
  else read e.lines

/-- The blocks of an environment and of what follows it on its last line. -/
def environmentBlocks? (read : List Line → Option (List Block)) (e : Environment) :
    Option (List Block) := do
  let blocks ← contentBlocks? read e
  if e.trailing.isEmpty then some blocks
  else do
    let more ← read [e.trailing]
    some (blocks ++ more)

/-- The blocks of the lines from an index on, after the given paragraph.  Lines within them are read
by `read`, and reading fails if it does not get on. -/
def blocksFrom? (read : List Line → Option (List Block)) (lines : List Line) (index : Nat)
    (paragraph : List Inline) : Option (List Block) :=
  if index < lines.length then
    match lines[index]? with
    | none => none
    | some raw =>
      if isComment raw then blocksFrom? read lines (index + 1) paragraph
      else do
        let kept ← stripComment? (Text.trim raw)
        let line := Text.trim kept
        if line.isEmpty || isPreamble line then do
          let blocks ← blocksFrom? read lines (index + 1) []
          some (flush paragraph ++ blocks)
        else match heading? line with
          | some (level, title) => do
            let inlines ← tokenize? title
            let blocks ← blocksFrom? read lines (index + 1) []
            some (flush paragraph ++ .heading level inlines :: blocks)
          | none =>
            if isRule line then do
              let blocks ← blocksFrom? read lines (index + 1) []
              some (flush paragraph ++ .rule :: blocks)
            else do
              match ← opening? line with
              | some (name, opening) =>
                let (e, next) ← collect? lines (index + 1) name opening
                let inner ← environmentBlocks? read e
                let blocks ← if index < next then blocksFrom? read lines next [] else none
                some (flush paragraph ++ (inner ++ blocks))
              | none =>
                let inlines ← tokenize? line
                blocksFrom? read lines (index + 1) (joinLine paragraph inlines)
  else some (flush paragraph)
termination_by lines.length - index

/-- The blocks of lines, with no more than `levels` calls inside each other.  A call for lines
within the lines is refused unless these have strictly fewer opening markers. -/
def parseBlocksWithin? : (levels : Nat) → List Line → Option (List Block)
  | 0, _ => none
  | levels + 1, lines =>
    blocksFrom? (fun inner =>
      if openings inner < openings lines then parseBlocksWithin? levels inner else none) lines 0 []

/-- The document that a source holds. -/
def parse? (source : List Char) : Option Document := do
  let lines := Text.lines source
  let blocks ← parseBlocksWithin? (openings lines + 1) lines
  some (Document.mk blocks).normalize

/-- A choice between two readers that succeed. -/
theorem ite_eq_some {α : Type} {p : Prop} [Decidable p] {x y : Option α} {a b : α}
    (hx : x = some a) (hy : y = some b) : (if p then x else y) = some (if p then a else b) := by
  split <;> assumption

/-- An environment is read if all is that has no more opening markers. -/
theorem environmentBlocks?_eq {read : List Line → Option (List Block)} {e : Environment}
    (h : ∀ inner, openings inner ≤ e.openings → read inner = some (parseBlocks inner)) :
    environmentBlocks? read e = some (environmentBlocks e) := by
  have hlines : read e.lines = some (parseBlocks e.lines) := h _ (openings_lines e)
  have hitems : (itemLines e.lines).mapM read = some (itemBlocks (itemLines e.lines)) := by
    rw [itemBlocks_eq_map]
    exact mapM_eq_some_map fun item hitem =>
      h item ((openings_le_of_mem_itemLines hitem).trans (openings_lines e))
  have hlist (ordered : Bool) : (do
      let items ← itemLines? e.lines
      let blocks ← items.mapM read
      some [Block.list ordered blocks]) =
        some [.list ordered (itemBlocks (itemLines e.lines))] := by
    simp only [itemLines?_eq, hitems, Option.bind_eq_bind, Option.bind_some]
  -- what trails the closing marker has fewer opening markers than the whole
  have htrailing : read [e.trailing] = some (parseBlocks [e.trailing]) := by
    refine h _ ?_
    rw [openings_cons, openings_nil, Environment.openings]
    omega
  rw [environmentBlocks?, environmentBlocks, contentBlocks?]
  rw [ite_eq_some (by rw [hlines]; rfl) <| ite_eq_some (hlist false) <|
    ite_eq_some (hlist true) <| ite_eq_some (by rw [table?_eq]; rfl) <|
    ite_eq_some (by rw [code?_eq]; rfl) hlines]
  simp only [htrailing, Option.bind_eq_bind, Option.bind_some]
  exact ite_eq_some rfl rfl

theorem collectBody_isSuffix (name : List Char) (depth : Nat) (lines : List Line) :
    (collectBody name depth lines).rest <:+ lines := by
  induction lines generalizing depth with
  | nil => exact List.suffix_rfl
  | cons line lines ih =>
    rw [collectBody]
    split
    · exact (ih _).trans (List.suffix_cons line lines)
    · exact List.suffix_cons line lines

theorem collect_isSuffix (name opening : List Char) (lines : List Line) :
    (collect name opening lines).2 <:+ lines := by
  rw [collect]
  split
  · exact List.suffix_rfl
  · exact collectBody_isSuffix name _ lines

/-- The lines from an index on are read if all is that has fewer opening markers. -/
theorem blocksFrom?_eq {read : List Line → Option (List Block)} {lines : List Line}
    (h : ∀ inner, openings inner < openings lines → read inner = some (parseBlocks inner))
    {index : Nat} (hindex : index ≤ lines.length) (paragraph : List Inline) :
    blocksFrom? read lines index paragraph =
      some (assemble paragraph (segments (lines.drop index))) := by
  induction hn : lines.length - index using Nat.strong_induction_on generalizing index paragraph
    with
  | _ n ih =>
  subst hn
  rw [blocksFrom?]
  rcases Nat.lt_or_eq_of_le hindex with hlt | rfl
  · have hrest (paragraph : List Inline) : blocksFrom? read lines (index + 1) paragraph =
        some (assemble paragraph (segments (lines.drop (index + 1)))) :=
      ih _ (by omega) hlt paragraph rfl
    have hopenings := openings_le_of_isSuffix (List.drop_suffix index lines)
    rw [List.drop_eq_getElem_cons hlt] at hopenings ⊢
    rw [if_pos hlt, List.getElem?_eq_getElem hlt]
    generalize lines[index] = raw at hopenings ⊢
    have hline : Text.trim (stripComment (Text.trim raw)) = significant raw := rfl
    rw [segments]
    dsimp only
    by_cases hcomment : isComment raw = true
    · rw [if_pos hcomment, if_pos hcomment, hrest]
    rw [if_neg hcomment, if_neg hcomment]
    simp only [stripComment?_eq, hline, hrest, tokenize?_eq, opening?_eq, Option.bind_eq_bind,
      Option.bind_some]
    by_cases hgap : ((significant raw).isEmpty || isPreamble (significant raw)) = true
    · rw [if_pos hgap, if_pos hgap, assemble]
    rw [if_neg hgap, if_neg hgap]
    cases heading? (significant raw) with
    | some title => rw [assemble]
    | none =>
    dsimp only
    by_cases hrule : isRule (significant raw) = true
    · rw [if_pos hrule, if_pos hrule, assemble]
    rw [if_neg hrule, if_neg hrule]
    cases hopening : Latex.opening? (significant raw) with
    | none => rw [assemble]
    | some r =>
      obtain ⟨name, opening⟩ := r
      dsimp only
      have hcollect := collect?_eq (Nat.succ_le_of_lt hlt) name opening
      have hfewer := openings_lt_of_opening? hopening (lines.drop (index + 1))
      have hsuffix := collect_isSuffix name opening (lines.drop (index + 1))
      have hlength := length_collect name opening (lines.drop (index + 1))
      generalize collect name opening (lines.drop (index + 1)) = found at *
      have hlight : found.1.openings < openings lines := by omega
      have hinner := environmentBlocks?_eq fun inner hinner => h inner (hinner.trans_lt hlight)
      -- reading goes on at the first line behind the environment
      have hdrop := List.suffix_iff_eq_drop.mp (hsuffix.trans (List.drop_suffix _ lines))
      rw [List.length_drop] at hlength
      have hnext : index < lines.length - found.2.length := by omega
      have hbehind := ih _ (by omega) (Nat.sub_le lines.length found.2.length) [] rfl
      rw [← hdrop] at hbehind
      simp only [hcollect, Option.bind_some, hinner, if_pos hnext, hbehind]
      rw [assemble]
  · rw [if_neg (lt_irrefl _), List.drop_length, segments, assemble]

/-- **One level more than there are opening markers** is enough, and no call is refused. -/
theorem parseBlocksWithin?_eq {levels : Nat} {lines : List Line} (h : openings lines < levels) :
    parseBlocksWithin? levels lines = some (parseBlocks lines) := by
  induction levels generalizing lines with
  | zero => exact absurd h (Nat.not_lt_zero _)
  | succ levels ih =>
    have hread (inner : List Line) (hinner : openings inner < openings lines) :
        (if openings inner < openings lines then parseBlocksWithin? levels inner else none) =
          some (parseBlocks inner) := by
      rw [if_pos hinner]
      exact ih (by omega)
    rw [parseBlocksWithin?, parseBlocks]
    exact blocksFrom?_eq hread (Nat.zero_le _) []

/-- **The reader never fails** and never cuts a text where it must not be cut: on every source it
gives the document that the source is read as. -/
theorem parse?_eq (source : List Char) : parse? source = some (parse source) := by
  rw [parse?, parseBlocksWithin?_eq (Nat.lt_succ_self _)]
  rfl

/-- **Reading ends, and its calls nest no deeper than the opening markers allow.**  Of any lines
each environment has strictly fewer opening markers left, in all that it may hand on to be read
again, than the lines.  So of the calls for lines within lines none is refused and no more than one
and the number of opening markers are inside each other, and the blocks are those that are read
without a bound.  The search for a closing marker ends as well: each of its rounds starts at a
strictly greater offset than the one before it. -/
theorem nesting_bounded_by_openings (lines : List Line) :
    parseBlocksWithin? (openings lines + 1) lines = some (parseBlocks lines) ∧
    (∀ e, .environment e ∈ segments lines → e.openings < openings lines) ∧
    (∀ name text offset depth next after,
      round? name text offset depth = some (.again next after) →
        offset < next ∧ next ≤ size text) ∧
    ∀ name text depth,
      matchingClose? name text 0 depth = some (outcome [] (scanClose name depth 0 text)) :=
  ⟨parseBlocksWithin?_eq (Nat.lt_succ_self _), fun _ => openings_lt_of_mem_segments,
    fun _ _ _ _ _ _ => lt_of_round?, matchingClose?_zero⟩

/-- **A text is only ever cut between characters.**  A slice can be taken exactly if it starts
no later than it ends, ends within the text, and has a character boundary at both ends.  With slices
for all cuts, and no depth lowered at zero, every scanner gives a result on every text, a group and
the spacing of a row even at every offset, and the result is what is read from the characters. -/
theorem cuts_between_characters :
    (∀ s start stop, (slice? s start stop).isSome ↔
      start ≤ stop ∧ stop ≤ size s ∧ IsBoundary s start ∧ IsBoundary s stop) ∧
    (∀ line, stripComment? line = some (stripComment line)) ∧
    (∀ s start, braced? s start =
      some (((slice? s start (size s)).bind Latex.braced?).map (placed s))) ∧
    (∀ s start, bracketed? s start =
      some (((slice? s start (size s)).bind Latex.bracketed?).map (placed s))) ∧
    (∀ s start, ∃ next, skipBracketed? s start = some next ∧
      (next = start ∨ start ≤ next ∧ IsBoundary s next)) ∧
    (∀ sep s, splitTop? sep s = some (splitTop sep s)) ∧
    (∀ body, tablePieces? body = some (tablePieces [] body)) ∧
    (∀ name text depth,
      matchingClose? name text 0 depth = some (outcome [] (scanClose name depth 0 text))) ∧
    (∀ e, code? e = some e.code) ∧
    (∀ s, tokenize? s = some (tokenize s)) ∧
    ∀ source, parse? source = some (parse source) :=
  ⟨fun _ _ _ => isSome_slice?_iff, stripComment?_eq, braced?_eq, bracketed?_eq,
    skipBracketed?_eq_start_or, splitTop?_eq, tablePieces?_eq,
    matchingClose?_zero, code?_eq, tokenize?_eq, parse?_eq⟩

end Interdoc.Latex.Offset
