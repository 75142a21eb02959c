import Interdoc.Latex.Block
import Interdoc.Latex.Printer
import Interdoc.Proofs.Latex.Line
import Interdoc.Proofs.Latex.Nesting

/-!
# Reading lines

`readLines` is what lines are read as, in normal form.  Lines read as blocks whatever comes after a
blank line (`Reads`), so blocks with blank lines between them are read one by one (`Reads.blank`).

The rest of the module says which segment each printed line is: `segments_text` for a line that
begins no block, `segments_heading` with `heading?_command` for a sectioning command, and
`segments_environment` for the line that opens an environment, whose segment reaches to the closing
marker.
-/

namespace Interdoc.Latex

/-! ### Lines one by one -/

/-- The blocks that lines are read as. -/
def readLines (lines : List Line) : List Block :=
  Block.normalizeList (parseBlocks lines)

theorem parseBlocks_nil : parseBlocks [] = [] := by
  rw [parseBlocks, segments, assemble]
  rfl

theorem readLines_nil : readLines [] = [] := by
  rw [readLines, parseBlocks_nil]
  rfl

/-- Only what stands between the blanks of a line is read. -/
theorem segments_congr {raw line : Line} (h : Text.trim raw = Text.trim line)
    (lines : List Line) : segments (raw :: lines) = segments (line :: lines) := by
  have hs : significant raw = significant line := by rw [significant, significant, h]
  have hc : isComment raw = isComment line := by rw [isComment, isComment, h]
  rw [segments, segments, hs, hc]

theorem readLines_congr {raw line : Line} (h : Text.trim raw = Text.trim line)
    (lines : List Line) : readLines (raw :: lines) = readLines (line :: lines) := by
  rw [readLines, readLines, parseBlocks, parseBlocks, segments_congr h]

theorem segments_blank {raw : Line} (h : Text.isBlank raw = true) (lines : List Line) :
    segments (raw :: lines) = .gap :: segments lines := by
  have ht : Text.trim raw = Text.trim [] := Text.trim_eq_nil_iff.mpr h
  rw [segments_congr ht, segments]
  rfl

/-- A gap in front of lines. -/
theorem readLines_gap {raw : Line} {lines : List Line}
    (h : segments (raw :: lines) = .gap :: segments lines) :
    readLines (raw :: lines) = readLines lines := by
  rw [readLines, readLines, parseBlocks, parseBlocks, h, assemble]
  rfl

theorem readLines_blank {raw : Line} (h : Text.isBlank raw = true) (lines : List Line) :
    readLines (raw :: lines) = readLines lines :=
  readLines_gap (segments_blank h lines)

theorem stripPrefix?_of_startsBlock {line command : List Char} (h : startsBlock line = false)
    (hc : command ∈ blockCommands) : Text.stripPrefix? command line = none :=
  Text.stripPrefix?_eq_none_iff.mpr (startsBlock_eq_false_iff.mp h command hc)

/-- A line that begins no block is one of a paragraph. -/
theorem segments_text {raw : Line} (hempty : Text.trim raw ≠ [])
    (hc : stripComment (Text.trim raw) = Text.trim raw)
    (hs : startsBlock (Text.trim raw) = false) (lines : List Line) :
    segments (raw :: lines) = .text (Text.trim raw) :: segments lines := by
  have hsig : significant raw = Text.trim raw := by rw [significant, hc, Text.trim_trim]
  have hnone : ∀ command ∈ blockCommands, Text.stripPrefix? command (Text.trim raw) = none :=
    fun command => stripPrefix?_of_startsBlock hs
  have hcomment : isComment raw = false := by
    rw [isComment, Text.startsWith, hnone _ (by decide)]
    rfl
  have hpreamble : isPreamble (Text.trim raw) = false := by
    rw [isPreamble, List.any_eq_false]
    intro command hcommand
    rw [startsWithCommand, hnone command]
    · decide
    · exact List.mem_append_left _ (List.mem_append_left _ hcommand)
  have hheading : heading? (Text.trim raw) = none := by
    rw [heading?, List.findSome?_eq_none_iff]
    rintro ⟨command, level⟩ hcommand
    dsimp only
    rw [hnone command]
    exact List.mem_append_left _ (List.mem_append_right _ (List.mem_map_of_mem hcommand))
  -- a rule is recognized by the whole line, which begins with itself
  have hne : ∀ command ∈ blockCommands, Text.trim raw ≠ command := by
    intro command hcommand he
    have hn := stripPrefix?_of_startsBlock hs hcommand
    rw [he, Text.stripPrefix?_eq_none_iff] at hn
    exact hn List.prefix_rfl
  have hrule : isRule (Text.trim raw) = false := by
    rw [isRule, Bool.or_eq_false_iff, beq_eq_false_iff_ne, beq_eq_false_iff_ne]
    exact ⟨hne _ (by decide), hne _ (by decide)⟩
  have hopening : opening? (Text.trim raw) = none := by
    rw [opening?, hnone _ (by decide)]
  rw [segments, hsig, hcomment, hpreamble, hheading, hrule, hopening, if_neg (by decide)]
  simp [hempty]

/-- A line of a paragraph that has no blanks around it. -/
theorem segments_trimmed {line : Line} (htrim : Text.trim line = line) (hne : line ≠ [])
    (hc : stripComment line = line) (hs : startsBlock line = false) (lines : List Line) :
    segments (line :: lines) = .text line :: segments lines := by
  have htext := segments_text (htrim.symm ▸ hne) (by rw [htrim, hc]) (by rw [htrim, hs]) lines
  rwa [htrim] at htext

/-! ### Lines that read as blocks -/

/-- Lines are empty or begin with a blank one. -/
def Fresh (lines : List Line) : Prop :=
  ∀ line ∈ lines.head?, Text.isBlank line = true

/-- Lines read as the blocks, and what comes after a blank line reads on its own. -/
def Reads (lines : List Line) (blocks : List Block) : Prop :=
  ∀ rest, Fresh rest → readLines (lines ++ rest) = blocks ++ readLines rest

theorem fresh_nil : Fresh [] := by simp [Fresh]

theorem fresh_blank (lines : List Line) : Fresh ([] :: lines) := by simp [Fresh, Text.isBlank]

theorem Reads.readLines {lines : List Line} {blocks : List Block} (h : Reads lines blocks) :
    readLines lines = blocks := by
  have hr := h [] fresh_nil
  rwa [List.append_nil, readLines_nil, List.append_nil] at hr

/-- **Blocks with a blank line between them** are read one after the other. -/
theorem Reads.blank {xs ys : List Line} {bs cs : List Block} (hx : Reads xs bs)
    (hy : Reads ys cs) : Reads (xs ++ [] :: ys) (bs ++ cs) := by
  intro rest hr
  rw [List.append_assoc, List.cons_append, hx _ (fresh_blank _), readLines_blank (by decide),
    hy rest hr, List.append_assoc]

theorem reads_blank {line : Line} (h : Text.isBlank line = true) : Reads [line] [] := by
  intro rest _
  rw [List.singleton_append, readLines_blank h, List.nil_append]

/-- What comes first in front of a fresh line ends there. -/
theorem assemble_of_fresh {rest : List Line} (h : Fresh rest) (paragraph : List Inline) :
    assemble paragraph (segments rest) = flush paragraph ++ assemble [] (segments rest) := by
  cases rest with
  | nil =>
    rw [segments, assemble, assemble]
    exact (List.append_nil _).symm
  | cons line rest =>
    rw [segments_blank (h line rfl), assemble, assemble]
    rfl

theorem flush_of_ne_nil {paragraph : List Inline} (h : paragraph ≠ []) :
    flush paragraph = [.paragraph paragraph] := by
  rw [flush, if_neg (mt List.isEmpty_iff.mp h)]

/-- **A line of text** in front of a fresh line is a paragraph. -/
theorem reads_text {line : Line} (h : ∀ rest,
    segments (line :: rest) = .text (Text.trim line) :: segments rest)
    (hne : Text.trim line ≠ []) :
    Reads [line] [.paragraph (Inline.normalizeList (tokenize (Text.trim line)))] := by
  intro rest hr
  -- the paragraph is not empty, so it is flushed where the fresh line ends it
  have hflush := flush_of_ne_nil (mt tokenize_eq_nil_iff.mp hne)
  rw [List.singleton_append, readLines, parseBlocks, h, assemble, assemble_of_fresh hr, joinLine,
    List.isEmpty_nil, Bool.true_or, if_pos rfl, List.nil_append, hflush, List.singleton_append,
    Block.normalizeList, Block.normalize, readLines, parseBlocks, List.singleton_append]

/-- A segment in front of which no paragraph is open. -/
theorem reads_segment (lines : List Line) {segment : Segment} {blocks : List Block}
    (h : ∀ rest, segments (lines ++ rest) = segment :: segments rest)
    (ha : ∀ others, assemble [] (segment :: others) = blocks ++ assemble [] others) :
    Reads lines (Block.normalizeList blocks) := by
  intro rest _
  rw [readLines, parseBlocks, h, ha, Block.normalizeList_append, readLines, parseBlocks]

theorem reads_heading {line : Line} {level : Nat} {title : List Char}
    (h : ∀ rest, segments (line :: rest) = .heading level title :: segments rest) :
    Reads [line] [.heading level (Inline.normalizeList (tokenize title))] := by
  have hr : Reads [line] (Block.normalizeList [.heading level (tokenize title)]) := by
    apply reads_segment [line] h
    intro others
    rw [assemble]
    rfl
  rwa [Block.normalizeList, Block.normalize, Block.normalizeList] at hr

theorem reads_rule {line : Line} (h : ∀ rest, segments (line :: rest) = .rule :: segments rest) :
    Reads [line] [.rule] := by
  have hr : Reads [line] (Block.normalizeList [.rule]) := by
    apply reads_segment [line] h
    intro others
    rw [assemble]
    rfl
  rwa [Block.normalizeList, Block.normalize, Block.normalizeList] at hr

theorem reads_environment {lines : List Line} {e : Environment}
    (h : ∀ rest, segments (lines ++ rest) = .environment e :: segments rest) :
    Reads lines (Block.normalizeList (environmentBlocks e)) := by
  apply reads_segment lines h
  intro others
  rw [assemble]
  rfl

/-! ### Headings -/

/-- The level of a heading that is read back. -/
def headingLevel (level : Nat) : Nat :=
  min (max level 1) 5

/-- The first sectioning command that a line starts with decides about the level. -/
theorem heading?_of_stripPrefix? {line command rest title : List Char} {level : Nat}
    {before after : List (List Char × Nat)} (h : sectioning = before ++ (command, level) :: after)
    (hb : before.all (fun entry => (Text.stripPrefix? entry.1 line).isNone) = true)
    (hs : Text.stripPrefix? command line = some rest)
    (ht : bracedLine? (skipStar rest) = some title) :
    heading? line = some (level, Text.trim title) := by
  -- the commands before it in the list are not at the beginning of the line
  rw [heading?, h, List.findSome?_append, List.findSome?_eq_none_iff.mpr, Option.none_or,
    List.findSome?_cons]
  · dsimp only
    rw [hs]
    dsimp only
    rw [ht]
    rfl
  · intro entry he
    dsimp only
    rw [Option.isNone_iff_eq_none.mp (List.all_eq_true.mp hb entry he)]

/-- A sectioning command with its title in braces is a heading. -/
theorem heading?_command {line command title : List Char} {level : Nat}
    {before after : List (List Char × Nat)} (h : sectioning = before ++ (command, level) :: after)
    (hb : before.all (fun entry => (Text.stripPrefix? entry.1 line).isNone) = true)
    (hs : Text.stripPrefix? command line = some ('\x7b' :: (title ++ ['\x7d']))) :
    heading? line = some (level, Text.trim title) := by
  refine heading?_of_stripPrefix? h hb hs ?_
  rw [skipStar, bracedLine?, Text.stripSuffix?_append]
  exact fun s he => absurd (List.cons.inj he).1 (by decide)

theorem headingCommand_of_le (level : Nat) : headingCommand (level + 5) = "subparagraph" := by
  simp [headingCommand]

/-- The sectioning command of a level, and those that are tried before it. -/
theorem exists_sectioning (level : Nat) : ∃ before after,
    sectioning = before ++ ('\\' :: (headingCommand level).toList, headingLevel level) :: after ∧
      ∀ s, before.all (fun entry => (Text.stripPrefix? entry.1
        ('\\' :: ((headingCommand level).toList ++ '\x7b' :: s))).isNone) = true := by
  match level with
  | 0 | 1 => exact ⟨[], _, rfl, fun _ => rfl⟩
  | 2 => exact ⟨sectioning.take 1, _, rfl, fun _ => rfl⟩
  | 3 => exact ⟨sectioning.take 2, _, rfl, fun _ => rfl⟩
  | 4 => exact ⟨sectioning.take 3, _, rfl, fun _ => rfl⟩
  | n + 5 =>
    have hl : headingLevel (n + 5) = 5 := by
      rw [headingLevel]
      omega
    rw [headingCommand_of_le, hl]
    exact ⟨sectioning.take 4, _, rfl, fun _ => rfl⟩

theorem trim_command (name : String) (a : List Char) :
    Text.trim (command name [a]) = command name [a] := by
  apply Text.trim_eq_self
  · exact Text.solidHead_cons.mpr (by decide)
  · have hc : command name [a] = ('\\' :: name.toList ++ '\x7b' :: a) ++ ['\x7d'] := by
      simp [command]
    rw [hc, Text.solidLast_concat]
    decide

/-- What other scanners make of a sectioning command. -/
theorem heading_line {title : List Char} (h : Inert title) (level : Nat) :
    Inert (command (headingCommand level) [title]) ∧
      isPreamble (command (headingCommand level) [title]) = false ∧
      item? (Text.trim (command (headingCommand level) [title])) = none := by
  rw [trim_command]
  match level with
  | 0 | 1 => exact ⟨inert_command "section" ⟨by decide, fun _ => rfl⟩ (by decide) h, rfl, rfl⟩
  | 2 => exact ⟨inert_command "subsection" ⟨by decide, fun _ => rfl⟩ (by decide) h, rfl, rfl⟩
  | 3 => exact ⟨inert_command "subsubsection" ⟨by decide, fun _ => rfl⟩ (by decide) h, rfl, rfl⟩
  | 4 => exact ⟨inert_command "paragraph" ⟨by decide, fun _ => rfl⟩ (by decide) h, rfl, rfl⟩
  | n + 5 =>
    rw [headingCommand_of_le]
    exact ⟨inert_command "subparagraph" ⟨by decide, fun _ => rfl⟩ (by decide) h, rfl, rfl⟩

theorem segments_heading {line title : List Char} {level : Nat} (hi : Inert ('\\' :: line))
    (ht : Text.trim ('\\' :: line) = '\\' :: line) (hp : isPreamble ('\\' :: line) = false)
    (hh : heading? ('\\' :: line) = some (level, title)) (rest : List Line) :
    segments (('\\' :: line) :: rest) = .heading level title :: segments rest := by
  have hsig : significant ('\\' :: line) = '\\' :: line := by
    rw [significant, ht, stripComment_eq_self hi, ht]
  have hcomment : isComment ('\\' :: line) = false := by
    rw [isComment, ht]
    rfl
  rw [segments, hsig, hcomment, hp, hh, if_neg (by decide)]
  rfl

/-! ### Environments -/

/-- What may follow an opening marker on its line. -/
structure IsArgument (s : List Char) : Prop where
  solid : Text.SolidLast s
  plain : ∀ c ∈ s, c ∉ ['\\', '%', '\n', '\r']

instance (s : List Char) : Decidable (IsArgument s) :=
  decidable_of_iff (_ ∧ _) ⟨fun h => ⟨h.1, h.2⟩, fun h => ⟨h.1, h.2⟩⟩

theorem isArgument_nil : IsArgument [] := by decide

theorem IsArgument.isPlain {s : List Char} (h : IsArgument s) : Plain s where
  unmarked := by
    rw [← List.append_nil s]
    refine unmarked_append_of_forall (fun c hc he => ?_) unmarked_nil
    exact h.plain c hc (by simp [he])
  noReturn := fun hr => h.plain _ hr (by simp)

theorem stripComment_openingMarker {name arguments : List Char} (hn : IsEnvironmentName name)
    (ha : IsArgument arguments) :
    stripComment (openingMarker name ++ arguments) = openingMarker name ++ arguments := by
  -- neither the name nor what follows it hides or begins a comment
  have hplain {s : List Char} (h : ∀ c ∈ s, c ≠ '\\' ∧ c ≠ '%') : stripComment s = s := by
    induction s with
    | nil => rfl
    | cons c s ih =>
      rw [List.forall_mem_cons] at h
      rw [stripComment_char h.1.1 h.1.2, ih h.2]
  have hs : ∀ c ∈ name ++ '\x7d' :: arguments, c ≠ '\\' ∧ c ≠ '%' := by
    rw [List.forall_mem_append, List.forall_mem_cons]
    refine ⟨hn.ne, by decide, fun c hc => ?_⟩
    have hp := ha.plain c hc
    simp only [List.mem_cons, not_or] at hp
    exact ⟨hp.1, hp.2.1⟩
  have hm : stripComment ("\\begin\x7b".toList ++ (name ++ '\x7d' :: arguments))
      = "\\begin\x7b".toList ++ stripComment (name ++ '\x7d' :: arguments) := rfl
  rw [openingMarker_append, hm, hplain hs]

/-- Nothing is left of a comment. -/
theorem significant_of_isComment {raw : Line} (h : isComment raw = true) :
    significant raw = [] := by
  rw [isComment, Text.startsWith_iff] at h
  obtain ⟨t, ht⟩ := h
  rw [significant, ← ht, List.singleton_append, stripComment]
  rfl

/-- A line that opens an environment begins a segment, which is collected from the lines after
it. -/
theorem segments_of_opening? {raw : Line} {name opening : List Char}
    (h : opening? (significant raw) = some (name, opening)) (lines : List Line) :
    segments (raw :: lines) =
      .environment (collect name opening lines).1 :: segments (collect name opening lines).2 := by
  obtain ⟨s, hs⟩ : ∃ s, significant raw = "\\begin\x7b".toList ++ s := by
    cases hp : Text.stripPrefix? "\\begin\x7b".toList (significant raw) with
    | none =>
      rw [opening?, hp] at h
      exact absurd h (by simp)
    | some s => exact ⟨s, Text.stripPrefix?_eq_some_iff.mp hp⟩
  have hcomment : isComment raw = false := by
    rw [← Bool.not_eq_true]
    intro hc
    rw [significant_of_isComment hc] at hs
    exact List.cons_ne_nil _ _ hs.symm
  -- the marker is seen as nothing else before it is seen as a marker
  have hgap : ((significant raw).isEmpty || isPreamble (significant raw)) = false := by
    rw [hs]
    rfl
  have hheading : heading? (significant raw) = none := by
    rw [hs]
    rfl
  have hrule : isRule (significant raw) = false := by
    rw [hs]
    rfl
  rw [segments, hcomment, hgap, hheading, hrule, h, if_neg (by decide), if_neg (by decide)]
  dsimp only
  rw [if_neg (by decide)]

theorem segments_opening {name arguments : List Char} (hn : IsEnvironmentName name)
    (ha : IsArgument arguments) (lines : List Line) :
    segments ((openingMarker name ++ arguments) :: lines) =
      .environment (collect name arguments lines).1 ::
        segments (collect name arguments lines).2 := by
  have ht : Text.trim (openingMarker name ++ arguments) = openingMarker name ++ arguments :=
    trim_openingMarker (.inl rfl) ha.solid
  have hsig : significant (openingMarker name ++ arguments) = openingMarker name ++ arguments := by
    rw [significant, ht, stripComment_openingMarker hn ha, ht]
  apply segments_of_opening?
  rw [hsig, opening?_openingMarker hn]

/-- An environment that is collected whole is a segment. -/
theorem segments_collected {name arguments : List Char} (hn : IsName name)
    (ha : IsArgument arguments) {body rest : List Line}
    (hcollect : collect name arguments (body ++ closingMarker name :: rest)
      = (⟨name, arguments, body, []⟩, rest)) :
    segments ((openingMarker name ++ arguments) :: (body ++ closingMarker name :: rest))
      = .environment ⟨name, arguments, body, []⟩ :: segments rest := by
  rw [segments_opening hn.isEnvironmentName ha, hcollect]

/-- **The line that opens an environment** begins a segment that reaches to the closing marker. -/
theorem segments_environment {name arguments : List Char} (hn : IsName name)
    (ha : IsArgument arguments) {body : List Line} (hb : Nested true body)
    (hv : isVerbatim name = false ∨ ∀ line ∈ body, Plain line) (rest : List Line) :
    segments ((openingMarker name ++ arguments) :: (body ++ closingMarker name :: rest))
      = .environment ⟨name, arguments, body, []⟩ :: segments rest := by
  refine segments_collected hn ha ?_
  rcases hv with hv | hv
  · exact collect_nested hn hv ha.isPlain hb rest
  · exact collect_plain ha.isPlain hv rest

end Interdoc.Latex
