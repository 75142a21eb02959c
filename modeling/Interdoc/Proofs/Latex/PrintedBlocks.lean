import Interdoc.Proofs.Latex.Reading
import Interdoc.Proofs.Text.Lines

/-!
# Printed blocks

A text `Prints` blocks if its lines read as them and are nested, so that the text can stand in an
environment, and if it does not end with a line ending.  This is what printing keeps at every
level: of the blocks, paragraphs (`prints_paragraph`), headings (`prints_heading`), rules
(`prints_rule`) and environments (`prints_environment`) have it, and so has a sequence of printed
blocks with blank lines between them (`prints_joinNonempty`).

The lines of a list are those of its items one after the other; each item is read as its blocks
(`itemOf_printItem`), and so is the whole (`PrintsItems.itemBlocks`).
-/

namespace Interdoc.Latex

open Inline (tidy)

/-! ### Printed blocks -/

/-- A text prints the blocks: its lines are nested and read as the blocks, and the last of them has
no ending. -/
structure Prints (source : List Char) (blocks : List Block) : Prop where
  nested : Nested false (Text.splitOn '\n' source)
  reads : Reads (Text.splitOn '\n' source) blocks
  last : source.getLast? ≠ some '\n'

theorem Prints.eq_nil {blocks : List Block} (h : Prints [] blocks) : blocks = [] := by
  rw [← h.reads.readLines, Text.splitOn, readLines_blank rfl, readLines_nil]

theorem prints_nil : Prints [] [] where
  nested := .line plain_nil (fun _ => rfl) .nil
  reads := reads_blank rfl
  last := by simp

/-- A text of one line. -/
theorem prints_of_inert {line : List Char} {blocks : List Block} (h : Inert line)
    (hi : item? (Text.trim line) = none) (hr : Reads [line] blocks) : Prints line blocks := by
  have hs : Text.splitOn '\n' line = [line] := Text.splitOn_of_not_mem h.not_mem.1
  constructor
  · rw [hs]
    exact .line (.inert h) (fun _ => hi) .nil
  · rwa [hs]
  · intro hl
    exact h.not_mem.1 (List.mem_of_getLast? hl)

/-- **A paragraph** is read back tidied, unless nothing of it is left. -/
theorem prints_paragraph (xs : List Inline) :
    Prints (printInlines xs) (if tidy xs = [] then [] else [.paragraph (tidy xs)]) := by
  apply prints_of_inert (inert_printInlines xs)
  · rw [item?, stripPrefix?_of_startsBlock (startsBlock_trim xs) (by decide)]
  · split
    · next h => exact reads_blank (Text.trim_eq_nil_iff.mp (tidy_eq_nil_iff.mp h))
    · next h =>
      have hne : Text.trim (printInlines xs) ≠ [] := mt tidy_eq_nil_iff.mpr h
      rw [← normalizeList_tokenize_trim]
      exact reads_text (segments_text hne (stripComment_trim xs) (startsBlock_trim xs)) hne

theorem prints_rule : Prints "\\hrule".toList [.rule] := by
  have hi : Inert "\\hrule".toList :=
    inert_word (w := "rule".toList) (s := []) ⟨by decide, fun _ => rfl⟩ (by decide) .nil
  refine prints_of_inert hi rfl (reads_rule fun rest => ?_)
  rw [segments, if_neg (by decide), if_neg (by decide)]
  rfl

/-- **A heading** is read back with a level that there is a command for. -/
theorem prints_heading (level : Nat) (xs : List Inline) :
    Prints (command (headingCommand level) [printInlines xs])
      [.heading (headingLevel level) (tidy xs)] := by
  obtain ⟨before, after, hs, hb⟩ := exists_sectioning level
  obtain ⟨hi, hp, hitem⟩ := heading_line (inert_printInlines xs) level
  have hc := command_append (headingCommand level) (printInlines xs) []
  have ht := trim_command (headingCommand level) (printInlines xs)
  rw [List.append_nil] at hc
  refine prints_of_inert hi hitem ?_
  rw [← normalizeList_tokenize_trim]
  rw [hc] at hi hp ht ⊢
  refine reads_heading (segments_heading hi ht hp (heading?_command hs (hb _) ?_))
  exact Text.stripPrefix?_append ('\\' :: (headingCommand level).toList) _

/-! ### Environments -/

/-- **An environment** prints what is made of the lines of its body. -/
theorem prints_environmentLines {name arguments source : List Char} {body : List Line}
    (hn : IsName name) (ha : IsArgument arguments)
    (hs : Text.splitOn '\n' source
      = (openingMarker name ++ arguments) :: (body ++ [closingMarker name]))
    (hb : Nested true body) (hv : isVerbatim name = false ∨ ∀ line ∈ body, Plain line)
    {blocks : List Block}
    (h : Block.normalizeList (environmentBlocks ⟨name, arguments, body, []⟩) = blocks) :
    Prints source blocks := by
  constructor
  · rw [hs]
    exact Nested.environment (.inl rfl) hn ha.isPlain ha.solid hb .nil
  · rw [hs, ← h]
    apply reads_environment
    intro rest
    rw [List.cons_append, List.append_assoc]
    exact segments_environment hn ha hb hv rest
  · -- a line feed at the end would leave an empty last line
    intro hl
    obtain ⟨t, rfl⟩ := List.getLast?_eq_some_iff.mp hl
    rw [Text.splitOn_append_sep, ← List.cons_append] at hs
    exact absurd (List.append_inj_right' hs rfl) (by simp [Text.splitOn, closingMarker])

theorem command_begin (name : List Char) : command "begin" [name] = openingMarker name := by
  unfold command
  rw [List.flatMap_cons, List.flatMap_nil, List.append_nil]
  rfl

theorem command_end (name : List Char) : command "end" [name] = closingMarker name := by
  unfold command
  rw [List.flatMap_cons, List.flatMap_nil, List.append_nil]
  rfl

theorem not_mem_closingMarker {name : List Char} (hn : IsName name) :
    '\n' ∉ closingMarker name := by
  rw [closingMarker, List.mem_append, List.mem_append]
  rintro ((h | h) | h)
  · exact absurd h (by decide)
  · exact absurd (hn.2 _ h) (by decide)
  · exact absurd h (by decide)

theorem IsArgument.noLineFeed {arguments : List Char} (h : IsArgument arguments) :
    '\n' ∉ arguments := fun hc => h.plain _ hc (by simp)

theorem not_mem_openingMarker {name arguments : List Char} (hn : IsName name)
    (ha : '\n' ∉ arguments) : '\n' ∉ openingMarker name ++ arguments := by
  rw [openingMarker_append, List.mem_append, List.mem_append, List.mem_cons]
  rintro (h | h | h | h)
  · exact absurd h (by decide)
  · exact absurd (hn.2 _ h) (by decide)
  · exact absurd h (by decide)
  · exact ha h

theorem splitOn_environment {name : String} {arguments : List Char} (hn : IsName name.toList)
    (ha : '\n' ∉ arguments) (body : List Char) :
    Text.splitOn '\n' (environment name arguments body)
      = (openingMarker name.toList ++ arguments) ::
          (Text.splitOn '\n' body ++ [closingMarker name.toList]) := by
  rw [environment, command_begin, command_end, Text.splitOn_append_sep, Text.splitOn_append_sep,
    Text.splitOn_of_not_mem (not_mem_openingMarker hn ha),
    Text.splitOn_of_not_mem (not_mem_closingMarker hn), List.append_assoc, List.singleton_append]

theorem prints_environment {name : String} {arguments body : List Char} (hn : IsName name.toList)
    (ha : IsArgument arguments) (hb : Nested true (Text.splitOn '\n' body))
    (hv : isVerbatim name.toList = false ∨ ∀ line ∈ Text.splitOn '\n' body, Plain line)
    {blocks : List Block}
    (h : Block.normalizeList
      (environmentBlocks ⟨name.toList, arguments, Text.splitOn '\n' body, []⟩) = blocks) :
    Prints (environment name arguments body) blocks :=
  prints_environmentLines hn ha (splitOn_environment hn ha.noLineFeed body) hb hv h

/-! ### Sequences of blocks -/

/-- **Two printed texts** with a blank line between them. -/
theorem Prints.blank {s t : List Char} {bs cs : List Block} (hs : Prints s bs) (ht : Prints t cs)
    (hne : t ≠ []) : Prints (s ++ '\n' :: '\n' :: t) (bs ++ cs) := by
  have hl : Text.splitOn '\n' (s ++ '\n' :: '\n' :: t)
      = Text.splitOn '\n' s ++ [] :: Text.splitOn '\n' t := by
    rw [Text.splitOn_append_sep, Text.splitOn_cons_sep]
  constructor
  · rw [hl]
    exact hs.nested.append (.line plain_nil (fun _ => rfl) ht.nested)
  · rw [hl]
    exact hs.reads.blank ht.reads
  · rw [List.getLast?_append_of_ne_nil _ (List.cons_ne_nil _ _),
      List.getLast?_cons_of_ne_nil (List.cons_ne_nil _ _), List.getLast?_cons_of_ne_nil hne]
    exact ht.last

/-- Each of a sequence of texts prints its part of the blocks. -/
inductive PrintsEach : List (List Char) → List Block → Prop where
  | nil : PrintsEach [] []
  | cons {text : List Char} {texts : List (List Char)} {bs cs : List Block} :
    Prints text bs → PrintsEach texts cs → PrintsEach (text :: texts) (bs ++ cs)

theorem joinNonempty_nil_cons (sep : List Char) (parts : List (List Char)) :
    joinNonempty sep ([] :: parts) = joinNonempty sep parts := rfl

theorem joinNonempty_cons (sep : List Char) {part : List Char} (h : part ≠ [])
    (parts : List (List Char)) :
    joinNonempty sep (part :: parts)
      = if joinNonempty sep parts = [] then part else part ++ sep ++ joinNonempty sep parts := by
  have hp : (part :: parts).filter (fun p => !p.isEmpty)
      = part :: parts.filter (fun p => !p.isEmpty) := by
    rw [List.filter_cons_of_pos]
    simpa using h
  rw [joinNonempty, hp, joinNonempty]
  cases hf : parts.filter (fun p => !p.isEmpty) with
  | nil => rfl
  | cons q qs =>
    have hq : q ≠ [] := by
      have hm : q ∈ parts.filter (fun p => !p.isEmpty) := hf ▸ List.mem_cons_self
      simpa using (List.mem_filter.mp hm).2
    -- something that is not empty follows, so the join of the others is not empty
    have hne : Text.join sep (q :: qs) ≠ [] := by
      cases qs with
      | nil => exact hq
      | cons r rs =>
        rw [Text.join_cons q (List.cons_ne_nil _ _), List.append_assoc]
        exact List.append_ne_nil_of_left_ne_nil hq _
    rw [if_neg hne, Text.join_cons part (List.cons_ne_nil _ _)]

/-- **Printed blocks separated by blank lines** are read one after the other. -/
theorem prints_joinNonempty {texts : List (List Char)} {blocks : List Block}
    (h : PrintsEach texts blocks) : Prints (joinNonempty ['\n', '\n'] texts) blocks := by
  induction h with
  | nil => exact prints_nil
  | @cons text texts bs cs ht _ ih =>
    -- an empty text is left out, and so are its blocks, of which there are none
    by_cases hne : text = []
    · subst hne
      rwa [ht.eq_nil, joinNonempty_nil_cons]
    · rw [joinNonempty_cons _ hne]
      split
      · next hj =>
        rw [hj] at ih
        rwa [ih.eq_nil, List.append_nil]
      · next hj =>
        rw [List.append_assoc]
        exact ht.blank ih hj

/-! ### Items -/

/-- The blocks of an item, without the command of the item. -/
theorem prints_flatMap {texts : List (List Char)} {cs : List Block} (h : PrintsEach texts cs) :
    ∀ {first : List Char} {bs : List Block}, Prints first bs →
      Prints (first ++ (texts.filter fun b => !b.isEmpty).flatMap fun b => '\n' :: '\n' :: b)
        (bs ++ cs) := by
  induction h with
  | nil =>
    intro first bs hf
    simpa using hf
  | @cons text texts cs ds ht _ ih =>
    intro first bs hf
    -- the first text grows by one that is not empty
    by_cases hne : text = []
    · subst hne
      rw [ht.eq_nil]
      exact ih hf
    · have hfilter : (text :: texts).filter (fun b => !b.isEmpty)
          = text :: texts.filter fun b => !b.isEmpty := by
        rw [List.filter_cons_of_pos]
        simpa using hne
      rw [hfilter, List.flatMap_cons, ← List.append_assoc, ← List.append_assoc]
      exact ih (hf.blank ht hne)

/-- Apart from its command, an item has the lines of a text that prints its blocks. -/
theorem exists_prints_item {texts : List (List Char)} {blocks : List Block}
    (h : PrintsEach texts blocks) : ∃ s first behind rest, Prints s blocks ∧
      Text.splitOn '\n' s = first :: rest ∧ BehindItem first behind ∧
      Text.splitOn '\n' (printItem texts) = ("\\item".toList ++ behind) :: rest := by
  cases h with
  | nil => exact ⟨[], [], [], [], prints_nil, rfl, .inl ⟨rfl, rfl⟩, rfl⟩
  | @cons text texts bs cs ht hts =>
    have hp := prints_flatMap hts ht
    generalize htail : (texts.filter fun b => !b.isEmpty).flatMap
      (fun b => '\n' :: '\n' :: b) = tail at hp
    by_cases hne : text = []
    · -- nothing stands on the line of the command
      have hstart : ∃ rest, Text.splitOn '\n' tail = [] :: rest := by
        rw [← htail]
        cases texts.filter fun b => !b.isEmpty with
        | nil => exact ⟨[], rfl⟩
        | cons b bs => exact ⟨_, Text.splitOn_cons_sep '\n' _⟩
      obtain ⟨rest, hrest⟩ := hstart
      refine ⟨_, [], [], rest, hp, ?_, .inl ⟨rfl, rfl⟩, ?_⟩
      · rwa [hne, List.nil_append]
      · rw [hne, printItem, htail]
        exact Text.splitOn_append_of_not_mem (by decide) hrest
    · obtain ⟨first, rest, hrest⟩ :=
        List.exists_cons_of_ne_nil (Text.splitOn_ne_nil '\n' (text ++ tail))
      have hempty : ¬ text.isEmpty = true := by simpa using hne
      refine ⟨_, first, ' ' :: first, rest, hp, hrest, .inr rfl, ?_⟩
      rw [printItem, htail, if_neg hempty, List.append_assoc,
        Text.splitOn_append_of_not_mem (by decide) hrest]
      rfl

/-- **An item** is read as its blocks. -/
theorem itemOf_printItem {texts : List (List Char)} {blocks : List Block}
    (h : PrintsEach texts blocks) : ∃ content,
      ItemOf (Text.splitOn '\n' (printItem texts)) content ∧ readLines content = blocks := by
  obtain ⟨s, first, behind, rest, hs, hsplit, hb, hprint⟩ := exists_prints_item h
  have hn := hs.nested
  have hr := hs.reads.readLines
  rw [hsplit] at hn hr
  refine ⟨Text.trim first :: rest, ?_, ?_⟩
  · rw [hprint]
    exact itemOf_nested hn hb
  · rw [readLines_congr (Text.trim_trim first), hr]

/-- Each of a sequence of texts prints an item; an empty item is read as one with an empty
paragraph. -/
inductive PrintsItems : List (List Char) → List (List Block) → Prop where
  | nil : PrintsItems [] []
  | cons {texts items : List (List Char)} {blocks : List Block} {rest : List (List Block)} :
    PrintsEach texts blocks → PrintsItems items rest →
      PrintsItems (printItem texts :: items)
        ((if blocks = [] then [Block.emptyParagraph] else blocks) :: rest)

theorem PrintsItems.exists_itemOf {texts : List (List Char)} {items : List (List Block)}
    (h : PrintsItems texts items) : ∃ pairs : List (List Line × List Line),
      (∀ item ∈ pairs, ItemOf item.1 item.2) ∧
      pairs.flatMap Prod.fst = texts.flatMap (Text.splitOn '\n') ∧
      Block.normalizeItems (itemBlocks (pairs.map Prod.snd)) = items := by
  induction h with
  | nil =>
    refine ⟨[], by simp, rfl, ?_⟩
    rw [List.map_nil, itemBlocks, Block.normalizeItems]
  | cons ht _ ih =>
    obtain ⟨pairs, hpairs, hsource, hblocks⟩ := ih
    obtain ⟨content, hitem, hread⟩ := itemOf_printItem ht
    refine ⟨(_, content) :: pairs, List.forall_mem_cons.mpr ⟨hitem, hpairs⟩, ?_, ?_⟩
    · rw [List.flatMap_cons, List.flatMap_cons, hsource]
    · rw [List.map_cons, itemBlocks, Block.normalizeItems_cons, hblocks, ← hread]
      rfl

/-- **The body of a printed list** is read as its items. -/
theorem PrintsItems.itemBlocks {texts : List (List Char)} {items : List (List Block)}
    (h : PrintsItems texts items) :
    Nested true (Text.splitOn '\n' (Text.join ['\n'] texts)) ∧
      Block.normalizeItems (itemBlocks (itemLines (Text.splitOn '\n' (Text.join ['\n'] texts))))
        = items := by
  by_cases hne : texts = []
  · subst hne
    cases h
    refine ⟨.line plain_nil (fun h => absurd h (by decide)) .nil, ?_⟩
    have hl : itemLines (Text.splitOn '\n' (Text.join ['\n'] [])) = [] := by decide
    rw [hl, Latex.itemBlocks, Block.normalizeItems]
  · -- the printed items share no line, so the lines of the body are theirs
    obtain ⟨pairs, hpairs, hsource, hblocks⟩ := h.exists_itemOf
    rw [Text.splitOn_join '\n' hne, ← hsource]
    refine ⟨nested_items hpairs, ?_⟩
    rw [itemLines_items hpairs, hblocks]

/-! ### Quotes and lists -/

/-- **A quote** is read as its blocks. -/
theorem prints_quote {texts : List (List Char)} {blocks : List Block}
    (h : PrintsEach texts blocks) :
    Prints (environment "quote" [] (joinNonempty ['\n', '\n'] texts)) [.quote blocks] := by
  have hp := prints_joinNonempty h
  refine prints_environment (by decide) isArgument_nil hp.nested.of_false (.inl (by decide)) ?_
  have he (body : List Line) :
      environmentBlocks ⟨"quote".toList, [], body, []⟩ = [.quote (parseBlocks body)] := by
    rw [environmentBlocks]
    rfl
  rw [he, Block.normalizeList, Block.normalize, Block.normalizeList, ← hp.reads.readLines]
  rfl

/-- **A list** is read as its items. -/
theorem prints_list (ordered : Bool) {texts : List (List Char)} {items : List (List Block)}
    (h : PrintsItems texts items) :
    Prints (environment (if ordered then "enumerate" else "itemize") [] (Text.join ['\n'] texts))
      [.list ordered items] := by
  obtain ⟨hn, hb⟩ := h.itemBlocks
  have he (body : List Line) : environmentBlocks
      ⟨(if ordered then "enumerate" else "itemize").toList, [], body, []⟩
        = [.list ordered (itemBlocks (itemLines body))] := by
    cases ordered <;>
    · rw [environmentBlocks]
      rfl
  refine prints_environment ?_ isArgument_nil hn (.inl ?_) ?_
  · cases ordered <;> decide
  · cases ordered <;> decide
  · rw [he, Block.normalizeList, Block.normalize, Block.normalizeList, hb]

/-! ### Code -/

/-- A code text that a verbatim environment can hold. -/
structure IsCode (s : List Char) : Prop where
  unmarked : Unmarked s
  noReturn : '\r' ∉ s

/-- A language that the option of a listing can name. -/
structure IsLanguage (s : List Char) : Prop where
  nonempty : s ≠ []
  solidHead : Text.SolidHead s
  solidLast : Text.SolidLast s
  plain : ∀ c ∈ s, c ∉ ['\\', '%', ',', '[', ']', '\x7b', '\x7d', '\r', '\n']

instance (s : List Char) : Decidable (IsLanguage s) :=
  decidable_of_iff (_ ∧ _ ∧ _ ∧ _)
    ⟨fun h => ⟨h.1, h.2.1, h.2.2.1, h.2.2.2⟩, fun h => ⟨h.1, h.2, h.3, h.4⟩⟩

/-- No special character stands in the name of a language. -/
theorem IsLanguage.not_mem {s cs : List Char} (h : IsLanguage s)
    (hs : cs ⊆ ['\\', '%', ',', '[', ']', '\x7b', '\x7d', '\r', '\n']) : ∀ c ∈ s, c ∉ cs :=
  fun c hc hm => h.plain c hc (hs hm)

instance (s : List Char) : Decidable (IsCode s) :=
  decidable_of_iff (_ ∧ _) ⟨fun h => ⟨h.1, h.2⟩, fun h => ⟨h.1, h.2⟩⟩

theorem IsCode.lines {s : List Char} (h : IsCode s) : ∀ line ∈ Text.splitOn '\n' s, Plain line :=
  fun _ hl => ⟨h.unmarked.of_infix (Text.infix_of_mem_splitOn hl),
    fun hr => h.noReturn ((Text.infix_of_mem_splitOn hl).subset hr)⟩

theorem unlines_splitOn (text : String) :
    String.ofList (Text.unlines (Text.splitOn '\n' text.toList)) = text := by
  rw [Text.unlines, Text.join_splitOn, String.ofList_toList]

theorem environmentBlocks_verbatim (body : List Line) :
    environmentBlocks ⟨"verbatim".toList, [], body, []⟩
      = [.code (String.ofList (Text.unlines body)) none] := by
  rw [environmentBlocks]
  rfl

theorem prints_verbatim {text : String} (h : IsCode text.toList) :
    Prints (environment "verbatim" [] text.toList) [.code text none] := by
  refine prints_environment (by decide) isArgument_nil (nested_of_plain h.lines) (.inr h.lines) ?_
  rw [environmentBlocks_verbatim, unlines_splitOn]
  rfl

theorem trimBraces_eq_self {s : List Char} (h : ∀ c ∈ s, c ∉ ['\x7b', '\x7d']) :
    trimBraces s = s := by
  have hd {t : List Char} (ht : ∀ c ∈ t, c ∉ ['\x7b', '\x7d']) :
      t.dropWhile (fun c => c == '\x7b' || c == '\x7d') = t := by
    cases t with
    | nil => rfl
    | cons c t =>
      rw [List.dropWhile_cons_of_neg]
      simpa using ht c List.mem_cons_self
  rw [trimBraces, hd h, Text.dropRightWhile, hd, List.reverse_reverse]
  intro c hc
  exact h c (List.mem_reverse.mp hc)

/-- **The language of a listing** is read from its option. -/
theorem listingArguments_language {language : List Char} (h : IsLanguage language) :
    listingArguments "lstlisting".toList ('[' :: ("language=".toList ++ language ++ [']']))
      = (some language, []) := by
  have hclose : ∀ c ∈ "language=".toList ++ language, c ∉ ['\\', '\x7b', '\x7d', '[', ']'] :=
    List.forall_mem_append.mpr ⟨by decide, h.not_mem (by decide)⟩
  have hcut : ∀ c ∈ "language=".toList ++ language, c ∉ ['\\', '\x7b', '\x7d', ','] :=
    List.forall_mem_append.mpr ⟨by decide, h.not_mem (by decide)⟩
  have hbracket : bracketed? ('[' :: ("language=".toList ++ language ++ [']']))
      = some ("language=".toList ++ language, []) := by
    rw [bracketed?, closeBracket?_append_of_forall hclose, closeBracket?, Option.map_some,
      prependContent, List.append_nil]
  have hsplit : splitTop ',' ("language=".toList ++ language)
      = ["language=".toList ++ language] := by
    rw [splitTop, ← List.append_nil ("language=".toList ++ language),
      splitTopFrom_append_of_forall hcut, splitTopFrom, foldr_consPiece]
  -- the option is cut at its first equals sign, which stands behind the key
  have hequals : Command.splitEquals? ("language=".toList ++ language)
      = some ("language".toList, language) := rfl
  have hvalue : trimBraces (Text.trim language) = language := by
    rw [Text.trim_eq_self h.solidHead h.solidLast, trimBraces_eq_self]
    exact h.not_mem (by decide)
  have hlanguage : language? ["language=".toList ++ language] = some language := by
    rw [language?, hequals]
    dsimp only
    rw [if_pos (by decide), hvalue]
  have htrim : Text.trimLeft ('[' :: ("language=".toList ++ language ++ [']']))
      = '[' :: ("language=".toList ++ language ++ [']']) :=
    Text.trimLeft_eq_self (Text.solidHead_cons.mpr (by decide))
  rw [listingArguments, htrim, hbracket]
  dsimp only
  rw [if_pos rfl, hsplit, hlanguage]

theorem environmentBlocks_listing {language : List Char} (h : IsLanguage language)
    (body : List Line) :
    environmentBlocks ⟨"lstlisting".toList, "[language=".toList ++ language ++ [']'], body, []⟩
      = [.code (String.ofList (Text.unlines body)) (some (String.ofList language))] := by
  have hopening : "[language=".toList ++ language ++ [']']
      = '[' :: ("language=".toList ++ language ++ [']']) := rfl
  have hne : (!language.isEmpty) = true := by simpa using h.nonempty
  have hcode : Environment.code
      ⟨"lstlisting".toList, '[' :: ("language=".toList ++ language ++ [']']), body, []⟩
        = .code (String.ofList (Text.unlines body)) (some (String.ofList language)) := by
    rw [Environment.code, Environment.codeLines, Environment.language?]
    dsimp only
    rw [listingArguments_language h, Option.filter_some, if_pos hne, Option.map_some]
    rfl
  rw [environmentBlocks, hopening, ← hcode]
  rfl

/-- The option that names a language may stand behind an opening marker. -/
theorem isArgument_language {language : List Char} (h : IsLanguage language) :
    IsArgument ("[language=".toList ++ language ++ [']']) := by
  refine ⟨Text.solidLast_concat.mpr (by decide), ?_⟩
  rw [List.forall_mem_append, List.forall_mem_append]
  exact ⟨⟨by decide, h.not_mem (by decide)⟩, by decide⟩

theorem prints_listing {text language : String} (h : IsCode text.toList)
    (hl : IsLanguage language.toList) :
    Prints (environment "lstlisting" ("[language=".toList ++ language.toList ++ [']']) text.toList)
      [.code text (some language)] := by
  refine prints_environment (by decide) (isArgument_language hl) (nested_of_plain h.lines)
    (.inr h.lines) ?_
  rw [environmentBlocks_listing hl, unlines_splitOn, String.ofList_toList]
  rfl

end Interdoc.Latex
