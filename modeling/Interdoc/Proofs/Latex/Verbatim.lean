import Interdoc.Proofs.Document.Normal
import Interdoc.Proofs.Latex.RoundTrip

/-!
# Verbatim code

A verbatim environment ends at the first marker that closes it, whatever else is in its body, so
that code without that marker is read back (`reads_code`).

The environments around a verbatim environment know nothing about its body: a quote counts the
markers of quotes in it, and a list the markers of all environments.  So a quote can end inside the
code that it holds (`parse_print_quotedMarker`).  Code in which every environment that is opened is
closed again can stand in quotes and lists, nested in any way (`parse_print_code`).
-/

namespace Interdoc.Latex

/-! ### Collecting code -/

/-- The body of a verbatim environment is kept: there is no marker in it that closes the
environment. -/
structure IsKept (name s : List Char) : Prop where
  unclosed : ¬ closingMarker name <:+: s
  noReturn : '\r' ∉ s

instance (name s : List Char) : Decidable (IsKept name s) :=
  decidable_of_iff (_ ∧ _) ⟨fun h => ⟨h.1, h.2⟩, fun h => ⟨h.1, h.2⟩⟩

variable {name arguments : List Char}

/-- **A verbatim environment** is collected up to its closing marker. -/
theorem collect_verbatim (hv : isVerbatim name = true)
    (ha : scanClose name 0 0 arguments = .stillOpen 0) {body : List Line}
    (hb : ∀ line ∈ body, ¬ closingMarker name <:+: line) (lines : List Line) :
    collect name arguments (body ++ closingMarker name :: lines)
      = (⟨name, arguments, body, []⟩, lines) := by
  refine collect_of_append ha (fun tail => ?_) lines
  induction body with
  | nil => rfl
  | cons line body ih =>
    rw [List.forall_mem_cons] at hb
    rw [List.cons_append, collectBody_cons (scanClose_of_isVerbatim hv hb.1 0), ih hb.2,
      Collected.prepend_prepend]
    rfl

/-! ### Reading code -/

/-- The environment that code is printed in. -/
def codeName : Option String → String
  | none => "verbatim"
  | some _ => "lstlisting"

/-- What stands behind the opening marker of code. -/
def codeArguments : Option String → List Char
  | none => []
  | some language => "[language=".toList ++ language.toList ++ [']']

theorem printBlock_code (text : String) (language : Option String) :
    printBlock (.code text language) =
      environment (codeName language) (codeArguments language) text.toList := by
  cases language <;> rw [printBlock] <;> rfl

theorem codeName_spec (language : Option String) :
    IsName (codeName language).toList ∧ isVerbatim (codeName language).toList = true := by
  have hnames : ∀ name ∈ ["verbatim", "lstlisting"],
      IsName name.toList ∧ isVerbatim name.toList = true := by
    decide
  cases language
  · exact hnames "verbatim" (by simp)
  · exact hnames "lstlisting" (by simp)

variable {text : String} {language : Option String}

theorem isArgument_codeArguments (h : ∀ l ∈ language, IsLanguage l.toList) :
    IsArgument (codeArguments language) := by
  cases language with
  | none => exact isArgument_nil
  | some l => exact isArgument_language (h l rfl)

theorem environmentBlocks_code (h : ∀ l ∈ language, IsLanguage l.toList) :
    environmentBlocks ⟨(codeName language).toList, codeArguments language,
      Text.splitOn '\n' text.toList, []⟩ = [.code text language] := by
  cases language with
  | none => exact (environmentBlocks_verbatim _).trans (by rw [unlines_splitOn])
  | some l =>
    refine (environmentBlocks_listing (h l rfl) _).trans ?_
    rw [unlines_splitOn, String.ofList_toList]

/-- **Code is read back**, whatever is in it apart from its own closing marker. -/
theorem reads_code (h : IsKept (codeName language).toList text.toList)
    (hl : ∀ l ∈ language, IsLanguage l.toList) :
    Reads (Text.splitOn '\n' (printBlock (.code text language))) [.code text language] := by
  obtain ⟨hn, hv⟩ := codeName_spec language
  have ha := isArgument_codeArguments hl
  have hbody : ∀ line ∈ Text.splitOn '\n' text.toList,
      ¬ closingMarker (codeName language).toList <:+: line := fun line hline hi =>
    h.unclosed (hi.trans (Text.infix_of_mem_splitOn hline))
  rw [printBlock_code, splitOn_environment hn ha.noLineFeed]
  change Reads _ (Block.normalizeList [.code text language])
  rw [← environmentBlocks_code hl]
  refine reads_environment fun rest => ?_
  rw [List.cons_append, List.append_assoc]
  have hopen := scanClose_of_unmarked ha.isPlain.unmarked (codeName language).toList 0
  exact segments_collected hn ha (collect_verbatim hv hopen hbody rest)

/-! ### Whole texts -/

/-- A text is read as blocks on its own. -/
structure ReadsText (source : List Char) (blocks : List Block) : Prop where
  reads : Reads (Text.splitOn '\n' source) blocks
  noReturn : '\r' ∉ source
  last : source.getLast? ≠ some '\n'

theorem Prints.readsText {source : List Char} {blocks : List Block} (h : Prints source blocks) :
    ReadsText source blocks :=
  ⟨h.reads, h.noReturn, h.last⟩

theorem ReadsText.eq_nil {blocks : List Block} (h : ReadsText [] blocks) : blocks = [] := by
  rw [← h.reads.readLines, Text.splitOn, readLines_blank rfl, readLines_nil]

/-- Texts are read one after the other if there is a blank line between them. -/
theorem ReadsText.blank {s t : List Char} {bs cs : List Block} (hs : ReadsText s bs)
    (ht : ReadsText t cs) (hne : t ≠ []) : ReadsText (s ++ '\n' :: '\n' :: t) (bs ++ cs) := by
  constructor
  · rw [Text.splitOn_append_sep, Text.splitOn_cons_sep]
    exact hs.reads.blank ht.reads
  · simp only [List.mem_append, List.mem_cons, not_or]
    exact ⟨hs.noReturn, by decide, by decide, ht.noReturn⟩
  · rw [List.getLast?_append_of_ne_nil _ (List.cons_ne_nil _ _),
      List.getLast?_cons_of_ne_nil (List.cons_ne_nil _ _), List.getLast?_cons_of_ne_nil hne]
    exact ht.last

theorem joinNonempty_append (sep : List Char) (xs ys : List (List Char)) :
    joinNonempty sep (xs ++ ys) =
      if joinNonempty sep xs = [] then joinNonempty sep ys
      else if joinNonempty sep ys = [] then joinNonempty sep xs
      else joinNonempty sep xs ++ sep ++ joinNonempty sep ys := by
  induction xs with
  | nil => rfl
  | cons x xs ih =>
    by_cases hx : x = []
    · rw [hx, List.cons_append, joinNonempty_nil_cons, joinNonempty_nil_cons, ih]
    · have hne : ∀ t : List Char, x ++ t ≠ [] := fun t h => hx (List.append_eq_nil_iff.mp h).1
      rw [List.cons_append, joinNonempty_cons sep hx, joinNonempty_cons sep hx, ih]
      split_ifs <;> simp_all

theorem joinNonempty_singleton (sep part : List Char) : joinNonempty sep [part] = part := by
  by_cases h : part = []
  · rw [h]
    rfl
  · rw [joinNonempty_cons sep h]
    exact if_pos rfl

/-- What is printed of two sequences of blocks is read as the one and then the other. -/
theorem ReadsText.append {xs ys : List (List Char)} {bs cs : List Block}
    (hx : ReadsText (joinNonempty ['\n', '\n'] xs) bs)
    (hy : ReadsText (joinNonempty ['\n', '\n'] ys) cs) :
    ReadsText (joinNonempty ['\n', '\n'] (xs ++ ys)) (bs ++ cs) := by
  rw [joinNonempty_append]
  split_ifs with hxs hys
  · rw [hxs] at hx
    rwa [hx.eq_nil]
  · rw [hys] at hy
    rwa [hy.eq_nil, List.append_nil]
  · rw [List.append_assoc]
    exact hx.blank hy hys

theorem getLast?_environment (name : String) (arguments body : List Char) :
    (environment name arguments body).getLast? = some '\x7d' := by
  have hlast : environment name arguments body = (openingMarker name.toList ++ arguments ++
      '\n' :: body ++ '\n' :: ("\\end\x7b".toList ++ name.toList)) ++ ['\x7d'] := by
    rw [environment, command_begin, command_end, closingMarker]
    simp only [List.append_assoc, List.cons_append]
  rw [hlast, List.getLast?_concat]

theorem noReturn_markers (h : IsName name) :
    '\r' ∉ openingMarker name ∧ '\r' ∉ closingMarker name := by
  have hname : '\r' ∉ name := fun hc => absurd (h.2 _ hc) (by decide)
  unfold openingMarker closingMarker
  simp only [List.mem_append, not_or]
  exact ⟨⟨⟨by decide, hname⟩, by decide⟩, ⟨by decide, hname⟩, by decide⟩

/-- Without carriage returns in its arguments and its body an environment has none. -/
theorem noReturn_environment {name : String} {body : List Char} (hn : IsName name.toList)
    (ha : '\r' ∉ arguments) (hb : '\r' ∉ body) : '\r' ∉ environment name arguments body := by
  obtain ⟨hopening, hclosing⟩ := noReturn_markers hn
  rw [environment, command_begin, command_end]
  simp only [List.mem_append, List.mem_cons, not_or]
  exact ⟨⟨⟨hopening, ha⟩, by decide, hb⟩, by decide, hclosing⟩

section

variable (h : IsKept (codeName language).toList text.toList)
  (hl : ∀ l ∈ language, IsLanguage l.toList)

include h hl

theorem readsText_code : ReadsText (printBlock (.code text language)) [.code text language] := by
  refine ⟨reads_code h hl, ?_, ?_⟩
  · rw [printBlock_code]
    exact noReturn_environment (codeName_spec language).1
      (isArgument_codeArguments hl).isPlain.noReturn h.noReturn
  · rw [printBlock_code, getLast?_environment]
    decide

/-- **Code in which environments are closed** can stand in other environments. -/
theorem prints_code (hnested : Nested true (Text.splitOn '\n' text.toList)) :
    Prints (printBlock (.code text language)) [.code text language] := by
  obtain ⟨hreads, -, hlast⟩ := readsText_code h hl
  have hn := (codeName_spec language).1
  have ha := isArgument_codeArguments hl
  refine ⟨?_, hreads, hlast⟩
  rw [printBlock_code, splitOn_environment hn ha.noLineFeed]
  exact .environment (.inl rfl) hn ha.isPlain ha.solid hnested .nil

end

/-! ### Surroundings -/

/-- What is directly around a block: the quote or the item that it stands in, with the blocks before
and after it there and the items before and after that item. -/
inductive Surrounding where
  | quote (before after : List Block)
  | item (ordered : Bool) (itemsBefore : List (List Block)) (before after : List Block)
      (itemsAfter : List (List Block))

namespace Surrounding

/-- The block that is made of another one by putting it in its place. -/
def fill : Surrounding → Block → Block
  | .quote before after, b => .quote (before ++ b :: after)
  | .item ordered itemsBefore before after itemsAfter, b =>
    .list ordered (itemsBefore ++ (before ++ b :: after) :: itemsAfter)

/-- All that is around the block keeps its form. -/
def Fits : Surrounding → Prop
  | .quote before after => ExpressibleList before ∧ ExpressibleList after
  | .item _ itemsBefore before after itemsAfter => ExpressibleItems itemsBefore ∧
      ExpressibleList before ∧ ExpressibleList after ∧ ExpressibleItems itemsAfter

instance (w : Surrounding) : Decidable w.Fits :=
  match w with
  | .quote before after =>
    have := decExpressibleList before
    have := decExpressibleList after
    inferInstanceAs (Decidable (ExpressibleList before ∧ ExpressibleList after))
  | .item _ itemsBefore before after itemsAfter =>
    have := decExpressibleItems itemsBefore
    have := decExpressibleList before
    have := decExpressibleList after
    have := decExpressibleItems itemsAfter
    inferInstanceAs (Decidable (ExpressibleItems itemsBefore ∧ ExpressibleList before ∧
      ExpressibleList after ∧ ExpressibleItems itemsAfter))

end Surrounding

/-- A block in several surroundings, the outermost first. -/
def surround (ws : List Surrounding) (b : Block) : Block :=
  ws.foldr Surrounding.fill b

theorem printEach_append (xs ys : List Block) :
    printEach (xs ++ ys) = printEach xs ++ printEach ys := by
  induction xs with
  | nil => rfl
  | cons x xs ih => rw [List.cons_append, printEach, printEach, ih, List.cons_append]

theorem printItems_append (xs ys : List (List Block)) :
    printItems (xs ++ ys) = printItems xs ++ printItems ys := by
  induction xs with
  | nil => rfl
  | cons x xs ih => rw [List.cons_append, printItems, printItems, ih, List.cons_append]

theorem PrintsEach.append {xs ys : List (List Char)} {bs cs : List Block} (hx : PrintsEach xs bs)
    (hy : PrintsEach ys cs) : PrintsEach (xs ++ ys) (bs ++ cs) := by
  induction hx with
  | nil => exact hy
  | cons ht _ ih =>
    rw [List.append_assoc]
    exact .cons ht ih

theorem PrintsItems.append {xs ys : List (List Char)} {is js : List (List Block)}
    (hx : PrintsItems xs is) (hy : PrintsItems ys js) : PrintsItems (xs ++ ys) (is ++ js) := by
  induction hx with
  | nil => exact hy
  | cons ht _ ih => exact .cons ht ih

/-- Expressible blocks are printed so that they are read back. -/
theorem printsEach_expressible {bs : List Block} (h : ExpressibleList bs)
    (hn : Block.IsNormalList bs) : PrintsEach (printEach bs) bs := by
  have hp := printsEach bs (printableList_of_expressible h)
  rwa [imageList_eq_self h (Block.normalizeList_eq_self hn)] at hp

theorem printsItems_expressible {items : List (List Block)} (h : ExpressibleItems items)
    (hn : Block.IsNormalItems items) : PrintsItems (printItems items) items := by
  have hp := printsItems items (printableItems_of_expressible h)
  rwa [imageItems_eq_self h (Block.normalizeItems_eq_self hn)] at hp

/-- A block that is read back can stand between expressible ones. -/
theorem printsEach_between {before after : List Block} {b : Block}
    (hbefore : ExpressibleList before) (hafter : ExpressibleList after)
    (hn : Block.IsNormalList (before ++ b :: after)) (h : Prints (printBlock b) [b]) :
    PrintsEach (printEach (before ++ b :: after)) (before ++ b :: after) := by
  rw [Block.isNormalList_iff, List.forall_mem_append, List.forall_mem_cons] at hn
  rw [printEach_append, printEach]
  exact (printsEach_expressible hbefore (Block.isNormalList_iff.mpr hn.1)).append
    (.cons h (printsEach_expressible hafter (Block.isNormalList_iff.mpr hn.2.2)))

/-- A filled surrounding is in normal form only if its block is. -/
theorem Surrounding.isNormal_of_fill {w : Surrounding} {b : Block} (h : (w.fill b).IsNormal) :
    b.IsNormal := by
  cases w with
  | quote before after =>
    have hblocks := Block.isNormalList_iff.mp h
    exact hblocks b (by simp)
  | item ordered itemsBefore before after itemsAfter =>
    have hitems := Block.isNormalItems_iff.mp h (before ++ b :: after) (by simp)
    exact Block.isNormalList_iff.mp hitems.2 b (by simp)

/-- **A block that is read back is read back in every surrounding.** -/
theorem prints_fill {w : Surrounding} (hw : w.Fits) {b : Block} (hn : (w.fill b).IsNormal)
    (h : Prints (printBlock b) [b]) : Prints (printBlock (w.fill b)) [w.fill b] := by
  cases w with
  | quote before after => exact prints_quote (printsEach_between hw.1 hw.2 hn h)
  | item ordered itemsBefore before after itemsAfter =>
    obtain ⟨hib, hb, ha, hia⟩ := hw
    have hitems := Block.isNormalItems_iff.mp hn
    rw [List.forall_mem_append, List.forall_mem_cons] at hitems
    obtain ⟨hnib, ⟨-, hnitem⟩, hnia⟩ := hitems
    refine prints_list ordered ?_
    rw [printItems_append, printItems]
    have hitem := PrintsItems.cons (printsEach_between hb ha hnitem h)
      (printsItems_expressible hia (Block.isNormalItems_iff.mpr hnia))
    rw [if_neg (by simp)] at hitem
    exact (printsItems_expressible hib (Block.isNormalItems_iff.mpr hnib)).append hitem

theorem prints_surround {ws : List Surrounding} (hws : ∀ w ∈ ws, w.Fits) {b : Block}
    (hn : (surround ws b).IsNormal) (h : Prints (printBlock b) [b]) :
    Prints (printBlock (surround ws b)) [surround ws b] := by
  induction ws with
  | nil => exact h
  | cons w ws ih =>
    rw [List.forall_mem_cons] at hws
    exact prints_fill hws.1 hn (ih hws.2 (Surrounding.isNormal_of_fill hn))

/-! ### Documents -/

/-- **Code is opaque where nothing is around it, and where the environments in it are closed.**
Code that does not hold its own closing marker is read back from between the blocks of a document;
if each environment that it opens is closed in it, it is also read back from quotes and lists that
are nested around it in any way. -/
theorem parse_print_code (h : IsKept (codeName language).toList text.toList)
    (hl : ∀ l ∈ language, IsLanguage l.toList) {ws : List Surrounding} (hws : ∀ w ∈ ws, w.Fits)
    (hnested : ws = [] ∨ Nested true (Text.splitOn '\n' text.toList)) {before after : List Block}
    (hbefore : ExpressibleList before) (hafter : ExpressibleList after)
    (hn : (Document.mk (before ++ surround ws (.code text language) :: after)).normalize =
      ⟨before ++ surround ws (.code text language) :: after⟩) :
    parse (print {} ⟨before ++ surround ws (.code text language) :: after⟩) =
      ⟨before ++ surround ws (.code text language) :: after⟩ := by
  have hnormal := (Document.isNormal_iff _).mpr hn
  rw [Document.IsNormal, Block.isNormalList_iff, List.forall_mem_append, List.forall_mem_cons]
    at hnormal
  obtain ⟨hnbefore, hncode, hnafter⟩ := hnormal
  -- at the top the closing marker alone ends the code; further in, the marks must balance
  have hcode : ReadsText (printBlock (surround ws (.code text language)))
      [surround ws (.code text language)] := by
    rcases hnested with rfl | hnested
    · exact readsText_code h hl
    · exact (prints_surround hws hncode (prints_code h hl hnested)).readsText
  have hbetween : ReadsText
      (printBlocks (before ++ surround ws (.code text language) :: after))
      (before ++ surround ws (.code text language) :: after) := by
    rw [printBlocks, printEach_append]
    refine (prints_joinNonempty (printsEach_expressible hbefore
      (Block.isNormalList_iff.mpr hnbefore))).readsText.append ?_
    have hsingle : joinNonempty ['\n', '\n'] [printBlock (surround ws (.code text language))] =
        printBlock (surround ws (.code text language)) := joinNonempty_singleton _ _
    exact ReadsText.append (hsingle.symm ▸ hcode) (prints_joinNonempty
      (printsEach_expressible hafter (Block.isNormalList_iff.mpr hnafter))).readsText
  exact parse_of_reads hbetween.reads hbetween.noReturn hbetween.last

/-- Code that is a list in LaTeX. -/
def listCode : String := "\\begin\x7bitemize\x7d\n\\item a\n\\end\x7bitemize\x7d"

/-- An item in a quote, with other blocks around the code in it. -/
def quotedItem : List Surrounding :=
  [.quote [.rule] [.paragraph [.text "z"]],
    .item true [[.emptyParagraph]] [.paragraph [.text "x"]] [.code "y" none] []]

theorem parse_print_listCode :
    (IsKept (codeName none).toList listCode.toList ∧ (∀ w ∈ quotedItem, w.Fits) ∧
      Nested true (Text.splitOn '\n' listCode.toList) ∧
      parse (print {} ⟨[surround quotedItem (.code listCode none), .rule]⟩) =
        ⟨[surround quotedItem (.code listCode none), .rule]⟩) ∧
    IsKept (codeName (some "tex")).toList "\\end\x7bquote\x7d".toList ∧
      parse (print {} ⟨[.code "\\end\x7bquote\x7d" (some "tex")]⟩) =
        ⟨[.code "\\end\x7bquote\x7d" (some "tex")]⟩ := by
  have hnested : Nested true (Text.splitOn '\n' listCode.toList) := by
    have hlines : Text.splitOn '\n' listCode.toList =
        ([] ++ openingMarker "itemize".toList ++ []) :: ["\\item a".toList] ++
          closingMarker "itemize".toList :: [] := by
      decide
    have hitem : Plain "\\item a".toList := ⟨by decide, by decide⟩
    rw [hlines]
    exact .environment (.inl rfl) (by decide) plain_nil (by decide)
      (nested_of_plain (List.forall_mem_singleton.mpr hitem)) .nil
  have hkept : IsKept (codeName none).toList listCode.toList := by decide
  have hfits : ∀ w ∈ quotedItem, w.Fits := by decide
  have hclosing : IsKept (codeName (some "tex")).toList "\\end\x7bquote\x7d".toList := by decide
  have hlanguage : ∀ l ∈ some "tex", IsLanguage l.toList := by decide
  have hnone : ∀ l ∈ (none : Option String), IsLanguage l.toList := fun l hl => nomatch hl
  have hrule : ExpressibleList [.rule] := ⟨trivial, trivial⟩
  have hnil : ExpressibleList [] := trivial
  have hlist : parse (print {} ⟨[] ++ surround quotedItem (.code listCode none) :: [.rule]⟩) =
      ⟨[] ++ surround quotedItem (.code listCode none) :: [.rule]⟩ :=
    parse_print_code hkept hnone hfits (.inr hnested) hnil hrule (by decide)
  have hsingle : parse (print {}
      ⟨[] ++ surround [] (.code "\\end\x7bquote\x7d" (some "tex")) :: []⟩) =
      ⟨[] ++ surround [] (.code "\\end\x7bquote\x7d" (some "tex")) :: []⟩ :=
    parse_print_code hclosing hlanguage (List.forall_mem_nil _) (.inl rfl) hnil hnil (by decide)
  exact ⟨⟨hkept, hfits, hnested, hlist⟩, hclosing, hsingle⟩

/-! ### Code that is not opaque -/

/-- A quote with code that closes a quote. -/
def quotedMarker : Document := ⟨[.quote [.code "\\end\x7bquote\x7d" none]]⟩

/-- The environment ends in the code, so what is behind that is not part of the quote. -/
theorem segments_quotedMarker : segments (Text.lines (print {} quotedMarker)) =
    [.environment ⟨"quote".toList, [], ["\\begin\x7bverbatim\x7d".toList], []⟩,
      .text "\\end\x7bverbatim\x7d".toList, .text "\\end\x7bquote\x7d".toList] := by
  have hcollect : collect "quote".toList [] (["\\begin\x7bverbatim\x7d".toList] ++
      closingMarker "quote".toList ::
        ["\\end\x7bverbatim\x7d".toList, "\\end\x7bquote\x7d".toList]) =
      (⟨"quote".toList, [], ["\\begin\x7bverbatim\x7d".toList], []⟩,
        ["\\end\x7bverbatim\x7d".toList, "\\end\x7bquote\x7d".toList]) := rfl
  have htext : ∀ rest, ∀ line ∈ ["\\end\x7bverbatim\x7d".toList, "\\end\x7bquote\x7d".toList],
      segments (line :: rest) = .text line :: segments rest := by
    intro rest line hline
    have hspec : ∀ line ∈ ["\\end\x7bverbatim\x7d".toList, "\\end\x7bquote\x7d".toList],
        Text.trim line = line ∧ line ≠ [] ∧ stripComment line = line ∧
          startsBlock line = false := by
      decide
    obtain ⟨htrim, hne, hcomment, hstarts⟩ := hspec line hline
    exact segments_trimmed htrim hne hcomment hstarts rest
  have hlines : Text.lines (print {} quotedMarker) = (openingMarker "quote".toList ++ []) ::
      (["\\begin\x7bverbatim\x7d".toList] ++ closingMarker "quote".toList ::
        ["\\end\x7bverbatim\x7d".toList, "\\end\x7bquote\x7d".toList]) := by decide
  rw [hlines, segments_collected (by decide) isArgument_nil hcollect, htext _ _ (by simp),
    htext _ _ (by simp), segments]

theorem parseBlocks_openVerbatim : parseBlocks ["\\begin\x7bverbatim\x7d".toList] =
    [.code "" none] := by
  have hsegments : segments ["\\begin\x7bverbatim\x7d".toList] =
      [.environment ⟨"verbatim".toList, [], [], []⟩] := by
    have hnone : segments [] = [] := by rw [segments]
    rw [segments, if_neg (by decide), if_neg (by decide)]
    exact congrArg (Segment.environment ⟨"verbatim".toList, [], [], []⟩ :: ·) hnone
  rw [parseBlocks, hsegments, assemble, environmentBlocks_verbatim, assemble]
  rfl

/-- **A quote ends in the code that it holds**, if the code closes a quote. -/
theorem parse_print_quotedMarker :
    IsKept "verbatim".toList "\\end\x7bquote\x7d".toList ∧
      quotedMarker.normalize = quotedMarker ∧
      parse (print {} quotedMarker) = ⟨[.quote [.code "" none],
        .paragraph [.text "\\end\x7bverbatim\x7d \\end\x7bquote\x7d"]]⟩ ∧
      parse (print {} quotedMarker) ≠ quotedMarker := by
  have hquote : environmentBlocks ⟨"quote".toList, [], ["\\begin\x7bverbatim\x7d".toList], []⟩ =
      [.quote [.code "" none]] := by
    rw [← parseBlocks_openVerbatim, environmentBlocks]
    rfl
  have hparse : parse (print {} quotedMarker) = ⟨[.quote [.code "" none],
        .paragraph [.text "\\end\x7bverbatim\x7d \\end\x7bquote\x7d"]]⟩ := by
    rw [parse_eq, readLines, parseBlocks, segments_quotedMarker, assemble, hquote, assemble,
      assemble, assemble]
    decide +kernel
  refine ⟨by decide, by decide, hparse, ?_⟩
  rw [hparse]
  decide

end Interdoc.Latex
