import Interdoc.Html.Piece
import Interdoc.Proofs.Text.Lines
import Interdoc.Proofs.Text.Trim

/-!
# Tags in HTML text

`lexemes?` reads HTML text without knowing how it was written: what stands between `<` and `>` is a
tag, with attributes in quotation marks, and all else is text.  It is strict.  There is no lexeme
where one of the three characters stands for itself, so a text that was not escaped where it should
have been is either refused or gives tags that were not meant.

`openAfter?` follows the tags with a stack of open elements, on which an end tag must meet its own
start tag.  Rendered pieces are read as their own lexemes (`lexemes?_render`), so it is enough to
follow pieces: `Moves` says that pieces lead from one stack to another, and `WellNested` that they
leave every stack as it is.
-/

namespace Interdoc.Html

/-! ### Lexemes -/

/-- A lexeme of HTML text.  The values of attributes are as they are written. -/
inductive Lexeme where
  | start (tag : String) (attributes : List (String × List Char))
  | finish (tag : String)
  | char (c : Char)
  deriving DecidableEq, Repr

/-- Whether a character stands for itself neither in texts nor in the values of attributes. -/
def isReserved (c : Char) : Bool :=
  c == '<' || c == '>' || c == '"'

/-- Whether the text of a lexeme, or of its attributes, is without reserved characters. -/
def Lexeme.isEscaped : Lexeme → Bool
  | .start _ attributes => attributes.all fun a => a.2.all fun c => !isReserved c
  | .finish _ => true
  | .char c => !isReserved c

/-- Whether a text is the name of an element or attribute. -/
def isTagName (s : List Char) : Bool :=
  !s.isEmpty && s.all Char.isAlphanum

/-- The name in the part of a tag before a value, as in ` href=`. -/
def lexemeAttribute? : List Char → Option String
  | ' ' :: s =>
    match Text.stripSuffix? ['='] s with
    | some name => if isTagName name then some (String.ofList name) else none
    | none => none
  | _ => none

/-- The attributes in the parts of a tag between its quotation marks: names and values in turn, and
nothing after the last value. -/
def lexemeAttributes? : List (List Char) → Option (List (String × List Char))
  | [] => none
  | [rest] => if rest.isEmpty then some [] else none
  | name :: value :: rest =>
    match lexemeAttribute? name, lexemeAttributes? rest with
    | some name, some attributes => some ((name, value) :: attributes)
    | _, _ => none

/-- The tag with the given content. -/
def lexeme? (content : List Char) : Option Lexeme :=
  match content with
  | '/' :: name => if isTagName name then some (.finish (String.ofList name)) else none
  | _ =>
    let name := content.takeWhile Char.isAlphanum
    if isTagName name then
      (lexemeAttributes? (Text.splitOn '"' (content.dropWhile Char.isAlphanum))).map
        (.start (String.ofList name))
    else none

/-- The lexemes of HTML text, inside a tag if its content so far is given in reverse. -/
def lexemesFrom? : (inside : Option (List Char)) → List Char → Option (List Lexeme)
  | none, [] => some []
  | some _, [] => none
  | none, c :: rest =>
    if c = '<' then lexemesFrom? (some []) rest
    else if isReserved c then none
    else (lexemesFrom? none rest).map (.char c :: ·)
  | some reversed, c :: rest =>
    if c = '<' then none
    else if c = '>' then
      match lexeme? reversed.reverse, lexemesFrom? none rest with
      | some tag, some lexemes => some (tag :: lexemes)
      | _, _ => none
    else lexemesFrom? (some (c :: reversed)) rest

/-- The lexemes of HTML text, if it is written strictly. -/
def lexemes? (s : List Char) : Option (List Lexeme) :=
  lexemesFrom? none s

example : lexemes? "<p>a<br></p>".toList =
    some [.start "p" [], .char 'a', .start "br" [], .finish "p"] := by decide +kernel
example : lexemes? "<p>1 > 0</p>".toList = none := by decide +kernel

/-! ### Open elements -/

/-- The elements without content, which no end tag closes. -/
def voidTags : List String := ["br", "hr", "img"]

/-- The open elements after a lexeme, the innermost first.  An end tag has to be that of the
innermost element. -/
def Lexeme.openAfter? (opened : List String) : Lexeme → Option (List String)
  | .start tag _ => some (if voidTags.contains tag then opened else tag :: opened)
  | .finish tag =>
    match opened with
    | [] => none
    | innermost :: outer => if innermost = tag then some outer else none
  | .char _ => some opened

/-- The open elements after lexemes. -/
def openAfter? (opened : List String) (lexemes : List Lexeme) : Option (List String) :=
  lexemes.foldlM Lexeme.openAfter? opened

theorem openAfter?_append (opened : List String) (ts us : List Lexeme) :
    openAfter? opened (ts ++ us) = (openAfter? opened ts).bind (openAfter? · us) :=
  List.foldlM_append

/-! ### Pieces -/

/-- The lexemes of a piece. -/
def Piece.lexemes : Piece → List Lexeme
  | .start tag attributes => [.start tag (attributes.map fun a => (a.1, escape a.2.toList))]
  | .finish tag => [.finish tag]
  | .void tag attributes => [.start tag (attributes.map fun a => (a.1, escape a.2.toList))]
  | .text s => (escape s.toList).map .char

/-- The names in a piece are names. -/
def Piece.HasNames : Piece → Prop
  | .start tag attributes | .void tag attributes =>
    isTagName tag.toList = true ∧ ∀ a ∈ attributes, isTagName a.1.toList = true
  | .finish tag => isTagName tag.toList = true
  | .text _ => True

theorem not_isReserved_of_mem_escapeChar {c d : Char} (h : d ∈ escapeChar c) :
    isReserved d = false := by
  unfold escapeChar at h
  split at h
  case h_5 hamp hlt hgt hquot =>
    rw [List.mem_singleton] at h
    subst h
    have hlt' : d ≠ '<' := fun h => hlt h
    have hgt' : d ≠ '>' := fun h => hgt h
    have hquot' : d ≠ '"' := fun h => hquot h
    simp [isReserved, hlt', hgt', hquot']
  all_goals
    revert d
    decide

/-- **Escaping leaves no reserved character.** -/
theorem not_isReserved_of_mem_escape {s : List Char} {c : Char} (h : c ∈ escape s) :
    isReserved c = false := by
  obtain ⟨d, _, hd⟩ := List.mem_flatMap.mp h
  exact not_isReserved_of_mem_escapeChar hd

theorem not_isReserved_of_isAlphanum {c : Char} (h : c.isAlphanum = true) :
    isReserved c = false := by
  rw [isReserved, Bool.or_eq_false_iff, Bool.or_eq_false_iff]
  refine ⟨⟨?_, ?_⟩, ?_⟩
  all_goals
    rw [beq_eq_false_iff_ne]
    rintro rfl
    exact absurd h (by decide)

theorem Piece.isEscaped_of_mem_lexemes {p : Piece} {t : Lexeme} (h : t ∈ p.lexemes) :
    t.isEscaped = true := by
  have hattributes (attributes : List (String × String)) :
      ((attributes.map fun a => (a.1, escape a.2.toList)).all fun a =>
        a.2.all fun c => !isReserved c) = true := by
    simp only [List.all_map, List.all_eq_true, Function.comp_apply, Bool.not_eq_true']
    exact fun a _ c hc => not_isReserved_of_mem_escape hc
  cases p with
  | start tag attributes =>
    rw [List.mem_singleton.mp h]
    exact hattributes attributes
  | finish tag =>
    rw [List.mem_singleton.mp h]
    rfl
  | void tag attributes =>
    rw [List.mem_singleton.mp h]
    exact hattributes attributes
  | text s =>
    obtain ⟨c, hc, rfl⟩ := List.mem_map.mp h
    rw [Lexeme.isEscaped, not_isReserved_of_mem_escape hc]
    rfl

/-! ### Reading rendered pieces -/

theorem lexemesFrom?_char {c : Char} (h : isReserved c = false) (rest : List Char) :
    lexemesFrom? none (c :: rest) = (lexemesFrom? none rest).map (.char c :: ·) := by
  have hlt : c ≠ '<' := by
    rintro rfl
    exact absurd h (by decide)
  rw [lexemesFrom?, if_neg hlt, h, if_neg Bool.false_ne_true]

theorem lexemesFrom?_text {s : List Char} (h : ∀ c ∈ s, isReserved c = false) (rest : List Char) :
    lexemesFrom? none (s ++ rest) = (lexemesFrom? none rest).map (s.map .char ++ ·) := by
  induction s with
  | nil => simp
  | cons c s ih =>
    rw [List.forall_mem_cons] at h
    rw [List.cons_append, lexemesFrom?_char h.1, ih h.2, Option.map_map]
    rfl

theorem lexemesFrom?_inside {content : List Char} (h : '<' ∉ content ∧ '>' ∉ content)
    (reversed rest : List Char) : lexemesFrom? (some reversed) (content ++ '>' :: rest) =
      match lexeme? (reversed.reverse ++ content), lexemesFrom? none rest with
      | some tag, some lexemes => some (tag :: lexemes)
      | _, _ => none := by
  induction content generalizing reversed with
  | nil => rw [List.nil_append, List.append_nil, lexemesFrom?, if_neg (by decide), if_pos rfl]
  | cons c content ih =>
    obtain ⟨hlt, hgt⟩ := h
    rw [List.mem_cons, not_or] at hlt hgt
    have hcontent := ih ⟨hlt.2, hgt.2⟩ (c :: reversed)
    rw [List.reverse_cons, List.append_assoc, List.singleton_append] at hcontent
    rw [List.cons_append, lexemesFrom?, if_neg (Ne.symm hlt.1), if_neg (Ne.symm hgt.1), hcontent]

/-- A tag is read together with what follows it. -/
theorem lexemesFrom?_tag {content : List Char} {tag : Lexeme} (h : '<' ∉ content ∧ '>' ∉ content)
    (htag : lexeme? content = some tag) (rest : List Char) :
    lexemesFrom? none ('<' :: content ++ '>' :: rest) =
      (lexemesFrom? none rest).map (tag :: ·) := by
  rw [List.cons_append, lexemesFrom?, if_pos rfl, lexemesFrom?_inside h, List.reverse_nil,
    List.nil_append, htag]
  cases lexemesFrom? none rest <;> rfl

theorem lexemeAttribute?_render {name : String} (h : isTagName name.toList = true) :
    lexemeAttribute? (' ' :: name.toList ++ ['=']) = some name := by
  rw [List.cons_append, lexemeAttribute?, Text.stripSuffix?_append]
  simp only [h, if_true, String.ofList_toList]

theorem quote_not_mem_name {name : List Char} (h : isTagName name = true) : '"' ∉ name := by
  rw [isTagName, Bool.and_eq_true, List.all_eq_true] at h
  intro hmem
  exact absurd (h.2 _ hmem) (by decide)

theorem lexemeAttributes?_render {attributes : List (String × String)}
    (h : ∀ a ∈ attributes, isTagName a.1.toList = true) :
    lexemeAttributes? (Text.splitOn '"' (attributes.flatMap renderAttribute)) =
      some (attributes.map fun a => (a.1, escape a.2.toList)) := by
  induction attributes with
  | nil => rfl
  | cons a attributes ih =>
    rw [List.forall_mem_cons] at h
    have hname : '"' ∉ ' ' :: a.1.toList ++ ['='] := by
      have := quote_not_mem_name h.1
      simp only [List.cons_append, List.mem_cons, List.mem_append, List.not_mem_nil, or_false]
      rintro (hc | hc | hc)
      · exact absurd hc (by decide)
      · exact this hc
      · exact absurd hc (by decide)
    have hvalue : '"' ∉ escape a.2.toList := fun hmem =>
      absurd (not_isReserved_of_mem_escape hmem) (by decide)
    -- quotation marks stand around values only, so the pieces are names and values in turn
    have hsplit : (a :: attributes).flatMap renderAttribute =
        (' ' :: a.1.toList ++ ['=']) ++ '"' :: (escape a.2.toList ++
          '"' :: attributes.flatMap renderAttribute) := by
      simp [renderAttribute]
    rw [hsplit, Text.splitOn_append_sep, Text.splitOn_of_not_mem hname, Text.splitOn_append_sep,
      Text.splitOn_of_not_mem hvalue, List.singleton_append, List.singleton_append,
      lexemeAttributes?,
      lexemeAttribute?_render h.1, ih h.2]
    rfl

/-- The content of a start tag. -/
theorem lexeme?_start {tag : String} {attributes : List (String × String)}
    (htag : isTagName tag.toList = true) (h : ∀ a ∈ attributes, isTagName a.1.toList = true) :
    lexeme? (tag.toList ++ attributes.flatMap renderAttribute) =
      some (.start tag (attributes.map fun a => (a.1, escape a.2.toList))) := by
  have hname := htag
  rw [isTagName, Bool.and_eq_true, List.all_eq_true] at hname
  -- the name ends in front of the attributes, for these begin with a space
  have hstop : ∀ c ∈ (attributes.flatMap renderAttribute).head?, c.isAlphanum = false := by
    cases attributes with
    | nil => rintro c ⟨⟩
    | cons a attributes =>
      rintro c hc
      obtain rfl : ' ' = c := by simpa [renderAttribute] using hc
      rfl
  have htake : (tag.toList ++ attributes.flatMap renderAttribute).takeWhile Char.isAlphanum =
      tag.toList := by
    rw [List.takeWhile_append_of_pos hname.2]
    cases hrest : attributes.flatMap renderAttribute with
    | nil => rw [List.takeWhile_nil, List.append_nil]
    | cons c rest =>
      rw [hrest] at hstop
      rw [List.takeWhile_cons_of_neg (by simp [hstop c rfl]), List.append_nil]
  have hdrop : (tag.toList ++ attributes.flatMap renderAttribute).dropWhile Char.isAlphanum =
      attributes.flatMap renderAttribute := by
    rw [List.dropWhile_append_of_pos hname.2]
    cases hrest : attributes.flatMap renderAttribute with
    | nil => rfl
    | cons c rest =>
      rw [hrest] at hstop
      exact List.dropWhile_cons_of_neg (by simp [hstop c rfl])
  have hslash : ∀ name, tag.toList ++ attributes.flatMap renderAttribute ≠ '/' :: name := by
    intro name hslash
    cases hc : tag.toList with
    | nil => simp [hc] at hname
    | cons c s =>
      rw [hc, List.cons_append, List.cons.injEq] at hslash
      have := hname.2 c (by rw [hc]; exact List.mem_cons_self)
      rw [hslash.1] at this
      exact absurd this (by decide)
  rw [lexeme?]
  · simp only [htake, htag, if_true, hdrop, lexemeAttributes?_render h, Option.map_some,
      String.ofList_toList]
  · exact hslash

theorem lexeme?_finish {tag : String} (h : isTagName tag.toList = true) :
    lexeme? ('/' :: tag.toList) = some (.finish tag) := by
  rw [lexeme?, if_pos h, String.ofList_toList]

theorem not_mem_name {name : List Char} {c : Char} (h : isTagName name = true)
    (hc : isReserved c = true) : c ∉ name := by
  rw [isTagName, Bool.and_eq_true, List.all_eq_true] at h
  intro hmem
  rw [not_isReserved_of_isAlphanum (h.2 c hmem)] at hc
  cases hc

/-- There is no angle bracket within a start tag. -/
theorem not_mem_start {tag : String} {attributes : List (String × String)} {c : Char}
    (htag : isTagName tag.toList = true) (h : ∀ a ∈ attributes, isTagName a.1.toList = true)
    (hc : c = '<' ∨ c = '>') : c ∉ tag.toList ++ attributes.flatMap renderAttribute := by
  have hreserved : isReserved c = true := by
    rcases hc with rfl | rfl <;> decide
  have hother : c ≠ ' ' ∧ c ≠ '=' ∧ c ≠ '"' := by
    rcases hc with rfl | rfl <;> decide
  rw [List.mem_append, not_or]
  refine ⟨not_mem_name htag hreserved, fun hmem => ?_⟩
  obtain ⟨a, ha, hmem⟩ := List.mem_flatMap.mp hmem
  have hname := not_mem_name (h a ha) hreserved
  have hvalue : c ∉ escape a.2.toList := fun hmem => by
    rw [not_isReserved_of_mem_escape hmem] at hreserved
    cases hreserved
  simp [renderAttribute, hother, hname, hvalue] at hmem

theorem lexemesFrom?_start {tag : String} {attributes : List (String × String)}
    (htag : isTagName tag.toList = true) (h : ∀ a ∈ attributes, isTagName a.1.toList = true)
    (rest : List Char) : lexemesFrom? none (renderStart tag attributes ++ rest) =
      (lexemesFrom? none rest).map
        (.start tag (attributes.map fun a => (a.1, escape a.2.toList)) :: ·) := by
  have hcontent := lexemesFrom?_tag
    ⟨not_mem_start htag h (.inl rfl), not_mem_start htag h (.inr rfl)⟩ (lexeme?_start htag h) rest
  rw [renderStart, ← hcontent]
  simp

theorem lexemesFrom?_piece {p : Piece} (h : p.HasNames) (rest : List Char) :
    lexemesFrom? none (p.render ++ rest) = (lexemesFrom? none rest).map (p.lexemes ++ ·) := by
  cases p with
  | start tag attributes => exact lexemesFrom?_start h.1 h.2 rest
  | finish tag =>
    have hcontent : '<' ∉ '/' :: tag.toList ∧ '>' ∉ '/' :: tag.toList := by
      have hlt := not_mem_name h (show isReserved '<' = true by decide)
      have hgt := not_mem_name h (show isReserved '>' = true by decide)
      simp [hlt, hgt]
    have hread := lexemesFrom?_tag hcontent (lexeme?_finish h) rest
    rw [Piece.render, Piece.lexemes, List.append_assoc]
    exact hread
  | void tag attributes => exact lexemesFrom?_start h.1 h.2 rest
  | text s => exact lexemesFrom?_text (fun c hc => not_isReserved_of_mem_escape hc) rest

/-- **Rendered pieces are read as their own lexemes**, so no text and no value of an attribute is
read as a tag or a part of one. -/
theorem lexemes?_render {pieces : List Piece} (h : ∀ p ∈ pieces, p.HasNames) :
    lexemes? (render pieces) = some (pieces.flatMap Piece.lexemes) := by
  rw [lexemes?]
  induction pieces with
  | nil => rfl
  | cons p pieces ih =>
    rw [List.forall_mem_cons] at h
    rw [render, List.flatMap_cons, lexemesFrom?_piece h.1, ← render, ih h.2]
    rfl

/-! ### Nesting -/

/-- Pieces lead from open elements to open elements, the innermost first. -/
structure Moves (pieces : List Piece) (before after : List String) : Prop where
  names : ∀ p ∈ pieces, p.HasNames
  opened : openAfter? before (pieces.flatMap Piece.lexemes) = some after

/-- Pieces close all elements that they open, and nothing else. -/
def WellNested (pieces : List Piece) : Prop :=
  ∀ opened, Moves pieces opened opened

variable {ps qs content : List Piece} {before between after opened : List String} {tag : String}
  {attributes : List (String × String)}

theorem Moves.nil : Moves [] opened opened :=
  ⟨List.forall_mem_nil _, rfl⟩

theorem Moves.append (hp : Moves ps before between) (hq : Moves qs between after) :
    Moves (ps ++ qs) before after := by
  refine ⟨List.forall_mem_append.mpr ⟨hp.names, hq.names⟩, ?_⟩
  rw [List.flatMap_append, openAfter?_append, hp.opened]
  exact hq.opened

theorem Moves.start (htag : isTagName tag.toList = true) (hvoid : tag ∉ voidTags)
    (h : ∀ a ∈ attributes, isTagName a.1.toList = true) :
    Moves [.start tag attributes] opened (tag :: opened) := by
  refine ⟨List.forall_mem_singleton.mpr ⟨htag, h⟩, ?_⟩
  have hcontains : voidTags.contains tag = false := by simpa using hvoid
  simp only [List.flatMap_singleton, Piece.lexemes, openAfter?, List.foldlM_cons, List.foldlM_nil,
    Lexeme.openAfter?, hcontains, Bool.false_eq_true, if_false]
  rfl

theorem Moves.finish (htag : isTagName tag.toList = true) :
    Moves [.finish tag] (tag :: opened) opened := by
  refine ⟨List.forall_mem_singleton.mpr htag, ?_⟩
  simp only [List.flatMap_singleton, Piece.lexemes, openAfter?, List.foldlM_cons, List.foldlM_nil,
    Lexeme.openAfter?, if_true]
  rfl

theorem WellNested.nil : WellNested [] := fun _ => .nil

theorem WellNested.append (hp : WellNested ps) (hq : WellNested qs) : WellNested (ps ++ qs) :=
  fun opened => (hp opened).append (hq opened)

theorem WellNested.flatMap {ι : Type} {f : ι → List Piece} {is : List ι}
    (h : ∀ i ∈ is, WellNested (f i)) : WellNested (is.flatMap f) := by
  induction is with
  | nil => exact .nil
  | cons i is ih =>
    rw [List.forall_mem_cons] at h
    exact h.1.append (ih h.2)

theorem wellNested_text (s : String) : WellNested [.text s] := by
  intro opened
  refine ⟨List.forall_mem_singleton.mpr trivial, ?_⟩
  rw [List.flatMap_singleton, Piece.lexemes, openAfter?]
  induction escape s.toList with
  | nil => rfl
  | cons c s ih => exact ih

theorem wellNested_void (htag : tag ∈ voidTags)
    (h : ∀ a ∈ attributes, isTagName a.1.toList = true) :
    WellNested [.void tag attributes] := by
  intro opened
  have hname : ∀ tag ∈ voidTags, isTagName tag.toList = true := by decide
  refine ⟨List.forall_mem_singleton.mpr ⟨hname tag htag, h⟩, ?_⟩
  have hcontains : voidTags.contains tag = true := by simpa using htag
  simp only [List.flatMap_singleton, Piece.lexemes, openAfter?, List.foldlM_cons, List.foldlM_nil,
    Lexeme.openAfter?, hcontains, if_true]
  rfl

/-- An element with well nested content. -/
theorem wellNested_element (htag : isTagName tag.toList = true) (hvoid : tag ∉ voidTags)
    (h : ∀ a ∈ attributes, isTagName a.1.toList = true) (hcontent : WellNested content) :
    WellNested (.start tag attributes :: content ++ [.finish tag]) := by
  intro opened
  rw [← List.singleton_append, List.append_assoc]
  exact (Moves.start htag hvoid h).append ((hcontent (tag :: opened)).append (.finish htag))

end Interdoc.Html
