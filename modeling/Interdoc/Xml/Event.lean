import Interdoc.Text.Blank
import Interdoc.Xml.Tag

/-!
# Events

`Xml.events` reads a text as a sequence of events: start tags, empty element tags, end tags, texts,
character data, and all the markup that denotes nothing.  Reading stops at the first fault, which
comes with the events before it.

Every end tag must name the element that was opened last.  Texts and attributes are left as they
stand; their references are replaced when they are put to use.
-/

namespace Interdoc.Xml

/-- A piece of an XML text. -/
inductive Event where
  | start (tag : Tag)
  | empty (tag : Tag)
  | finish (name : List Char)
  | text (raw : List Char)
  | data (s : List Char)
  /-- A declaration, comment, processing instruction or document type. -/
  | other
  deriving DecidableEq, Repr

/-! ### Ends of markup -/

/-- The content of a tag, up to the first closing bracket outside quotes, and what follows the
bracket. -/
def splitTag : (quote : Option Char) → List Char → Option (List Char × List Char)
  | _, [] => none
  | none, c :: s =>
    if c = '>' then some ([], s)
    else
      (splitTag (if c = '"' || c = '\'' then some c else none) s).map
        fun (a, rest) => (c :: a, rest)
  | some q, c :: s =>
    (splitTag (if c = q then none else some q) s).map fun (a, rest) => (c :: a, rest)

/-- The text before the first closing bracket at which the test holds of that text, and what follows
the bracket.  The test is given the text in reverse, and so is the part read so far. -/
def splitAtBracket (test : List Char → Bool) (seen : List Char) :
    List Char → Option (List Char × List Char)
  | [] => none
  | c :: s =>
    if c = '>' && test seen then some (seen.reverse, s) else splitAtBracket test (c :: seen) s

/-- Whether a comment may end here. -/
def endsComment (seen : List Char) : Bool :=
  4 < seen.length && Text.startsWith ['-', '-'] seen

/-- Whether a section of character data may end here. -/
def endsData (seen : List Char) : Bool :=
  Text.startsWith [']', ']'] seen

/-- Whether a document type may end here: the brackets inside it are balanced. -/
def endsDoctype (seen : List Char) : Bool :=
  seen.count '<' == seen.count '>'

/-- Whether a processing instruction may end here. -/
def endsInstruction (seen : List Char) : Bool :=
  Text.startsWith ['?'] seen

/-! ### Markup -/

/-- An event and the text after it. -/
abbrev Step := Except Fault (Event × List Char)

/-- The comment, character data or document type at the exclamation mark. -/
def readBang (s : List Char) : Step :=
  match s with
  | _ :: '[' :: _ =>
    match splitAtBracket endsData [] s with
    | none => .error .unclosedData
    | some (content, rest) =>
      match Text.stripPrefix? "![CDATA[".toList content with
      | some body => .ok (.data (body.take (body.length - 2)), rest)
      | none => .error .unclosedData
  | _ :: '-' :: _ =>
    match splitAtBracket endsComment [] s with
    | none => .error .unclosedComment
    | some (content, rest) =>
      if Text.startsWith "!--".toList content then .ok (.other, rest) else .error .unclosedComment
  | _ :: d :: _ =>
    if d = 'D' || d = 'd' then
      match splitAtBracket endsDoctype [] s with
      | none => .error .unclosedDoctype
      | some (content, rest) =>
        if Text.toLower (content.take 8) = "!doctype".toList then
          if (content.drop 8).all isSpace then .error .doctypeWithoutName else .ok (.other, rest)
        else .error .unclosedDoctype
    else .error .unknownMarkup
  | _ => .error .unknownMarkup

/-- The processing instruction at the question mark. -/
def readInstruction (s : List Char) : Step :=
  match splitAtBracket endsInstruction [] s with
  | none => .error .unclosedInstruction
  | some (content, rest) =>
    if content.length < 2 then .error .unclosedInstruction else .ok (.other, rest)

/-- The name in the content of an end tag: what follows the slash, without blanks at the end. -/
def endName (content : List Char) : List Char :=
  let name := Text.dropRightWhile isSpace (content.drop 1)
  if name.isEmpty then content.drop 1 else name

/-- The end tag at the slash, where the given names are open. -/
def readFinish (opened : List (List Char)) (s : List Char) : Step :=
  match splitTag none s with
  | none => .error .unclosedTag
  | some (content, rest) =>
    match opened with
    | [] => .error (.unmatchedEnd (endName content))
    | expected :: _ =>
      if endName content = expected then .ok (.finish expected, rest)
      else .error (.mismatchedEnd expected (endName content))

/-- The start tag or empty element tag whose name begins the text. -/
def readStart (s : List Char) : Step :=
  match splitTag none s with
  | none => .error .unclosedTag
  | some (content, rest) =>
    match Text.stripSuffix? ['/'] content with
    | some content => .ok (.empty ⟨content⟩, rest)
    | none => .ok (.start ⟨content⟩, rest)

/-- The markup after an opening bracket, where the given names are open. -/
def readMarkup (opened : List (List Char)) (s : List Char) : Step :=
  match s with
  | [] => .error .unclosedTag
  | c :: _ =>
    if c = '!' then readBang s
    else if c = '/' then readFinish opened s
    else if c = '?' then readInstruction s
    else readStart s

/-- The names that are open after an event. -/
def Event.openAfter (opened : List (List Char)) : Event → List (List Char)
  | .start tag => tag.name :: opened
  | .finish _ => opened.drop 1
  | _ => opened

/-! ### Sizes

What follows a piece of markup is shorter than the text it is read from. -/

theorem length_splitTag {quote : Option Char} {s content rest : List Char}
    (h : splitTag quote s = some (content, rest)) : rest.length < s.length := by
  fun_induction splitTag quote s generalizing content rest <;>
    simp_all [Option.map_eq_some_iff, Prod.ext_iff] <;> grind

theorem length_splitAtBracket {test : List Char → Bool} {seen s content rest : List Char}
    (h : splitAtBracket test seen s = some (content, rest)) : rest.length < s.length := by
  fun_induction splitAtBracket test seen s <;> simp_all
  grind

theorem length_readBang {s rest : List Char} {e : Event} (h : readBang s = .ok (e, rest)) :
    rest.length < s.length := by
  unfold readBang at h
  split at h
  · split at h
    · simp at h
    · next hs =>
      split at h
      · simp only [Except.ok.injEq, Prod.mk.injEq] at h
        exact h.2 ▸ length_splitAtBracket hs
      · simp at h
  · split at h
    · simp at h
    · next hs =>
      split at h
      · simp only [Except.ok.injEq, Prod.mk.injEq] at h
        exact h.2 ▸ length_splitAtBracket hs
      · simp at h
  · split at h
    · split at h
      · simp at h
      · next hs =>
        split at h
        · split at h
          · simp at h
          · simp only [Except.ok.injEq, Prod.mk.injEq] at h
            exact h.2 ▸ length_splitAtBracket hs
        · simp at h
    · simp at h
  · simp at h

theorem length_readInstruction {s rest : List Char} {e : Event}
    (h : readInstruction s = .ok (e, rest)) : rest.length < s.length := by
  unfold readInstruction at h
  split at h
  · simp at h
  · next hs =>
    split at h
    · simp at h
    · simp only [Except.ok.injEq, Prod.mk.injEq] at h
      exact h.2 ▸ length_splitAtBracket hs

theorem length_readFinish {opened : List (List Char)} {s rest : List Char} {e : Event}
    (h : readFinish opened s = .ok (e, rest)) : rest.length < s.length := by
  unfold readFinish at h
  split at h
  · simp at h
  · next hs =>
    split at h
    · simp at h
    · split at h
      · simp only [Except.ok.injEq, Prod.mk.injEq] at h
        exact h.2 ▸ length_splitTag hs
      · simp at h

theorem length_readStart {s rest : List Char} {e : Event} (h : readStart s = .ok (e, rest)) :
    rest.length < s.length := by
  unfold readStart at h
  split at h
  · simp at h
  · next hs =>
    split at h
    · simp only [Except.ok.injEq, Prod.mk.injEq] at h
      exact h.2 ▸ length_splitTag hs
    · simp only [Except.ok.injEq, Prod.mk.injEq] at h
      exact h.2 ▸ length_splitTag hs

theorem length_readMarkup {opened : List (List Char)} {s rest : List Char} {e : Event}
    (h : readMarkup opened s = .ok (e, rest)) : rest.length < s.length := by
  unfold readMarkup at h
  split at h
  · simp at h
  · split at h
    · exact length_readBang h
    · split at h
      · exact length_readFinish h
      · split at h
        · exact length_readInstruction h
        · exact length_readStart h

/-! ### Texts and markup -/

/-- A text event, unless the text is empty. -/
def textEvent (s : List Char) : List Event :=
  if s.isEmpty then [] else [.text s]

/-- The events of a text inside the open elements of the given names, and the fault that ends
them. -/
def eventsFrom (opened : List (List Char)) (s : List Char) : List Event × Option Fault :=
  let before := textEvent (s.takeWhile (· != '<'))
  match _hs : s.dropWhile (· != '<') with
  | [] => (before, none)
  | _ :: markup =>
    match _hm : readMarkup opened markup with
    | .error fault => (before, some fault)
    | .ok (e, rest) =>
      let (more, fault) := eventsFrom (e.openAfter opened) rest
      (before ++ e :: more, fault)
termination_by s.length
decreasing_by
  have h₁ := length_readMarkup _hm
  have h₂ := (List.dropWhile_sublist (· != '<') (l := s)).length_le
  rw [_hs] at h₂
  simp only [List.length_cons] at h₂
  omega

/-- The events of a text, and the fault that ends them.  A byte order mark at the start is no part
of the text. -/
def events (s : List Char) : List Event × Option Fault :=
  eventsFrom [] (if s.head? = some '\ufeff' then s.tail else s)

end Interdoc.Xml
