/-!
# What can be wrong with an XML part

Every fault has one wording.  Positions are counted in octets: those of a reference from the start
of the text or attribute value, those of an attribute from the name of its element.
-/

namespace Interdoc.Xml

/-- Why a character reference denotes no character. -/
inductive ReferenceFault where
  | signed
  | noDigits
  | badDigit
  | tooLarge
  | notScalar (code : Nat)
  | notPermitted (code : Nat)
  deriving DecidableEq, Repr

/-- A fault of a character reference in words. -/
def ReferenceFault.message : ReferenceFault → String
  | .signed => "unexpected number sign"
  | .noDigits => "cannot parse integer from empty string"
  | .badDigit => "invalid digit found in string"
  | .tooLarge => "number too large to fit in target type"
  | .notScalar code => "\x60" ++ toString code ++ "\x60 is not a valid codepoint"
  | .notPermitted code =>
    "0x" ++ String.ofList (Nat.toDigits 16 code) ++ " character is not permitted in XML"

/-- Why a text is no well formed XML part. -/
inductive Fault where
  | unclosedTag
  | unclosedComment
  | unclosedData
  | unclosedInstruction
  | unclosedDoctype
  | unknownMarkup
  | doctypeWithoutName
  | mismatchedEnd (expected found : List Char)
  | unmatchedEnd (found : List Char)
  | expectedEquals (position : Nat)
  | expectedValue (position : Nat)
  | unquotedValue (position : Nat)
  | unclosedQuote (position : Nat) (quote : Char)
  | duplicated (position previous : Nat)
  | unknownEntity (start stop : Nat) (name : List Char)
  | unterminated (start stop : Nat)
  | badReference (fault : ReferenceFault)
  /-- An element is closed where none is open. -/
  | unbalancedEnd
  /-- The text ends inside an element. -/
  | openElement (name : String)
  /-- The text has no element. -/
  | noElement
  deriving DecidableEq, Repr

/-- A range of positions. -/
def rangeText (start stop : Nat) : String :=
  toString start ++ ".." ++ toString stop

/-- An end tag in backquotes. -/
def endTagText (name : List Char) : String :=
  "\x60</" ++ String.ofList name ++ ">\x60"

/-- A fault of the characters of a part in words. -/
def Fault.detail : Fault → String
  | .unclosedTag => "syntax error: tag not closed: \x60>\x60 not found before end of input"
  | .unclosedComment =>
    "syntax error: comment not closed: \x60-->\x60 not found before end of input"
  | .unclosedData => "syntax error: CDATA not closed: \x60]]>\x60 not found before end of input"
  | .unclosedInstruction =>
    "syntax error: processing instruction or xml declaration not closed: " ++
      "\x60?>\x60 not found before end of input"
  | .unclosedDoctype => "syntax error: DOCTYPE not closed: \x60>\x60 not found before end of input"
  | .unknownMarkup => "syntax error: unknown or missed symbol in markup"
  | .doctypeWithoutName =>
    "ill-formed document: \x60<!DOCTYPE>\x60 declaration does not contain a name of a document type"
  | .mismatchedEnd expected found =>
    "ill-formed document: expected " ++ endTagText expected ++ ", but " ++ endTagText found ++
      " was found"
  | .unmatchedEnd found =>
    "ill-formed document: close tag " ++ endTagText found ++ " does not match any open tag"
  | .expectedEquals position =>
    "position " ++ toString position ++
      ": attribute key must be directly followed by \x60=\x60 or space"
  | .expectedValue position =>
    "position " ++ toString position ++ ": \x60=\x60 must be followed by an attribute value"
  | .unquotedValue position =>
    "position " ++ toString position ++
      ": attribute value must be enclosed in \x60\"\x60 or \x60'\x60"
  | .unclosedQuote position quote =>
    "position " ++ toString position ++ ": missing closing quote \x60" ++ String.singleton quote ++
      "\x60 in attribute value"
  | .duplicated position previous =>
    "position " ++ toString position ++
      ": duplicated attribute, previous declaration at position " ++
      toString previous
  | .unknownEntity start stop name =>
    "at " ++ rangeText start stop ++ ": unrecognized entity \x60" ++ String.ofList name ++ "\x60"
  | .unterminated start stop =>
    "Error while escaping character at range " ++ rangeText start stop ++
      ": Cannot find ';' after '&'"
  | .badReference fault => "invalid character reference: " ++ fault.message
  | .unbalancedEnd => "unbalanced XML end tag"
  | .openElement name => "unexpected end of XML inside <" ++ name ++ ">"
  | .noElement => "empty XML part"

/-- A fault in words. -/
def Fault.message (f : Fault) : String :=
  match f with
  | .unbalancedEnd | .openElement _ | .noElement => f.detail
  | _ => "XML error: " ++ f.detail

end Interdoc.Xml
