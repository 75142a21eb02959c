/-!
# Hexadecimal numbers

The digits of the tables of this library: decimal digits and letters in lower case.
-/

namespace Interdoc.Text

/-- The number that a sequence of hexadecimal digits in lower case writes. -/
def hexadecimal (digits : List Char) : Nat :=
  digits.foldl
    (fun n c =>
      16 * n + if c.isDigit then c.toNat - '0'.toNat else c.toNat - 'a'.toNat + 10) 0

end Interdoc.Text
