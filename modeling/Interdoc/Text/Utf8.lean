/-!
# UTF-8

The encoding of texts as octets.  `decode?` reads a whole octet sequence or says where and how it
fails: a `Fault` holds the number of octets before the first one that begins no character, and the
length of the faulty sequence, which is missing when the octets end in the middle of a character.
The length of a fault is that of the longest initial part of some character at that place, at
least one octet.
-/

namespace Interdoc.Utf8

/-- Why a sequence of octets is not UTF-8. -/
structure Fault where
  /-- The number of octets before the fault, all of them well formed. -/
  validUpTo : Nat
  /-- The length of the faulty sequence, or `none` if more octets could have completed it. -/
  length? : Option Nat
  deriving DecidableEq, Repr

/-- A fault in words. -/
def Fault.message (f : Fault) : String :=
  match f.length? with
  | some n =>
    "invalid utf-8 sequence of " ++ toString n ++ " bytes from index " ++ toString f.validUpTo
  | none => "incomplete utf-8 byte sequence from index " ++ toString f.validUpTo

/-- Whether an octet continues a character. -/
def isTail (b : UInt8) : Bool :=
  0x80 ≤ b && b ≤ 0xbf

/-- The six bits of an octet that continues a character. -/
def tailBits (b : UInt8) : Nat :=
  b.toNat % 64

/-- The least and the greatest second octet after a first octet, and how many octets follow the
first; `none` for an octet that begins no character of several octets. -/
def lead? (b : UInt8) : Option (UInt8 × UInt8 × Nat) :=
  if 0xc2 ≤ b && b ≤ 0xdf then some (0x80, 0xbf, 1)
  else if b == 0xe0 then some (0xa0, 0xbf, 2)
  else if b == 0xed then some (0x80, 0x9f, 2)
  else if 0xe1 ≤ b && b ≤ 0xef then some (0x80, 0xbf, 2)
  else if b == 0xf0 then some (0x90, 0xbf, 3)
  else if 0xf1 ≤ b && b ≤ 0xf3 then some (0x80, 0xbf, 3)
  else if b == 0xf4 then some (0x80, 0x8f, 3)
  else none

/-- One character at the start of the octets: the character and how many octets it has, or the
length of the fault. -/
def char? : List UInt8 → Except (Option Nat) (Char × Nat)
  | [] => .error none
  | a :: rest =>
    if a < 0x80 then .ok (Char.ofNat a.toNat, 1)
    else match lead? a, rest with
      | none, _ => .error (some 1)
      | some _, [] => .error none
      | some (low, high, n), b :: rest =>
        if b < low || high < b then .error (some 1)
        else if n = 1 then .ok (Char.ofNat (a.toNat % 32 * 64 + tailBits b), 2)
        else match rest with
          | [] => .error none
          | c :: rest =>
            if !isTail c then .error (some 2)
            else if n = 2 then
              .ok (Char.ofNat ((a.toNat % 16 * 64 + tailBits b) * 64 + tailBits c), 3)
            else match rest with
              | [] => .error none
              | d :: _ =>
                if !isTail d then .error (some 3)
                else
                  .ok (Char.ofNat (((a.toNat % 8 * 64 + tailBits b) * 64 + tailBits c) * 64 +
                    tailBits d), 4)

/-- The characters of an octet sequence that begins at position `index` of the whole input.  The
first number is how many octets of the character read last are still to be passed over. -/
def decodeFrom : (index skip : Nat) → List UInt8 → Except Fault (List Char)
  | _, _, [] => .ok []
  | index, skip + 1, _ :: rest => decodeFrom (index + 1) skip rest
  | index, 0, b :: rest =>
    match char? (b :: rest) with
    | .error length? => .error ⟨index, length?⟩
    | .ok (c, n) =>
      match decodeFrom (index + 1) (n - 1) rest with
      | .ok cs => .ok (c :: cs)
      | .error fault => .error fault

/-- The text that a sequence of octets encodes. -/
def decode? (bytes : List UInt8) : Except Fault (List Char) :=
  decodeFrom 0 0 bytes

/-- The characters of an octet sequence, with a replacement character for each piece that encodes
none.  The number is how many octets of the piece read last are still to be passed over. -/
def decodeLossyFrom : (skip : Nat) → List UInt8 → List Char
  | _, [] => []
  | skip + 1, _ :: rest => decodeLossyFrom skip rest
  | 0, b :: rest =>
    match char? (b :: rest) with
    | .ok (c, n) => c :: decodeLossyFrom (n - 1) rest
    | .error (some n) => '\uFFFD' :: decodeLossyFrom (n - 1) rest
    | .error none => ['\uFFFD']

/-- A text that a sequence of octets encodes, as far as it does. -/
def decodeLossy (bytes : List UInt8) : List Char :=
  decodeLossyFrom 0 bytes

/-- The octets of one character. -/
def encodeChar (c : Char) : List UInt8 :=
  let n := c.toNat
  if n < 0x80 then [n.toUInt8]
  else if n < 0x800 then [(0xc0 + n / 64).toUInt8, (0x80 + n % 64).toUInt8]
  else if n < 0x10000 then
    [(0xe0 + n / 4096).toUInt8, (0x80 + n / 64 % 64).toUInt8, (0x80 + n % 64).toUInt8]
  else
    [(0xf0 + n / 262144).toUInt8, (0x80 + n / 4096 % 64).toUInt8, (0x80 + n / 64 % 64).toUInt8,
      (0x80 + n % 64).toUInt8]

/-- The octets of a text. -/
def encode (s : List Char) : List UInt8 :=
  s.flatMap encodeChar

/-- The number of octets of a character. -/
def charSize (c : Char) : Nat :=
  if c.toNat < 0x80 then 1
  else if c.toNat < 0x800 then 2
  else if c.toNat < 0x10000 then 3
  else 4

/-- The number of octets of a text. -/
def size (s : List Char) : Nat :=
  s.foldr (fun c n => charSize c + n) 0

end Interdoc.Utf8
