/-!
# Deflated data

`Zip.inflate?` expands the deflate format.  Compressed data is a list of bits, the lowest bit of
each octet first, cut into blocks: stored octets, or symbols of one of two prefix codes followed by
extra bits.  A symbol stands for an octet, for the end of the block, or for a copy of earlier
output.

Codes are canonical: they are given by the lengths of their words alone, shorter words come before
longer ones, and words of one length are in the order of their symbols.  Decoding walks through the
lengths and keeps the first word of each.

Every symbol takes at least one bit, so the number of bits bounds the number of steps.
-/

namespace Interdoc.Zip

/-! ### Bits -/

/-- The bits of an octet, the lowest first. -/
def bitsOfByte (b : UInt8) : List Bool :=
  (List.range 8).map fun k => b.toNat.testBit k

/-- The bits of a sequence of octets. -/
def bitsOfBytes (bytes : List UInt8) : List Bool :=
  bytes.flatMap bitsOfByte

/-- A number of `n` bits, the lowest first, and the bits after it. -/
def takeNat? : (n : Nat) → List Bool → Option (Nat × List Bool)
  | 0, bits => some (0, bits)
  | _ + 1, [] => none
  | n + 1, b :: bits => (takeNat? n bits).map fun (k, rest) => (2 * k + b.toNat, rest)

/-- A number of octets, and the bits after them. -/
def takeBytes? : (n : Nat) → List Bool → Option (List UInt8 × List Bool)
  | 0, bits => some ([], bits)
  | n + 1, bits => do
    let (b, bits) ← takeNat? 8 bits
    let (bytes, bits) ← takeBytes? n bits
    return (b.toUInt8 :: bytes, bits)

/-! ### Codes -/

/-- A canonical prefix code: how many words there are of each length from one on, and the symbols in
the order of their words. -/
structure Code where
  counts : List Nat
  symbols : Array Nat

/-- The code in which each symbol has a word of the given length; symbols of length zero have none.
-/
def Code.ofLengths (lengths : List Nat) : Code :=
  let indexed := lengths.zipIdx
  let ofLength (n : Nat) : List Nat := (indexed.filter fun p => p.1 == n).map (·.2)
  let words := (List.range 15).map fun k => ofLength (k + 1)
  ⟨words.map List.length, words.flatten.toArray⟩

/-- The symbol of the word at the start of the bits.  `word` is what has been read, `first` the
first word of its length plus one, and `index` the number of shorter words. -/
def Code.decodeFrom (symbols : Array Nat) (word first index : Nat) :
    (counts : List Nat) → List Bool → Option (Nat × List Bool)
  | [], _ => none
  | _, [] => none
  | count :: counts, b :: bits =>
    let word := word + b.toNat
    if word < first + count then (symbols[index + (word - first)]?).map fun s => (s, bits)
    else decodeFrom symbols (2 * word) (2 * (first + count)) (index + count) counts bits

/-- The symbol of the word at the start of the bits, and the bits after it. -/
def Code.decode? (code : Code) (bits : List Bool) : Option (Nat × List Bool) :=
  decodeFrom code.symbols 0 0 0 code.counts bits

/-! ### Copies -/

/-- The least length of each length symbol and the number of extra bits. -/
def lengthTable : Array (Nat × Nat) :=
  #[(3, 0), (4, 0), (5, 0), (6, 0), (7, 0), (8, 0), (9, 0), (10, 0), (11, 1), (13, 1), (15, 1),
    (17, 1), (19, 2), (23, 2), (27, 2), (31, 2), (35, 3), (43, 3), (51, 3), (59, 3), (67, 4),
    (83, 4), (99, 4), (115, 4), (131, 5), (163, 5), (195, 5), (227, 5), (258, 0)]

/-- The least distance of each distance symbol and the number of extra bits. -/
def distanceTable : Array (Nat × Nat) :=
  #[(1, 0), (2, 0), (3, 0), (4, 0), (5, 1), (7, 1), (9, 2), (13, 2), (17, 3), (25, 3), (33, 4),
    (49, 4), (65, 5), (97, 5), (129, 6), (193, 6), (257, 7), (385, 7), (513, 8), (769, 8),
    (1025, 9), (1537, 9), (2049, 10), (3073, 10), (4097, 11), (6145, 11), (8193, 12), (12289, 12),
    (16385, 13), (24577, 13)]

/-- The output with `n` octets more, each a copy of the one `distance` before it. -/
def copyBack (distance : Nat) : (n : Nat) → Array UInt8 → Option (Array UInt8)
  | 0, out => some out
  | n + 1, out =>
    if h : 0 < distance ∧ distance ≤ out.size then
      have bound : out.size - distance < out.size := by omega
      copyBack distance n (out.push out[out.size - distance])
    else none

/-- The value of a table entry with its extra bits. -/
def tableValue? (table : Array (Nat × Nat)) (symbol : Nat) (bits : List Bool) :
    Option (Nat × List Bool) := do
  let (least, extra) ← table[symbol]?
  let (k, bits) ← takeNat? extra bits
  return (least + k, bits)

/-! ### Blocks -/

/-- The octets of a block whose symbols are coded, after the output so far. -/
def inflateSymbols (literals distances : Code) :
    (steps : Nat) → List Bool → Array UInt8 → Option (List Bool × Array UInt8)
  | 0, _, _ => none
  | steps + 1, bits, out => do
    let (symbol, bits) ← literals.decode? bits
    if symbol < 256 then inflateSymbols literals distances steps bits (out.push symbol.toUInt8)
    else if symbol = 256 then return (bits, out)
    else
      let (length, bits) ← tableValue? lengthTable (symbol - 257) bits
      let (symbol, bits) ← distances.decode? bits
      let (distance, bits) ← tableValue? distanceTable symbol bits
      let out ← copyBack distance length out
      inflateSymbols literals distances steps bits out

/-- The code for octets and lengths of blocks without a code of their own. -/
def fixedLiterals : Code :=
  .ofLengths (List.replicate 144 8 ++ List.replicate 112 9 ++ List.replicate 24 7 ++
    List.replicate 8 8)

/-- The code for distances of blocks without a code of their own. -/
def fixedDistances : Code :=
  .ofLengths (List.replicate 30 5)

/-- The order in which the lengths of the code for code lengths are given. -/
def lengthOrder : List Nat :=
  [16, 17, 18, 0, 8, 7, 9, 6, 10, 5, 11, 4, 12, 3, 13, 2, 14, 1, 15]

/-- Numbers of three bits each. -/
def takeTriples? : (n : Nat) → List Bool → Option (List Nat × List Bool)
  | 0, bits => some ([], bits)
  | n + 1, bits => do
    let (k, bits) ← takeNat? 3 bits
    let (ks, bits) ← takeTriples? n bits
    return (k :: ks, bits)

/-- Code lengths up to a total number of them; the lengths so far are in reverse. -/
def takeLengths? (code : Code) (total : Nat) :
    (steps : Nat) → List Nat → List Bool → Option (List Nat × List Bool)
  | 0, _, _ => none
  | steps + 1, reversed, bits =>
    if reversed.length = total then some (reversed.reverse, bits)
    else if total < reversed.length then none
    else do
      let (symbol, bits) ← code.decode? bits
      if symbol < 16 then takeLengths? code total steps (symbol :: reversed) bits
      else
        let (value, least, extra) ←
          if symbol = 16 then reversed.head?.map fun previous => (previous, 3, 2)
          else if symbol = 17 then some (0, 3, 3)
          else some (0, 11, 7)
        let (k, bits) ← takeNat? extra bits
        takeLengths? code total steps (List.replicate (least + k) value ++ reversed) bits

/-- The two codes at the start of a block. -/
def takeCodes? (bits : List Bool) : Option (Code × Code × List Bool) := do
  let (literals, bits) ← takeNat? 5 bits
  let (distances, bits) ← takeNat? 5 bits
  let (given, bits) ← takeNat? 4 bits
  let (triples, bits) ← takeTriples? (given + 4) bits
  let lengths := (List.range 19).map fun symbol =>
    ((lengthOrder.zip triples).lookup symbol).getD 0
  let total := literals + 257 + distances + 1
  let (lengths, bits) ← takeLengths? (.ofLengths lengths) total (total + 1) [] bits
  return (.ofLengths (lengths.take (literals + 257)), .ofLengths (lengths.drop (literals + 257)),
    bits)

/-- The octets of the blocks, after the output so far. -/
def inflateBlocks : (steps : Nat) → List Bool → Array UInt8 → Option (Array UInt8)
  | 0, _, _ => none
  | steps + 1, bits, out => do
    let (last, bits) ← takeNat? 1 bits
    let (kind, bits) ← takeNat? 2 bits
    let (bits, out) ←
      match kind with
      | 0 => do
        -- Stored octets begin at an octet boundary of the data.
        let (length, bits) ← takeNat? 16 (bits.drop (bits.length % 8))
        let (_, bits) ← takeNat? 16 bits
        let (bytes, bits) ← takeBytes? length bits
        pure (bits, out ++ bytes.toArray)
      | 1 => inflateSymbols fixedLiterals fixedDistances (bits.length + 1) bits out
      | 2 => do
        let (literals, distances, bits) ← takeCodes? bits
        inflateSymbols literals distances (bits.length + 1) bits out
      | _ => none
    if last = 1 then return out else inflateBlocks steps bits out

/-- The octets that compressed octets stand for. -/
def inflate? (bytes : List UInt8) : Option (List UInt8) :=
  let bits := bitsOfBytes bytes
  (inflateBlocks (bits.length + 1) bits #[]).map Array.toList

end Interdoc.Zip
