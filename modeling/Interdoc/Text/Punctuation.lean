import Interdoc.Text.Blank
import Interdoc.Text.Hexadecimal

/-!
# Punctuation

The Unicode general categories `P` (punctuation) and `S` (symbols) together, as of version 8.  In
ASCII they are the characters that are neither letters, digits, blanks nor controls.

The ranges beyond ASCII are written as text, one word for each range: the first and the last code
point in hexadecimal, or a single one.
-/

namespace Interdoc.Text

/-- The ASCII characters that are neither letters, digits, blanks nor controls. -/
def isAsciiPunctuation (c : Char) : Bool :=
  ('!' ≤ c && c ≤ '/') || (':' ≤ c && c ≤ '@') || ('[' ≤ c && c ≤ '\x60') ||
  ('\x7b' ≤ c && c ≤ '~')

/-- The ranges of punctuation and symbols beyond ASCII. -/
def punctuationWords : String :=
  "a1-a9 ab-ac ae-b1 b4 b6-b8 bb bf d7 f7 2c2-2c5 2d2-2df 2e5-2eb 2ed 2ef-2ff 375 37e 384-385 387
   3f6 482 55a-55f 589-58a 58d-58f 5be 5c0 5c3 5c6 5f3-5f4 606-60f 61b 61e-61f 66a-66d 6d4 6de
   6e9 6fd-6fe 700-70d 7f6-7f9 830-83e 85e 964-965 970 9f2-9f3 9fa-9fb af0-af1 b70 bf3-bfa c7f
   d79 df4 e3f e4f e5a-e5b f01-f17 f1a-f1f f34 f36 f38 f3a-f3d f85 fbe-fc5 fc7-fcc fce-fda
   104a-104f 109e-109f 10fb 1360-1368 1390-1399 1400 166d-166e 169b-169c 16eb-16ed 1735-1736
   17d4-17d6 17d8-17db 1800-180a 1940 1944-1945 19de-19ff 1a1e-1a1f 1aa0-1aa6 1aa8-1aad
   1b5a-1b6a 1b74-1b7c 1bfc-1bff 1c3b-1c3f 1c7e-1c7f 1cc0-1cc7 1cd3 1fbd 1fbf-1fc1 1fcd-1fcf
   1fdd-1fdf 1fed-1fef 1ffd-1ffe 2010-2027 2030-205e 207a-207e 208a-208e 20a0-20be 2100-2101
   2103-2106 2108-2109 2114 2116-2118 211e-2123 2125 2127 2129 212e 213a-213b 2140-2144
   214a-214d 214f 218a-218b 2190-23fa 2400-2426 2440-244a 249c-24e9 2500-2775 2794-2b73
   2b76-2b95 2b98-2bb9 2bbd-2bc8 2bca-2bd1 2bec-2bef 2ce5-2cea 2cf9-2cfc 2cfe-2cff 2d70
   2e00-2e2e 2e30-2e42 2e80-2e99 2e9b-2ef3 2f00-2fd5 2ff0-2ffb 3001-3004 3008-3020 3030
   3036-3037 303d-303f 309b-309c 30a0 30fb 3190-3191 3196-319f 31c0-31e3 3200-321e 322a-3247
   3250 3260-327f 328a-32b0 32c0-32fe 3300-33ff 4dc0-4dff a490-a4c6 a4fe-a4ff a60d-a60f a673
   a67e a6f2-a6f7 a700-a716 a720-a721 a789-a78a a828-a82b a836-a839 a874-a877 a8ce-a8cf
   a8f8-a8fa a8fc a92e-a92f a95f a9c1-a9cd a9de-a9df aa5c-aa5f aa77-aa79 aade-aadf aaf0-aaf1
   ab5b abeb fb29 fbb2-fbc1 fd3e-fd3f fdfc-fdfd fe10-fe19 fe30-fe52 fe54-fe66 fe68-fe6b
   ff01-ff0f ff1a-ff20 ff3b-ff40 ff5b-ff65 ffe0-ffe6 ffe8-ffee fffc-fffd 10100-10102 10137-1013f
   10179-10189 1018c 10190-1019b 101a0 101d0-101fc 1039f 103d0 1056f 10857 10877-10878 1091f
   1093f 10a50-10a58 10a7f 10ac8 10af0-10af6 10b39-10b3f 10b99-10b9c 11047-1104d 110bb-110bc
   110be-110c1 11140-11143 11174-11175 111c5-111c8 111cd 111db 111dd-111df 11238-1123d 112a9
   114c6 115c1-115d7 11641-11643 1173c-1173f 12470-12474 16a6e-16a6f 16af5 16b37-16b3f
   16b44-16b45 1bc9c 1bc9f 1d000-1d0f5 1d100-1d126 1d129-1d164 1d16a-1d16c 1d183-1d184
   1d18c-1d1a9 1d1ae-1d1e8 1d200-1d241 1d245 1d300-1d356 1d6c1 1d6db 1d6fb 1d715 1d735 1d74f
   1d76f 1d789 1d7a9 1d7c3 1d800-1d9ff 1da37-1da3a 1da6d-1da74 1da76-1da83 1da85-1da8b
   1eef0-1eef1 1f000-1f02b 1f030-1f093 1f0a0-1f0ae 1f0b1-1f0bf 1f0c1-1f0cf 1f0d1-1f0f5
   1f110-1f12e 1f130-1f16b 1f170-1f19a 1f1e6-1f202 1f210-1f23a 1f240-1f248 1f250-1f251
   1f300-1f579 1f57b-1f5a3 1f5a5-1f6d0 1f6e0-1f6ec 1f6f0-1f6f3 1f700-1f773 1f780-1f7d4
   1f800-1f80b 1f810-1f847 1f850-1f859 1f860-1f887 1f890-1f8ad 1f910-1f918 1f980-1f984 1f9c0"

/-- The first and last code point of a range. -/
def rangeOfWord (word : List Char) : Nat × Nat :=
  match splitOn '-' word with
  | [first, last] => (hexadecimal first, hexadecimal last)
  | _ => (hexadecimal word, hexadecimal word)

/-- The ranges of punctuation and symbols beyond ASCII, in ascending order. -/
def punctuationRanges : List (Nat × Nat) :=
  (words punctuationWords.toList).map rangeOfWord

/-- Whether a character is punctuation or a symbol. -/
def isPunctuation (c : Char) : Bool :=
  if c.toNat < 0x80 then isAsciiPunctuation c
  else punctuationRanges.any fun (first, last) => first ≤ c.toNat && c.toNat ≤ last

end Interdoc.Text
