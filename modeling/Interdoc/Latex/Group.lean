import Interdoc.Text.Blank

/-!
# Groups and separators

A braced group is what stands between an opening brace and the closing brace that balances it; a
bracketed group is the same for brackets, where whatever stands inside braces is not looked at.  A
backslash hides the character after it from both.  `braced?` and `bracketed?` read a group at the
start of a text and return its content and what follows it.

`splitTop` cuts a text at the separators outside all braces.
-/

namespace Interdoc.Latex

/-- A character put in front of the content of a group. -/
def consContent (c : Char) (r : List Char × List Char) : List Char × List Char :=
  (c :: r.1, r.2)

/-! ### Braces -/

/-- The rest of a braced group inside which `depth` further groups are open. -/
def closeBrace? : (depth : Nat) → List Char → Option (List Char × List Char)
  | _, [] => none
  | _, ['\\'] => none
  | depth, '\\' :: c :: s => (closeBrace? depth s).map (consContent '\\' ∘ consContent c)
  | depth, '\x7b' :: s => (closeBrace? (depth + 1) s).map (consContent '\x7b')
  | 0, '\x7d' :: s => some ([], s)
  | depth + 1, '\x7d' :: s => (closeBrace? depth s).map (consContent '\x7d')
  | depth, c :: s => (closeBrace? depth s).map (consContent c)

/-- The content of the braced group at the start of a text, and what follows the group. -/
def braced? : List Char → Option (List Char × List Char)
  | '\x7b' :: s => closeBrace? 0 s
  | _ => none

/-! ### Brackets -/

/-- The rest of a bracketed group inside which `depth` further groups and `braces` braces are
open. -/
def closeBracket? : (depth braces : Nat) → List Char → Option (List Char × List Char)
  | _, _, [] => none
  | _, _, ['\\'] => none
  | depth, braces, '\\' :: c :: s =>
    (closeBracket? depth braces s).map (consContent '\\' ∘ consContent c)
  | depth, braces, '\x7b' :: s => (closeBracket? depth (braces + 1) s).map (consContent '\x7b')
  | depth, braces, '\x7d' :: s => (closeBracket? depth (braces - 1) s).map (consContent '\x7d')
  | depth, 0, '[' :: s => (closeBracket? (depth + 1) 0 s).map (consContent '[')
  | 0, 0, ']' :: s => some ([], s)
  | depth + 1, 0, ']' :: s => (closeBracket? depth 0 s).map (consContent ']')
  | depth, braces, c :: s => (closeBracket? depth braces s).map (consContent c)

/-- The content of the bracketed group at the start of a text, and what follows the group. -/
def bracketed? : List Char → Option (List Char × List Char)
  | '[' :: s => closeBracket? 0 0 s
  | _ => none

/-- What follows an optional bracketed group. -/
def skipBracketed (s : List Char) : List Char :=
  match bracketed? s with
  | some (_, rest) => rest
  | none => s

/-! ### Separators -/

/-- A character put in front of the first piece. -/
def consPiece (c : Char) : List (List Char) → List (List Char)
  | [] => [[c]]
  | piece :: rest => (c :: piece) :: rest

/-- The pieces of a text between the separators that stand outside braces, `depth` of which are
open. -/
def splitTopFrom (sep : Char) : (depth : Nat) → List Char → List (List Char)
  | _, [] => [[]]
  | _, ['\\'] => [['\\']]
  | depth, '\\' :: c :: s => consPiece '\\' (consPiece c (splitTopFrom sep depth s))
  | depth, '\x7b' :: s => consPiece '\x7b' (splitTopFrom sep (depth + 1) s)
  | depth, '\x7d' :: s => consPiece '\x7d' (splitTopFrom sep (depth - 1) s)
  | depth, c :: s =>
    if c = sep && depth = 0 then [] :: splitTopFrom sep 0 s
    else consPiece c (splitTopFrom sep depth s)

/-- The pieces of a text between the separators outside braces. -/
def splitTop (sep : Char) (s : List Char) : List (List Char) :=
  splitTopFrom sep 0 s

/-! ### Sizes

A group is smaller than the text it is read from, and so is what follows it. -/

theorem length_closeBrace? {depth : Nat} {s content rest : List Char}
    (h : closeBrace? depth s = some (content, rest)) :
    content.length + rest.length < s.length := by
  fun_induction closeBrace? depth s generalizing content rest <;>
    simp_all [Option.map_eq_some_iff, consContent, Prod.ext_iff] <;>
    grind

theorem length_braced? {s content rest : List Char} (h : braced? s = some (content, rest)) :
    content.length + rest.length < s.length := by
  unfold braced? at h
  split at h
  · have := length_closeBrace? h
    simp
    omega
  · simp at h

theorem length_closeBracket? {depth braces : Nat} {s content rest : List Char}
    (h : closeBracket? depth braces s = some (content, rest)) :
    content.length + rest.length < s.length := by
  fun_induction closeBracket? depth braces s generalizing content rest <;>
    simp_all [Option.map_eq_some_iff, consContent, Prod.ext_iff] <;>
    grind

theorem length_bracketed? {s content rest : List Char} (h : bracketed? s = some (content, rest)) :
    content.length + rest.length < s.length := by
  unfold bracketed? at h
  split at h
  · have := length_closeBracket? h
    simp
    omega
  · simp at h

theorem length_skipBracketed (s : List Char) : (skipBracketed s).length ≤ s.length := by
  unfold skipBracketed
  split
  · next h => have := length_bracketed? h; omega
  · omega

theorem length_of_mem_consPiece {c : Char} {pieces : List (List Char)} {n : Nat}
    (h : ∀ p ∈ pieces, p.length ≤ n) : ∀ p ∈ consPiece c pieces, p.length ≤ n + 1 := by
  intro p hp
  unfold consPiece at hp
  split at hp <;> grind

theorem length_of_mem_splitTopFrom {sep : Char} {depth : Nat} {s p : List Char}
    (h : p ∈ splitTopFrom sep depth s) : p.length ≤ s.length := by
  fun_induction splitTopFrom sep depth s generalizing p with
  | case1 => simp_all
  | case2 => simp_all
  | case3 depth c s ih =>
    exact length_of_mem_consPiece (length_of_mem_consPiece fun _ h => ih h) p h
  | case4 depth s ih => exact length_of_mem_consPiece (fun _ h => ih h) p h
  | case5 depth s ih => exact length_of_mem_consPiece (fun _ h => ih h) p h
  | case6 depth c s _ _ _ _ _ ih =>
    rcases List.mem_cons.1 h with rfl | h
    · simp
    · have := ih h; simp; omega
  | case7 depth c s _ _ _ _ _ ih => exact length_of_mem_consPiece (fun _ h => ih h) p h

end Interdoc.Latex
