import Interdoc.Docx.Paragraph
import Interdoc.Proofs.Text.Occurrences

/-!
# Escaped code

A line of code is read by `unescapeCode` from escaped characters and line break tags.  It replaces
one kind of token after the other, so after each pass the text is still one of tokens, of which
fewer are references: `escapeExcept` is a character after some of the passes.  That no pass finds
anything else to replace is a fact about single tokens, since each reference differs from the others
within itself.

So the parts of a line of code, texts and line breaks, are read back from their escaped forms
wherever one part ends and the next begins (`unescapeCode_escaped`).
-/

namespace Interdoc.Docx

open Text (Avoids avoids_of_not_mem replace_flatMap)
open Html (Piece escapeChar)

/-! ### Tokens -/

/-- The characters that are written as references. -/
def specials : List Char :=
  ['&', '<', '>', '"']

/-- A token of escaped code: an escaped character, or a line break. -/
def codeToken : Option Char → List Char
  | some c => escapeChar c
  | none => "<br>".toList

/-- A token when line breaks and the references to the given characters have been replaced. -/
def escapeExcept (plain : List Char) : Option Char → List Char
  | some c => if c ∈ plain then [c] else escapeChar c
  | none => ['\n']

theorem escapeChar_eq_self {c : Char} (h : c ∉ specials) : escapeChar c = [c] := by
  simp only [specials, List.mem_cons, List.not_mem_nil, or_false, not_or] at h
  unfold escapeChar
  split
  all_goals simp_all

theorem escapeChar_eq_reference :
    ∀ c ∈ specials, escapeChar c = '&' :: (escapeChar c).tail := by
  decide +kernel

/-- The references differ from each other within themselves. -/
theorem avoids_escapeChar :
    ∀ c ∈ specials, ∀ a ∈ specials, a ≠ c → Avoids (escapeChar c) (escapeChar a) := by
  decide +kernel

theorem lineBreak_avoids : ∀ c ∈ specials, '<' ∉ escapeChar c := by
  decide +kernel

/-! ### Passes -/

theorem replace_lineBreaks (tokens : List (Option Char)) :
    Text.replace "<br>".toList ['\n'] (tokens.flatMap codeToken) =
      tokens.flatMap (escapeExcept []) := by
  refine replace_flatMap (by decide) (fun token => ?_) tokens
  cases token with
  | none => exact .inl ⟨rfl, rfl⟩
  | some c =>
    refine .inr ⟨rfl, avoids_of_not_mem ?_⟩
    by_cases h : c ∈ specials
    · exact lineBreak_avoids c h
    · rw [codeToken, escapeChar_eq_self h, List.mem_singleton]
      rintro rfl
      exact h (by decide)

/-- One pass: the references to a character are replaced, and all other tokens stay. -/
theorem replace_references {c : Char} {plain : List Char} (hspecial : c ∈ specials)
    (hc : c ∉ plain) (hplain : '&' ∉ plain) (tokens : List (Option Char)) :
    Text.replace (escapeChar c) [c] (tokens.flatMap (escapeExcept plain)) =
      tokens.flatMap (escapeExcept (c :: plain)) := by
  have hreference := escapeChar_eq_reference c hspecial
  refine replace_flatMap (by rw [hreference]; exact List.cons_ne_nil _ _) (fun token => ?_) tokens
  cases token with
  | none =>
    rw [hreference]
    exact .inr ⟨rfl, avoids_of_not_mem (show '&' ∉ ['\n'] by decide)⟩
  | some a =>
    -- the character itself, another one that is still escaped, and one that stands for itself
    by_cases hac : a = c
    · subst hac
      exact .inl ⟨if_neg hc, if_pos List.mem_cons_self⟩
    · refine .inr ⟨by simp only [escapeExcept, List.mem_cons, hac, false_or], ?_⟩
      by_cases ha : a ∈ specials ∧ a ∉ plain
      · rw [escapeExcept, if_neg ha.2]
        exact avoids_escapeChar c hspecial a ha.1 hac
      · -- the token is the character alone, and that is no ampersand
        have htoken : escapeExcept plain (some a) = [a] := by
          rw [escapeExcept]
          split
          · rfl
          · next h => exact escapeChar_eq_self fun hs => ha ⟨hs, h⟩
        rw [htoken, hreference]
        refine avoids_of_not_mem fun hmem => ha ?_
        rw [← List.mem_singleton.mp hmem]
        exact ⟨by decide, hplain⟩

theorem flatMap_escapeExcept_specials (tokens : List (Option Char)) :
    tokens.flatMap (escapeExcept ['&', '"', '>', '<']) = tokens.map (·.getD '\n') := by
  induction tokens with
  | nil => rfl
  | cons token tokens ih =>
    rw [List.flatMap_cons, ih, List.map_cons]
    cases token with
    | none => rfl
    | some c =>
      rw [escapeExcept]
      split
      · rfl
      · next h =>
        rw [escapeChar_eq_self fun hc => h (by revert hc; simp [specials]; tauto)]
        rfl

/-- **Escaped code is read back**, also where it reads like a reference or a line break tag. -/
theorem unescapeCode_tokens (tokens : List (Option Char)) :
    unescapeCode (tokens.flatMap codeToken) = tokens.map (·.getD '\n') := by
  have hreferences : "&lt;".toList = escapeChar '<' ∧ "&gt;".toList = escapeChar '>' ∧
      "&quot;".toList = escapeChar '"' ∧ "&amp;".toList = escapeChar '&' := ⟨rfl, rfl, rfl, rfl⟩
  obtain ⟨hless, hgreater, hquote, hamp⟩ := hreferences
  rw [unescapeCode, hless, hgreater, hquote, hamp]
  rw [replace_lineBreaks, replace_references (by decide) (by decide) (by decide),
    replace_references (by decide) (by decide) (by decide),
    replace_references (by decide) (by decide) (by decide),
    replace_references (by decide) (by decide) (by decide), flatMap_escapeExcept_specials]

/-! ### Parts of lines -/

/-- A part of a line of code. -/
inductive CodePart where
  | text (s : String)
  | lineBreak
  deriving DecidableEq, Repr

namespace CodePart

/-- What a part stands for. -/
def plain : CodePart → List Char
  | text s => s.toList
  | lineBreak => ['\n']

/-- A part in its escaped form. -/
def escaped : CodePart → List Char
  | text s => Html.escape s.toList
  | lineBreak => "<br>".toList

/-- The tokens of a part. -/
def tokens : CodePart → List (Option Char)
  | text s => s.toList.map some
  | lineBreak => [none]

/-- A part as a piece of HTML. -/
def piece : CodePart → Piece
  | text s => .text s
  | lineBreak => .void "br" []

theorem flatMap_tokens (part : CodePart) : part.tokens.flatMap codeToken = part.escaped := by
  cases part with
  | text s => exact List.flatMap_map some codeToken s.toList
  | lineBreak => rfl

theorem map_tokens (part : CodePart) : part.tokens.map (·.getD '\n') = part.plain := by
  cases part with
  | text s => exact List.map_map.trans (List.map_id _)
  | lineBreak => rfl

theorem render_piece (part : CodePart) : part.piece.render = part.escaped := by
  cases part with
  | text s => rfl
  | lineBreak => rfl

end CodePart

theorem render_pieces (parts : List CodePart) :
    Html.render (parts.map CodePart.piece) = parts.flatMap CodePart.escaped := by
  rw [Html.render, List.flatMap_map]
  exact List.flatMap_congr fun part _ => part.render_piece

/-- **The parts of a line of code are read back from their escaped forms**, also where the end of a
text and the start of the next one read like a reference together. -/
theorem unescapeCode_escaped (parts : List CodePart) :
    unescapeCode (parts.flatMap CodePart.escaped) = parts.flatMap CodePart.plain := by
  have hescaped : parts.flatMap CodePart.escaped =
      (parts.flatMap CodePart.tokens).flatMap codeToken := by
    rw [List.flatMap_assoc]
    exact List.flatMap_congr fun part _ => part.flatMap_tokens.symm
  have hplain : (parts.flatMap CodePart.tokens).map (·.getD '\n') =
      parts.flatMap CodePart.plain := by
    rw [List.map_flatMap]
    exact List.flatMap_congr fun part _ => part.map_tokens
  rw [hescaped, unescapeCode_tokens, hplain]

end Interdoc.Docx
