import Interdoc.Latex.Inline
import Interdoc.Proofs.Document.OneLine
import Interdoc.Proofs.Latex.Inert
import Interdoc.Proofs.Text.Trim

/-!
# Reading printed inlines

`tokenize` undoes `printInlines` in front of any text, up to the normal form and up to the line
endings in literal text, which are printed as spaces (`Inline.spaceEnds`).

The scan is one of commands: `Command.read?` reads the command that a printed inline is, with the
printed arguments as its groups, and stops right behind it.  So one command in front of a text is
one inline in front of what the text reads as (`tokenize_command`), and the same holds of one
literal character up to the normal form (`normalizeList_tokenize_cons`).  Everything else is
recursion on the inlines (`normalizeList_tokenize_print`).
-/

namespace Interdoc

namespace Latex

open Inline (cons normalizeList normalizeList_cons normalizeList_append_congr spaceEndsList)

/-! ### One step of the scan -/

/-- The inline that a command stands for. -/
def Command.inline : Command → Inline
  | .char c => .text (String.singleton c)
  | .lineBreak => .lineBreak
  | .strong body => .strong (tokenize body)
  | .emphasis body => .emphasis (tokenize body)
  | .underline body => .underline (tokenize body)
  | .code body => .code (argumentText body)
  | .link href label => .link (argumentText href) (tokenize label)
  | .url href => .link (argumentText href) [.text (argumentText href)]
  | .image src alt => .image (argumentText src) (alt.map argumentText)

theorem tokenize_nil : tokenize [] = [] := by rw [tokenize]

/-- A command in front of a text is an inline in front of what the text reads as. -/
theorem tokenize_command {s rest : List Char} {cmd : Command}
    (h : Command.read? s = some (cmd, rest)) :
    tokenize ('\\' :: s) = cmd.inline :: tokenize rest := by
  rw [tokenize, if_pos rfl]
  cases cmd with
  | image src alt =>
    cases alt <;>
    · split <;> rename_i h' <;> rw [h] at h' <;> cases h'
      rfl
  | _ =>
    split <;> rename_i h' <;> rw [h] at h' <;> cases h'
    rfl

theorem tokenize_literal {c : Char} (hc : c ≠ '\\') (s : List Char) :
    tokenize (c :: s)
      = .text (String.ofList (c :: s.takeWhile isLiteral)) :: tokenize (s.dropWhile isLiteral) := by
  rw [tokenize, if_neg hc]

/-- **A literal character** in front of a text is one in front of what the text reads as. -/
theorem normalizeList_tokenize_cons {c : Char} (hc : c ≠ '\\') (s : List Char) :
    normalizeList (tokenize (c :: s))
      = cons (.text (String.singleton c)) (normalizeList (tokenize s)) := by
  rw [tokenize_literal hc, normalizeList_cons, Inline.normalize]
  cases s with
  | nil => rfl
  | cons d s =>
    by_cases hd : d = '\\'
    · subst hd
      rw [List.takeWhile_cons_of_neg (by decide), List.dropWhile_cons_of_neg (by decide)]
      rfl
    · -- the run of literals goes on, and the normal form does not tell where it was cut
      have hl : isLiteral d = true := by simpa [isLiteral] using hd
      rw [tokenize_literal hd, List.takeWhile_cons_of_pos hl, List.dropWhile_cons_of_pos hl,
        normalizeList_cons, Inline.normalize, Inline.cons_text_cons_text,
        String.singleton_eq_ofList, ← String.ofList_append, List.singleton_append]

/-! ### Literal text -/

theorem normalizeList_tokenize_escapeChar (c : Char) (t : List Char) :
    normalizeList (tokenize (escapeChar c ++ t))
      = cons (.text (String.singleton (Text.spaceEnd c))) (normalizeList (tokenize t)) := by
  have hcmd {s : List Char} {a : Char} (h : Command.read? s = some (.char a, t)) :
      normalizeList (tokenize ('\\' :: s))
        = cons (.text (String.singleton a)) (normalizeList (tokenize t)) := by
    rw [tokenize_command h, normalizeList_cons]
    rfl
  -- a case for each special character: commands that stand for it, blanks for line endings
  unfold escapeChar
  split
  · exact hcmd (s := "textbackslash\x7b\x7d".toList ++ t) rfl
  · exact hcmd rfl
  · exact hcmd rfl
  · exact hcmd rfl
  · exact hcmd rfl
  · exact hcmd rfl
  · exact hcmd rfl
  · exact hcmd rfl
  · exact hcmd (s := "textasciitilde\x7b\x7d".toList ++ t) rfl
  · exact hcmd (s := "textasciicircum\x7b\x7d".toList ++ t) rfl
  · exact normalizeList_tokenize_cons (by decide) t
  · exact normalizeList_tokenize_cons (by decide) t
  · next h _ _ _ _ _ _ _ _ _ hn hr =>
    rw [Text.spaceEnd_of_ne hn hr]
    exact normalizeList_tokenize_cons h t

/-- **Literal text** is read back with its line endings as spaces. -/
theorem normalizeList_tokenize_escape (s : String) (t : List Char) :
    normalizeList (tokenize (escape s.toList ++ t))
      = cons (.text (Text.spaceEnds s)) (normalizeList (tokenize t)) := by
  rw [Text.spaceEnds]
  induction s.toList with
  | nil => exact (Inline.cons_empty _).symm
  | cons c l ih =>
    rw [escape] at ih ⊢
    rw [List.flatMap_cons, List.append_assoc, normalizeList_tokenize_escapeChar, ih,
      Inline.cons_text_cons_text, String.singleton_eq_ofList, ← String.ofList_append,
      List.singleton_append, List.map_cons]

/-- An argument that holds literal text. -/
theorem argumentText_escape (s : String) :
    argumentText (escape s.toList) = Text.spaceEnds s := by
  have h := normalizeList_tokenize_escape s []
  rw [List.append_nil, tokenize_nil] at h
  rw [argumentText, ← Inline.plainTextList_normalizeList, h, Inline.plainTextList_cons]
  exact String.append_empty

/-! ### Commands with their arguments -/

theorem readGroup?_append {make : List Char → Command} {body : List Char} (h : Inert body)
    (t : List Char) :
    Command.readGroup? make ('\x7b' :: (body ++ '\x7d' :: t)) = some (make body, t) := by
  rw [Command.readGroup?, braced?_append h]
  rfl

theorem readLink?_append {href label : List Char} (h : Inert href) (h' : Inert label)
    (t : List Char) :
    Command.readLink? ('\x7b' :: (href ++ '\x7d' :: '\x7b' :: (label ++ '\x7d' :: t)))
      = some (.link href label, t) := by
  rw [Command.readLink?, braced?_append h]
  dsimp only
  rw [braced?_append h']
  rfl

/-- The option of an image with a description in braces. -/
theorem bracketed?_alt {alt : List Char} (h : Inert alt) (t : List Char) :
    bracketed? ('[' :: ("alt=".toList ++ '\x7b' :: (alt ++ '\x7d' :: ']' :: t)))
      = some ("alt=".toList ++ '\x7b' :: (alt ++ ['\x7d']), t) := by
  rw [bracketed?, closeBracket?_append_of_forall (by decide), closeBracket?,
    closeBracket?_append h, closeBracket?, Nat.add_sub_cancel, closeBracket?]
  rfl

theorem splitTop_alt {alt : List Char} (h : Inert alt) :
    splitTop ',' ("alt=".toList ++ '\x7b' :: (alt ++ ['\x7d']))
      = ["alt=".toList ++ '\x7b' :: (alt ++ ['\x7d'])] := by
  have hc : splitTopFrom ',' 1 ['\x7d'] = [['\x7d']] := rfl
  rw [splitTop, splitTopFrom_append_of_forall (by decide), splitTopFrom,
    splitTopFrom_append h (.inr Nat.one_pos), hc, foldr_consPiece, consPiece, foldr_consPiece]

theorem unbraced_braces {s : List Char} (h : Inert s) :
    Command.unbraced (Text.trim ('\x7b' :: (s ++ ['\x7d']))) = s := by
  have hl : Text.SolidLast ('\x7b' :: (s ++ ['\x7d'])) := by
    rw [← List.cons_append]
    exact Text.solidLast_concat.mpr (by decide)
  rw [Text.trim_eq_self (Text.solidHead_cons.mpr (by decide)) hl, Command.unbraced,
    braced?_append h]

theorem alt?_braces {alt : List Char} (h : Inert alt) :
    Command.alt? ["alt=".toList ++ '\x7b' :: (alt ++ ['\x7d'])] = some alt := by
  have hs : Command.splitEquals? ("alt=".toList ++ '\x7b' :: (alt ++ ['\x7d']))
      = some ("alt".toList, '\x7b' :: (alt ++ ['\x7d'])) := rfl
  rw [Command.alt?, hs]
  dsimp only
  rw [if_pos (by decide), unbraced_braces h]

theorem readImage?_alt {alt src : List Char} (h : Inert alt) (h' : Inert src) (t : List Char) :
    Command.readImage? ('[' :: ("alt=".toList ++ '\x7b' :: (alt ++ '\x7d' :: ']' :: '\x7b' ::
        (src ++ '\x7d' :: t))))
      = some (.image src (some alt), t) := by
  rw [Command.readImage?, bracketed?_alt h]
  dsimp only
  rw [braced?_append h', splitTop_alt h, alt?_braces h]
  rfl

theorem readImage?_append {src : List Char} (h : Inert src) (t : List Char) :
    Command.readImage? ('\x7b' :: (src ++ '\x7d' :: t)) = some (.image src none, t) := by
  have hb : bracketed? ('\x7b' :: (src ++ '\x7d' :: t)) = none := rfl
  rw [Command.readImage?, hb]
  dsimp only
  rw [braced?_append h]
  rfl

/-! ### Printed inlines -/

/-- **A printed inline that is a command** in front of any text. -/
theorem normalizeList_tokenize_command {s t : List Char} {cmd : Command} {i : Inline}
    (h : Command.read? s = some (cmd, t)) (hi : Inline.normalize cmd.inline = i) :
    normalizeList (tokenize ('\\' :: s)) = cons i (normalizeList (tokenize t)) := by
  rw [tokenize_command h, normalizeList_cons, hi]

mutual

theorem normalizeList_tokenize_printInline : ∀ (i : Inline) (t : List Char),
    normalizeList (tokenize (printInline i ++ t))
      = cons (Inline.normalize i.spaceEnds) (normalizeList (tokenize t))
  | .text s, t => normalizeList_tokenize_escape s t
  | .strong xs, t => by
    -- the argument is inert, so the command takes all of it and nothing behind it
    rw [printInline_strong, command_append]
    refine normalizeList_tokenize_command (readGroup?_append (inert_printInlines xs) t) ?_
    rw [Command.inline, Inline.normalize, normalizeList_tokenize_printInlines xs]
    rfl
  | .emphasis xs, t => by
    rw [printInline_emphasis, command_append]
    refine normalizeList_tokenize_command (readGroup?_append (inert_printInlines xs) t) ?_
    rw [Command.inline, Inline.normalize, normalizeList_tokenize_printInlines xs]
    rfl
  | .underline xs, t => by
    rw [printInline_underline, command_append]
    refine normalizeList_tokenize_command (readGroup?_append (inert_printInlines xs) t) ?_
    rw [Command.inline, Inline.normalize, normalizeList_tokenize_printInlines xs]
    rfl
  | .code s, t => by
    rw [printInline_code, command_append]
    refine normalizeList_tokenize_command (readGroup?_append (inert_escape s.toList) t) ?_
    rw [Command.inline, argumentText_escape]
    rfl
  | .lineBreak, t => by
    rw [printInline_lineBreak]
    have hr : Command.read? ("newline ".toList ++ t) = some (.lineBreak, t) := rfl
    exact normalizeList_tokenize_command hr rfl
  | .link href xs, t => by
    rw [printInline_link, command_pair_append]
    refine normalizeList_tokenize_command
      (readLink?_append (inert_escape href.toList) (inert_printInlines xs) t) ?_
    rw [Command.inline, Inline.normalize, normalizeList_tokenize_printInlines xs,
      argumentText_escape]
    rfl
  | .image src none, t => by
    rw [printInline_image, command_append]
    refine normalizeList_tokenize_command (readImage?_append (inert_escape src.toList) t) ?_
    rw [Command.inline, argumentText_escape]
    rfl
  | .image src (some alt), t => by
    rw [printInline_image_alt, List.append_assoc, List.cons_append, List.append_assoc,
      List.cons_append, List.cons_append, List.cons_append, List.append_assoc,
      List.singleton_append]
    refine normalizeList_tokenize_command
      (readImage?_alt (inert_escape alt.toList) (inert_escape src.toList) t) ?_
    rw [Command.inline, Option.map_some, argumentText_escape, argumentText_escape]
    rfl

theorem normalizeList_tokenize_printInlines : ∀ xs : List Inline,
    normalizeList (tokenize (printInlines xs)) = normalizeList (spaceEndsList xs)
  | [] => by
    show normalizeList (tokenize []) = _
    rw [tokenize_nil, spaceEndsList]
  | i :: rest => by
    rw [printInlines_cons, normalizeList_tokenize_printInline i,
      normalizeList_tokenize_printInlines rest, spaceEndsList, normalizeList_cons]

end

/-- **Printed inlines in front of any text** are read as these inlines in front of what the text
is read as. -/
theorem normalizeList_tokenize_print (xs : List Inline) (t : List Char) :
    normalizeList (tokenize (printInlines xs ++ t))
      = normalizeList (spaceEndsList xs ++ tokenize t) := by
  induction xs with
  | nil => rw [spaceEndsList, List.nil_append]; rfl
  | cons i rest ih =>
    rw [printInlines_cons, List.append_assoc, normalizeList_tokenize_printInline, ih,
      spaceEndsList, List.cons_append, normalizeList_cons]

/-- **The scan inverts the printer in any right context**: nothing behind a printed inline is
swallowed by it, and literal text is read back whatever characters it has. -/
theorem tokenize_inverts_print (xs : List Inline) (t : List Char) (s : String) :
    normalizeList (tokenize (printInlines xs ++ t))
        = normalizeList (spaceEndsList xs ++ tokenize t) ∧
      normalizeList (tokenize (escape s.toList)) = normalizeList [.text (Text.spaceEnds s)] := by
  constructor
  · exact normalizeList_tokenize_print xs t
  · rw [← List.append_nil (escape s.toList), normalizeList_tokenize_escape, tokenize_nil]
    rfl

end Latex

end Interdoc
