import Interdoc.Latex.Group

/-!
# Inline commands

`Command.read?` reads the command after a backslash: a control symbol, or a control word with the
arguments it takes, which stay unread text.  It returns what follows the command as well, and fails
on everything outside the vocabulary, also on a known word without its arguments.

A control word that stands for a character is ended by an empty group or by one space, `\newline` by
one space; `\^` and `\~` may be followed by an empty group.
-/

namespace Interdoc.Latex

/-- An inline command with its arguments. -/
inductive Command where
  /-- A command that prints one character. -/
  | char (c : Char)
  | lineBreak
  | strong (body : List Char)
  | emphasis (body : List Char)
  | underline (body : List Char)
  | code (body : List Char)
  | link (href label : List Char)
  | url (href : List Char)
  | image (src : List Char) (alt : Option (List Char))

namespace Command

/-- The number of characters in the arguments. -/
def size : Command → Nat
  | char _ => 0
  | lineBreak => 0
  | strong body => body.length
  | emphasis body => body.length
  | underline body => body.length
  | code body => body.length
  | link href label => href.length + label.length
  | url href => href.length
  | image src alt => src.length + (alt.map List.length).getD 0

/-! ### Ends of control words -/

/-- The text after one space, if it starts with one. -/
def skipSpace : List Char → List Char
  | ' ' :: s => s
  | s => s

/-- The text after an empty group, if it starts with one. -/
def skipEmptyGroup : List Char → List Char
  | '\x7b' :: '\x7d' :: s => s
  | s => s

/-- The text after what ends a control word that stands for a character. -/
def skipTerminator : List Char → List Char
  | '\x7b' :: '\x7d' :: s => s
  | ' ' :: s => s
  | s => s

/-! ### Image options -/

/-- The text before and after the first equals sign. -/
def splitEquals? : List Char → Option (List Char × List Char)
  | [] => none
  | '=' :: s => some ([], s)
  | c :: s => (splitEquals? s).map fun (key, value) => (c :: key, value)

/-- The value of an option without the braces around it. -/
def unbraced (s : List Char) : List Char :=
  match braced? s with
  | some (content, []) => content
  | _ => s

/-- The value of the first option `alt`, without blanks and braces around it. -/
def alt? : List (List Char) → Option (List Char)
  | [] => none
  | entry :: rest =>
    match splitEquals? entry with
    | some (key, value) =>
      if Text.trim key = "alt".toList then some (unbraced (Text.trim value)) else alt? rest
    | none => alt? rest

/-! ### Reading -/

/-- A command whose only argument is a braced group at the start of the text. -/
def readGroup? (make : List Char → Command) (s : List Char) : Option (Command × List Char) :=
  (braced? s).map fun (body, rest) => (make body, rest)

/-- The arguments of `\href`. -/
def readLink? (s : List Char) : Option (Command × List Char) :=
  match braced? s with
  | some (href, rest) => (braced? rest).map fun (label, rest) => (.link href label, rest)
  | none => none

/-- The arguments of `\includegraphics`. -/
def readImage? (s : List Char) : Option (Command × List Char) :=
  match bracketed? s with
  | some (options, rest) =>
    (braced? rest).map fun (src, rest) => (.image src (alt? (splitTop ',' options)), rest)
  | none => (braced? s).map fun (src, rest) => (.image src none, rest)

/-- The command with the name, and what follows it, for a text that comes after the name. -/
def readWord? (name s : List Char) : Option (Command × List Char) :=
  if name = "textbf".toList then readGroup? .strong s
  else if name = "textit".toList || name = "emph".toList then readGroup? .emphasis s
  else if name = "underline".toList || name = "uline".toList then readGroup? .underline s
  else if name = "texttt".toList then readGroup? .code s
  else if name = "href".toList then readLink? s
  else if name = "url".toList then readGroup? .url s
  else if name = "includegraphics".toList then readImage? s
  else if name = "newline".toList then some (.lineBreak, skipSpace s)
  else if name = "textbackslash".toList then some (.char '\\', skipTerminator s)
  else if name = "textasciitilde".toList then some (.char '~', skipTerminator s)
  else if name = "textasciicircum".toList then some (.char '^', skipTerminator s)
  else none

/-- The characters that a backslash before them prints. -/
def isEscapable (c : Char) : Bool :=
  c == '#' || c == '$' || c == '%' || c == '&' || c == '_' || c == '\x7b' || c == '\x7d'

/-- The command after a backslash, and what follows it. -/
def read? : List Char → Option (Command × List Char)
  | [] => none
  | c :: s =>
    if c = '\\' then some (.lineBreak, s)
    else if isEscapable c then some (.char c, s)
    else if c = '^' || c = '~' then some (.char c, skipEmptyGroup s)
    else if c.isAlpha then
      readWord? ((c :: s).takeWhile Char.isAlpha) ((c :: s).dropWhile Char.isAlpha)
    else none

/-! ### Sizes

A command and what follows it are no longer than the text that they are read from. -/

theorem length_skipSpace (s : List Char) : (skipSpace s).length ≤ s.length := by
  unfold skipSpace; split <;> simp

theorem length_skipEmptyGroup (s : List Char) : (skipEmptyGroup s).length ≤ s.length := by
  unfold skipEmptyGroup
  split <;> simp
  omega

theorem length_skipTerminator (s : List Char) : (skipTerminator s).length ≤ s.length := by
  unfold skipTerminator
  split <;> simp
  omega

theorem length_splitEquals? {s key value : List Char} (h : splitEquals? s = some (key, value)) :
    key.length + value.length < s.length := by
  fun_induction splitEquals? s generalizing key value <;>
    simp_all [Option.map_eq_some_iff, Prod.ext_iff]
  grind

theorem length_trim (s : List Char) : (Text.trim s).length ≤ s.length := by
  unfold Text.trim Text.trimRight Text.dropRightWhile Text.trimLeft
  have h₁ := (List.dropWhile_sublist Text.isBlankChar (l := s)).length_le
  have h₂ := (List.dropWhile_sublist Text.isBlankChar
    (l := (List.dropWhile Text.isBlankChar s).reverse)).length_le
  simp at h₂ ⊢
  omega

theorem length_unbraced (s : List Char) : (unbraced s).length ≤ s.length := by
  unfold unbraced
  split
  · next h => have := length_braced? h; omega
  · omega

theorem length_alt? {entries : List (List Char)} {value : List Char} {n : Nat}
    (hn : ∀ e ∈ entries, e.length ≤ n) (h : alt? entries = some value) : value.length ≤ n := by
  fun_induction alt? entries with
  | case1 => simp at h
  | case2 entry rest key value' he hk =>
    have h₁ := length_splitEquals? he
    have h₂ := length_trim value'
    have h₃ := length_unbraced (Text.trim value')
    have h₄ := hn entry (by simp)
    simp only [Option.some.injEq] at h
    subst h
    omega
  | case3 entry rest key value' he hk ih => exact ih (fun e he => hn e (by simp [he])) h
  | case4 entry rest he ih => exact ih (fun e he => hn e (by simp [he])) h

theorem size_readGroup? {make : List Char → Command} {s rest : List Char} {cmd : Command}
    (hm : ∀ body, (make body).size = body.length) (h : readGroup? make s = some (cmd, rest)) :
    cmd.size + rest.length ≤ s.length := by
  unfold readGroup? at h
  obtain ⟨⟨body, rest'⟩, hb, he⟩ := Option.map_eq_some_iff.1 h
  have := length_braced? hb
  simp only [Prod.mk.injEq] at he
  obtain ⟨rfl, rfl⟩ := he
  rw [hm]
  omega

theorem size_readLink? {s rest : List Char} {cmd : Command} (h : readLink? s = some (cmd, rest)) :
    cmd.size + rest.length ≤ s.length := by
  unfold readLink? at h
  split at h
  · next href rest₁ h₁ =>
    obtain ⟨⟨label, rest₂⟩, h₂, he⟩ := Option.map_eq_some_iff.1 h
    have := length_braced? h₁
    have := length_braced? h₂
    simp only [Prod.mk.injEq] at he
    obtain ⟨rfl, rfl⟩ := he
    simp only [size]
    omega
  · simp at h

theorem size_readImage? {s rest : List Char} {cmd : Command}
    (h : readImage? s = some (cmd, rest)) : cmd.size + rest.length ≤ s.length := by
  unfold readImage? at h
  split at h
  · next options rest₁ h₁ =>
    obtain ⟨⟨src, rest₂⟩, h₂, he⟩ := Option.map_eq_some_iff.1 h
    have := length_bracketed? h₁
    have := length_braced? h₂
    simp only [Prod.mk.injEq] at he
    obtain ⟨rfl, rfl⟩ := he
    simp only [size]
    cases ha : alt? (splitTop ',' options) with
    | none => simp; omega
    | some value =>
      have := length_alt? (fun e he => length_of_mem_splitTopFrom he) ha
      simp
      omega
  · next h₁ =>
    obtain ⟨⟨src, rest₂⟩, h₂, he⟩ := Option.map_eq_some_iff.1 h
    have := length_braced? h₂
    simp only [Prod.mk.injEq] at he
    obtain ⟨rfl, rfl⟩ := he
    simp [size]
    omega

/-- A command that is read, and what follows it, are no longer than a text. -/
def FitsIn (s : List Char) (found : Option (Command × List Char)) : Prop :=
  ∀ cmd rest, found = some (cmd, rest) → cmd.size + rest.length ≤ s.length

theorem FitsIn.some {cmd : Command} {s rest : List Char} (h : cmd.size + rest.length ≤ s.length) :
    FitsIn s (some (cmd, rest)) := by
  intro cmd' rest' heq
  obtain ⟨rfl, rfl⟩ := Prod.mk.inj (Option.some.inj heq)
  exact h

theorem FitsIn.none {s : List Char} : FitsIn s none := by
  rintro _ _ ⟨⟩

theorem FitsIn.ite {p : Prop} [Decidable p] {s : List Char} {a b : Option (Command × List Char)}
    (ha : FitsIn s a) (hb : FitsIn s b) : FitsIn s (if p then a else b) := by
  split
  · exact ha
  · exact hb

theorem size_readWord? {name s rest : List Char} {cmd : Command}
    (h : readWord? name s = some (cmd, rest)) : cmd.size + rest.length ≤ s.length := by
  have hgroup {make : List Char → Command} (hm : ∀ body, (make body).size = body.length) :
      FitsIn s (readGroup? make s) := fun _ _ => size_readGroup? hm
  have hlink : FitsIn s (readLink? s) := fun _ _ => size_readLink?
  have himage : FitsIn s (readImage? s) := fun _ _ => size_readImage?
  have hspace : FitsIn s (some (.lineBreak, skipSpace s)) := by
    refine .some ?_
    rw [size, Nat.zero_add]
    exact length_skipSpace s
  have hchar (c : Char) : FitsIn s (some (.char c, skipTerminator s)) := by
    refine .some ?_
    rw [size, Nat.zero_add]
    exact length_skipTerminator s
  have hall : FitsIn s (readWord? name s) := by
    rw [readWord?]
    exact .ite (hgroup fun _ => rfl) <| .ite (hgroup fun _ => rfl) <| .ite (hgroup fun _ => rfl) <|
      .ite (hgroup fun _ => rfl) <| .ite hlink <| .ite (hgroup fun _ => rfl) <| .ite himage <|
      .ite hspace <| .ite (hchar _) <| .ite (hchar _) <| .ite (hchar _) .none
  exact hall cmd rest h

theorem size_read? {s rest : List Char} {cmd : Command} (h : read? s = some (cmd, rest)) :
    cmd.size + rest.length ≤ s.length := by
  cases s with
  | nil => cases h
  | cons c s =>
    have hbreak : FitsIn (c :: s) (some (.lineBreak, s)) :=
      .some (by rw [size, Nat.zero_add]; exact Nat.le_succ _)
    have hchar {rest : List Char} (hrest : rest.length ≤ s.length) :
        FitsIn (c :: s) (some (.char c, rest)) :=
      .some (by rw [size, Nat.zero_add]; exact Nat.le_succ_of_le hrest)
    have hword : FitsIn (c :: s)
        (readWord? ((c :: s).takeWhile Char.isAlpha) ((c :: s).dropWhile Char.isAlpha)) :=
      fun _ _ hread => Nat.le_trans (size_readWord? hread) (List.dropWhile_sublist _).length_le
    have hall : FitsIn (c :: s) (read? (c :: s)) := by
      rw [read?]
      exact .ite hbreak <| .ite (hchar (Nat.le_refl _)) <| .ite (hchar (length_skipEmptyGroup s)) <|
        .ite hword .none
    exact hall cmd rest h

end Command

end Interdoc.Latex
