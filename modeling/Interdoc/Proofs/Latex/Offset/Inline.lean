import Interdoc.Proofs.Latex.InlineRoundTrip
import Interdoc.Proofs.Latex.Offset.Groups

/-!
# Inline text by offsets

The scan for inlines as it runs over the octets of a text: at an offset it tries to read a command,
and otherwise takes literal text up to the offset of the next backslash.  Arguments are texts of
their own, which are scanned from their start.  The scan fails where it would stay at an offset, and
where an argument would not be shorter than the text that holds it.

The scan reads every text, and as the inlines that `Latex.tokenize` finds (`tokenize?_eq`).
-/

namespace Interdoc.Latex.Offset

open Utf8

variable {s u v : List Char}

/-! ### Names -/

/-- Whether an octet is that of a letter. -/
def isLetter (b : UInt8) : Bool :=
  (0x41 ≤ b && b ≤ 0x5a) || (0x61 ≤ b && b ≤ 0x7a)

/-- The number of octets of the letters at the start of a text. -/
def nameLength (s : List Char) : Nat :=
  ((encode s).takeWhile isLetter).length

theorem isLetter_toUInt8_iff {n : Nat} (h : n < 0x100) :
    isLetter n.toUInt8 = true ↔ (65 ≤ n ∧ n ≤ 90) ∨ (97 ≤ n ∧ n ≤ 122) := by
  simp only [isLetter, UInt8.le_iff_toNat_le, toNat_toUInt8 h, Bool.or_eq_true, Bool.and_eq_true,
    decide_eq_true_eq]
  exact Iff.rfl

theorem isAlpha_iff {c : Char} :
    c.isAlpha = true ↔ (65 ≤ c.toNat ∧ c.toNat ≤ 90) ∨ (97 ≤ c.toNat ∧ c.toNat ≤ 122) := by
  have hranges : c.isAlpha = (decide (65 ≤ c.val ∧ c.val ≤ 90) ||
      (decide (97 ≤ c.val) && decide (c.val ≤ 122))) := rfl
  simp only [hranges, UInt32.le_iff_toNat_le, Bool.or_eq_true, Bool.and_eq_true, decide_eq_true_eq]
  exact Iff.rfl

/-- Every letter has one octet. -/
theorem nameLength_eq (s : List Char) : nameLength s = size (s.takeWhile Char.isAlpha) := by
  rw [nameLength]
  induction s with
  | nil => rfl
  | cons c s ih =>
    by_cases hc : c.isAlpha = true
    · have hrange := isAlpha_iff.mp hc
      have hascii : c.toNat < 0x80 := by omega
      have hletter : isLetter (ascii c) = true := (isLetter_toUInt8_iff (by omega)).mpr hrange
      rw [encode_cons, encodeChar_of_ascii hascii, List.singleton_append,
        List.takeWhile_cons_of_pos hletter, List.takeWhile_cons_of_pos hc, List.length_cons, ih,
        size_cons, charSize_of_ascii hascii, Nat.add_comm]
    · -- the first octet of the character is that of no letter either
      obtain ⟨n, tails, he, hn, hletter⟩ : ∃ n tails, encodeChar c = n.toUInt8 :: tails ∧
          n < 0x100 ∧ ¬ ((65 ≤ n ∧ n ≤ 90) ∨ (97 ≤ n ∧ n ≤ 122)) := by
        by_cases hascii : c.toNat < 0x80
        · exact ⟨_, [], encodeChar_of_ascii hascii, by omega, isAlpha_iff.not.mp hc⟩
        · obtain ⟨n, tails, he, hmin, hmax, -⟩ := exists_encodeChar_of_not_ascii hascii
          exact ⟨n, tails, he, hmax, by omega⟩
      rw [encode_cons, he, List.cons_append,
        List.takeWhile_cons_of_neg ((isLetter_toUInt8_iff hn).not.mpr hletter),
        List.takeWhile_cons_of_neg hc]
      rfl

/-! ### Ends of control words -/

/-- The offset behind an empty group, if there is one at an offset. -/
def skipEmptyGroup? (s : List Char) (offset : Nat) : Option Nat := do
  let rest ← slice? s offset (size s)
  some (if Text.startsWith ['\x7b', '\x7d'] rest then offset + 2 else offset)

/-- The offset behind one space, if there is one at an offset. -/
def skipSpace? (s : List Char) (offset : Nat) : Option Nat := do
  let rest ← slice? s offset (size s)
  some (if Text.startsWith [' '] rest then offset + 1 else offset)

/-- The offset behind what ends a control word that stands for a character. -/
def skipTerminator? (s : List Char) (offset : Nat) : Option Nat := do
  let skipped ← skipEmptyGroup? s offset
  if skipped ≠ offset then some skipped else skipSpace? s offset

theorem size_sub_self (u v : List Char) : size (u ++ v) - size v = size u := by
  rw [size_append, Nat.add_sub_cancel]

theorem startsWith_append (p v : List Char) : Text.startsWith p (p ++ v) = true :=
  Text.startsWith_iff.mpr (List.prefix_append p v)

theorem not_startsWith {p : List Char} (h : ∀ t, v ≠ p ++ t) : ¬ Text.startsWith p v = true := by
  rw [Text.startsWith_iff]
  rintro ⟨t, ht⟩
  exact h t ht.symm

theorem skipEmptyGroup?_append (hs : s = u ++ v) :
    skipEmptyGroup? s (size u) = some (size s - size (Command.skipEmptyGroup v)) := by
  rw [skipEmptyGroup?, hs, slice?_right, Option.bind_eq_bind, Option.bind_some]
  fun_cases Command.skipEmptyGroup v with
  | case1 v =>
    have hstart : Text.startsWith ['\x7b', '\x7d'] ('\x7b' :: '\x7d' :: v) = true :=
      startsWith_append _ v
    rw [if_pos hstart, List.append_cons, List.append_cons, size_sub_self, size_concat (by decide),
      size_concat (by decide)]
  | case2 _ hne => rw [if_neg (not_startsWith fun t => hne t), size_sub_self]

theorem skipSpace?_append (hs : s = u ++ v) :
    skipSpace? s (size u) = some (size s - size (Command.skipSpace v)) := by
  rw [skipSpace?, hs, slice?_right, Option.bind_eq_bind, Option.bind_some]
  fun_cases Command.skipSpace v with
  | case1 v =>
    have hstart : Text.startsWith [' '] (' ' :: v) = true := startsWith_append _ v
    rw [if_pos hstart, List.append_cons, size_sub_self, size_concat (by decide)]
  | case2 _ hne => rw [if_neg (not_startsWith fun t => hne t), size_sub_self]

theorem skipTerminator?_append (hs : s = u ++ v) :
    skipTerminator? s (size u) = some (size s - size (Command.skipTerminator v)) := by
  have hsize : size s - size v = size u := by rw [hs, size_sub_self]
  rw [skipTerminator?, skipEmptyGroup?_append hs, Option.bind_eq_bind, Option.bind_some]
  fun_cases Command.skipTerminator v with
  | case1 v =>
    have hgroup : size s - size v = size u + 2 := by
      rw [hs, List.append_cons, List.append_cons, size_sub_self, size_concat (by decide),
        size_concat (by decide)]
    rw [Command.skipEmptyGroup, hgroup, if_pos (by omega)]
  | case2 v =>
    have hgroup : Command.skipEmptyGroup (' ' :: v) = ' ' :: v := rfl
    rw [hgroup, hsize, if_neg (by simp), skipSpace?_append hs]
    rfl
  | case3 _ hgroup hspace =>
    rw [Command.skipEmptyGroup, hsize, if_neg (by simp), skipSpace?_append hs, Command.skipSpace,
      hsize]
    all_goals assumption

/-! ### Image options -/

/-- The value of an option without the braces around it. -/
def unbraced? (value : List Char) : Option (List Char) := do
  match ← braced? value 0 with
  | some (content, next) => some (if next = size value then content else value)
  | none => some value

/-- The value of the first option `alt`. -/
def findAlt? : List (List Char) → Option (Option (List Char))
  | [] => some none
  | entry :: rest =>
    match Command.splitEquals? entry with
    | some (key, value) =>
      if Text.trim key = "alt".toList then (unbraced? (Text.trim value)).map some
      else findAlt? rest
    | none => findAlt? rest

/-- The alternative text among the options of an image. -/
def alt? (options : List Char) : Option (Option (List Char)) := do
  let entries ← splitTop? ',' options
  findAlt? entries

theorem unbraced?_eq (value : List Char) : unbraced? value = some (Command.unbraced value) := by
  rw [unbraced?, braced?_zero, Command.unbraced]
  cases h : Latex.braced? value with
  | none => rfl
  | some r =>
    obtain ⟨content, rest⟩ := r
    obtain ⟨front, hfront⟩ := braced?_isSuffix h
    simp only [Option.map_some, Option.bind_eq_bind, Option.bind_some, placed_of_eq hfront.symm]
    cases rest with
    | nil => rw [← hfront, List.append_nil, if_pos rfl]
    | cons c rest =>
      have hpos := charSize_pos c
      rw [if_neg]
      rw [← hfront, size_append, size_cons]
      omega

theorem findAlt?_eq (entries : List (List Char)) :
    findAlt? entries = some (Command.alt? entries) := by
  fun_induction Command.alt? entries with
  | case1 => rfl
  | case2 entry rest key value hentry hkey =>
    rw [findAlt?, hentry]
    dsimp only
    rw [if_pos hkey, unbraced?_eq, Option.map_some]
  | case3 entry rest key value hentry hkey ih =>
    rw [findAlt?, hentry]
    dsimp only
    rw [if_neg hkey, ih]
  | case4 entry rest hentry ih =>
    rw [findAlt?, hentry]
    exact ih

theorem alt?_eq (options : List Char) :
    alt? options = some (Command.alt? (splitTop ',' options)) := by
  rw [alt?, splitTop?_eq, Option.bind_eq_bind, Option.bind_some, findAlt?_eq]

/-! ### Commands -/

/-- A command whose only argument is a braced group at an offset. -/
def group? (make : List Char → Command) (s : List Char) (offset : Nat) :
    Option (Option (Command × Nat)) := do
  let found ← braced? s offset
  some (found.map fun (body, next) => (make body, next))

/-- The arguments of `\href` at an offset. -/
def link? (s : List Char) (offset : Nat) : Option (Option (Command × Nat)) := do
  match ← braced? s offset with
  | none => some none
  | some (href, next) =>
    let found ← braced? s next
    some (found.map fun (label, next) => (.link href label, next))

/-- The arguments of `\includegraphics` at an offset. -/
def image? (s : List Char) (offset : Nat) : Option (Option (Command × Nat)) := do
  let (options, next) := match ← bracketed? s offset with
    | some (options, next) => (some options, next)
    | none => (none, offset)
  match ← braced? s next with
  | none => some none
  | some (src, next) =>
    let alt ← match options with
      | some options => alt? options
      | none => some none
    some (some (.image src alt, next))

/-- The command with a name that ends at an offset, and the offset behind the command. -/
def word? (s name : List Char) (offset : Nat) : Option (Option (Command × Nat)) :=
  if name = "textbf".toList then group? .strong s offset
  else if name = "textit".toList || name = "emph".toList then group? .emphasis s offset
  else if name = "underline".toList || name = "uline".toList then group? .underline s offset
  else if name = "texttt".toList then group? .code s offset
  else if name = "href".toList then link? s offset
  else if name = "url".toList then group? .url s offset
  else if name = "includegraphics".toList then image? s offset
  else if name = "newline".toList then do
    let next ← skipSpace? s offset
    some (some (.lineBreak, next))
  else if name = "textbackslash".toList then do
    let next ← skipTerminator? s offset
    some (some (.char '\\', next))
  else if name = "textasciitilde".toList then do
    let next ← skipTerminator? s offset
    some (some (.char '~', next))
  else if name = "textasciicircum".toList then do
    let next ← skipTerminator? s offset
    some (some (.char '^', next))
  else some none

/-- The command whose backslash is at an offset, and the offset behind the command. -/
def read? (s : List Char) (offset : Nat) : Option (Option (Command × Nat)) := do
  let rest ← slice? s (offset + 1) (size s)
  match rest with
  | [] => some none
  | c :: _ =>
    if c = '\\' then some (some (.lineBreak, offset + 2))
    else if Command.isEscapable c then some (some (.char c, offset + 2))
    else if c = '^' || c = '~' then do
      let next ← skipEmptyGroup? s (offset + 2)
      some (some (.char c, next))
    else if c.isAlpha then do
      let name ← slice? rest 0 (nameLength rest)
      word? s name (offset + 1 + nameLength rest)
    else some none

theorem group?_append (make : List Char → Command) (hs : s = u ++ v) :
    group? make s (size u) = some ((Command.readGroup? make v).map (placed s)) := by
  rw [group?, braced?_append hs, Command.readGroup?]
  cases Latex.braced? v <;> rfl

theorem link?_append (hs : s = u ++ v) :
    link? s (size u) = some ((Command.readLink? v).map (placed s)) := by
  rw [link?, braced?_append hs, Command.readLink?]
  cases h : Latex.braced? v with
  | none => rfl
  | some r =>
    obtain ⟨href, rest⟩ := r
    obtain ⟨front, hrest, hsize⟩ := exists_front hs (braced?_isSuffix h)
    simp only [Option.map_some, Option.bind_eq_bind, Option.bind_some, placed, hsize,
      braced?_append hrest]
    cases Latex.braced? rest <;> rfl

theorem image?_append (hs : s = u ++ v) :
    image? s (size u) = some ((Command.readImage? v).map (placed s)) := by
  rw [image?, bracketed?_append hs, Command.readImage?]
  cases h : Latex.bracketed? v with
  | none =>
    simp only [Option.map_none, Option.bind_eq_bind, Option.bind_some, braced?_append hs]
    cases Latex.braced? v <;> rfl
  | some r =>
    obtain ⟨options, rest⟩ := r
    obtain ⟨front, hrest, hsize⟩ := exists_front hs (bracketed?_isSuffix h)
    simp only [Option.map_some, Option.bind_eq_bind, Option.bind_some, placed, hsize,
      braced?_append hrest, alt?_eq]
    cases Latex.braced? rest <;> rfl

/-- A choice between two readers is read as the one that is chosen. -/
theorem ite_eq_placed {α : Type} {p : Prop} [Decidable p] {x y : Option (Option (α × Nat))}
    {a b : Option (α × List Char)} (hx : p → x = some (a.map (placed s)))
    (hy : y = some (b.map (placed s))) :
    (if p then x else y) = some ((if p then a else b).map (placed s)) := by
  by_cases h : p
  · rw [if_pos h, if_pos h, hx h]
  · rw [if_neg h, if_neg h, hy]

theorem word?_append (name : List Char) (hs : s = u ++ v) :
    word? s name (size u) = some ((Command.readWord? name v).map (placed s)) := by
  rw [word?, Command.readWord?]
  have hspace : (do
      let next ← skipSpace? s (size u)
      some (some (Command.lineBreak, next))) =
        some ((some (Command.lineBreak, Command.skipSpace v)).map (placed s)) := by
    rw [skipSpace?_append hs]
    rfl
  have hchar (c : Char) : (do
      let next ← skipTerminator? s (size u)
      some (some (Command.char c, next))) =
        some ((some (Command.char c, Command.skipTerminator v)).map (placed s)) := by
    rw [skipTerminator?_append hs]
    rfl
  exact ite_eq_placed (fun _ => group?_append _ hs) <|
    ite_eq_placed (fun _ => group?_append _ hs) <| ite_eq_placed (fun _ => group?_append _ hs) <|
    ite_eq_placed (fun _ => group?_append _ hs) <| ite_eq_placed (fun _ => link?_append hs) <|
    ite_eq_placed (fun _ => group?_append _ hs) <| ite_eq_placed (fun _ => image?_append hs) <|
    ite_eq_placed (fun _ => hspace) <| ite_eq_placed (fun _ => hchar _) <|
    ite_eq_placed (fun _ => hchar _) <| ite_eq_placed (fun _ => hchar _) rfl

theorem ascii_of_isEscapable {c : Char} (h : Command.isEscapable c = true) : c.toNat < 0x80 := by
  simp only [Command.isEscapable, Bool.or_eq_true, beq_iff_eq] at h
  rcases h with (((((rfl | rfl) | rfl) | rfl) | rfl) | rfl) | rfl <;> decide

/-- **A command at an offset** is the one that is read behind its backslash. -/
theorem read?_append (hs : s = u ++ '\\' :: v) :
    read? s (size u) = some ((Command.read? v).map (placed s)) := by
  have hbehind : s = u ++ ['\\'] ++ v := by simp [hs]
  have hsize := size_concat (a := '\\') (by decide) u
  have hslice : slice? s (size u + 1) (size s) = some v := by
    rw [← hsize, slice?_of_eq hbehind]
  rw [read?, hslice, Option.bind_eq_bind, Option.bind_some]
  cases v with
  | nil => rfl
  | cons c v =>
    -- what stands behind a control symbol
    have hsymbol (hc : c.toNat < 0x80) :
        s = u ++ ['\\', c] ++ v ∧ size u + 2 = size (u ++ ['\\', c]) := by
      refine ⟨by simp [hs], ?_⟩
      rw [List.append_cons, size_concat hc, hsize]
    have hread (cmd : Command) (hc : c.toNat < 0x80) :
        some (some (cmd, size u + 2)) = some ((some (cmd, v)).map (placed s)) := by
      rw [Option.map_some, placed_of_eq (hsymbol hc).1, (hsymbol hc).2]
    rw [Command.read?]
    refine ite_eq_placed (fun hc => ?_) <| ite_eq_placed (fun hc => ?_) <|
      ite_eq_placed (fun hc => ?_) <| ite_eq_placed (fun hc => ?_) rfl
    · exact hread _ (by rw [hc]; decide)
    · exact hread _ (ascii_of_isEscapable hc)
    · have hascii : c.toNat < 0x80 := by
        rw [Bool.or_eq_true, decide_eq_true_eq, decide_eq_true_eq] at hc
        rcases hc with rfl | rfl <;> decide
      rw [(hsymbol hascii).2, skipEmptyGroup?_append (hsymbol hascii).1]
      rfl
    · have hword := List.takeWhile_append_dropWhile (p := Char.isAlpha) (l := c :: v)
      have hname := slice?_left ((c :: v).takeWhile Char.isAlpha) ((c :: v).dropWhile Char.isAlpha)
      rw [hword] at hname
      rw [nameLength_eq, hname, ← hsize, ← size_append]
      exact word?_append _ (by rw [List.append_assoc, hword, hbehind])

/-! ### The scan -/

/-- The offset of the first backslash at an offset or behind it, or the end. -/
def nextMarker? (s : List Char) (offset : Nat) : Option Nat := do
  let rest ← slice? s offset (size s)
  match find? ['\\'] rest with
  | some before => some (offset + before)
  | none => some (size s)

/-- Literal text that begins at `start` and goes on to the first backslash at an offset or behind
it, and the offset behind the text. -/
def literal? (s : List Char) (start offset : Nat) : Option (Inline × Nat) := do
  let next ← nextMarker? s offset
  let text ← slice? s start next
  some (.text (String.ofList text), next)

/-- The inline that a command stands for, its arguments being read by `read`. -/
def inlineWith? (read : List Char → Option (List Inline)) : Command → Option Inline
  | .char c => some (.text (String.singleton c))
  | .lineBreak => some .lineBreak
  | .strong body => (read body).map .strong
  | .emphasis body => (read body).map .emphasis
  | .underline body => (read body).map .underline
  | .code body => (read body).map fun inlines => .code (Inline.plainTextList inlines)
  | .link href label => do
    let target ← read href
    let inlines ← read label
    some (.link (Inline.plainTextList target) inlines)
  | .url href => (read href).map fun target =>
    .link (Inline.plainTextList target) [.text (Inline.plainTextList target)]
  | .image src none => (read src).map fun inlines => .image (Inline.plainTextList inlines) none
  | .image src (some alt) => do
    let inlines ← read src
    let text ← read alt
    some (.image (Inline.plainTextList inlines) (some (Inline.plainTextList text)))

/-- The inline at an offset, and the offset behind it. -/
def inlineAt? (read : List Char → Option (List Inline)) (s : List Char) (offset : Nat) :
    Option (Inline × Nat) :=
  if octet? s offset = some (ascii '\\') then do
    match ← read? s offset with
    | some (cmd, next) =>
      let inline ← inlineWith? read cmd
      some (inline, next)
    | none => literal? s offset (offset + 1)
  else literal? s offset offset

/-- The inlines of a text from an offset on.  An argument is refused unless it is shorter than the
text, and reading fails if it does not get on. -/
def tokenizeFrom? (s : List Char) (offset : Nat) : Option (List Inline) :=
  if offset < size s then do
    let (inline, next) ← inlineAt? (fun body =>
      if body.length < s.length then tokenizeFrom? body 0 else none) s offset
    if offset < next then do
      let rest ← tokenizeFrom? s next
      some (inline :: rest)
    else none
  else some []
termination_by (s.length, size s - offset)

/-- The inlines of a span of source. -/
def tokenize? (s : List Char) : Option (List Inline) :=
  tokenizeFrom? s 0

theorem find?_backslash (v : List Char) :
    (find? ['\\'] v).getD (size v) = size (v.takeWhile isLiteral) := by
  induction v with
  | nil => rw [find?_nil (List.cons_ne_nil _ _)]; rfl
  | cons c v ih =>
    by_cases hc : c = '\\'
    · subst hc
      rw [find?_cons_of ⟨v, rfl⟩, List.takeWhile_cons_of_neg (by decide)]
      rfl
    · have hnot : ¬ ['\\'] <+: c :: v := fun h => hc (List.cons_prefix_cons.mp h).1.symm
      have hliteral : isLiteral c = true := by simpa [isLiteral] using hc
      rw [find?_cons_of_not hnot, List.takeWhile_cons_of_pos hliteral, size_cons, size_cons, ← ih]
      cases find? ['\\'] v <;> rfl

theorem nextMarker?_append (hs : s = u ++ v) :
    nextMarker? s (size u) = some (size (u ++ v.takeWhile isLiteral)) := by
  rw [nextMarker?, hs, slice?_right, Option.bind_eq_bind, Option.bind_some,
    size_append u (v.takeWhile isLiteral), ← find?_backslash, size_append]
  cases find? ['\\'] v <;> rfl

theorem eq_append_takeWhile (p : Char → Bool) (hs : s = u ++ v) :
    s = u ++ v.takeWhile p ++ v.dropWhile p := by
  rw [hs, List.append_assoc, List.takeWhile_append_dropWhile]

/-- **Literal text** is cut out between characters. -/
theorem literal?_append {w m : List Char} (hs : s = w ++ m ++ v) :
    literal? s (size w) (size (w ++ m)) =
      some (.text (String.ofList (m ++ v.takeWhile isLiteral)),
        size (w ++ m ++ v.takeWhile isLiteral)) := by
  have hcut : s = w ++ (m ++ v.takeWhile isLiteral) ++ v.dropWhile isLiteral := by
    rw [← List.append_assoc]
    exact eq_append_takeWhile isLiteral hs
  have hslice := slice?_mid hcut
  rw [← List.append_assoc] at hslice
  rw [literal?, nextMarker?_append hs, Option.bind_eq_bind, Option.bind_some, hslice]
  rfl

theorem tokenize_unread (h : Command.read? v = none) :
    tokenize ('\\' :: v) = .text (String.ofList ('\\' :: v.takeWhile isLiteral)) ::
      tokenize (v.dropWhile isLiteral) := by
  rw [tokenize, if_pos rfl]
  split <;> rename_i h' <;> rw [h] at h' <;> cases h'

/-- A command is read as its inline if its arguments are. -/
theorem inlineWith?_eq {read : List Char → Option (List Inline)} {cmd : Command}
    (h : ∀ body, body.length ≤ cmd.size → read body = some (tokenize body)) :
    inlineWith? read cmd = some cmd.inline := by
  cases cmd with
  | char c => rw [inlineWith?, Command.inline]
  | lineBreak => rw [inlineWith?, Command.inline]
  | strong body | emphasis body | underline body | code body | url body =>
    rw [inlineWith?, h body le_rfl]
    rfl
  | link href label =>
    rw [inlineWith?, h href (Nat.le_add_right _ _), h label (Nat.le_add_left _ _)]
    rfl
  | image src alt =>
    cases alt with
    | none => rw [inlineWith?, h src (Nat.le_add_right _ _)]; rfl
    | some alt =>
      rw [inlineWith?, h src (Nat.le_add_right _ _), h alt (Nat.le_add_left _ _)]
      rfl

/-- What follows whatever is read is a part of the text. -/
def LeavesSuffix (v : List Char) (found : Option (Command × List Char)) : Prop :=
  ∀ r, found = some r → r.2 <:+ v

theorem LeavesSuffix.some {cmd : Command} {rest : List Char} (h : rest <:+ v) :
    LeavesSuffix v (some (cmd, rest)) := by
  rintro r hr
  cases hr
  exact h

theorem LeavesSuffix.none : LeavesSuffix v none := by
  rintro r hr
  cases hr

theorem LeavesSuffix.ite {p : Prop} [Decidable p] {a b : Option (Command × List Char)}
    (ha : LeavesSuffix v a) (hb : LeavesSuffix v b) : LeavesSuffix v (if p then a else b) := by
  split <;> assumption

theorem LeavesSuffix.map (make : List Char → Command) {found : Option (List Char × List Char)}
    (h : ∀ r, found = .some r → r.2 <:+ v) :
    LeavesSuffix v (found.map fun (body, rest) => (make body, rest)) := by
  intro r hr
  obtain ⟨⟨body, rest⟩, hb, rfl⟩ := Option.map_eq_some_iff.mp hr
  exact h _ hb

theorem leavesSuffix_readGroup? (make : List Char → Command) (v : List Char) :
    LeavesSuffix v (Command.readGroup? make v) :=
  .map make fun _ => braced?_isSuffix

theorem leavesSuffix_readLink? (v : List Char) : LeavesSuffix v (Command.readLink? v) := by
  rw [Command.readLink?]
  split
  · next h => exact .map (.link _) fun _ hb => (braced?_isSuffix hb).trans (braced?_isSuffix h)
  · exact .none

theorem leavesSuffix_readImage? (v : List Char) : LeavesSuffix v (Command.readImage? v) := by
  rw [Command.readImage?]
  split
  · next h =>
    exact .map (.image · _) fun _ hb => (braced?_isSuffix hb).trans (bracketed?_isSuffix h)
  · exact .map (.image · _) fun _ => braced?_isSuffix

theorem skipSpace_isSuffix (v : List Char) : Command.skipSpace v <:+ v := by
  fun_cases Command.skipSpace v with
  | case1 v => exact List.suffix_cons _ _
  | case2 => exact List.suffix_rfl

theorem skipEmptyGroup_isSuffix (v : List Char) : Command.skipEmptyGroup v <:+ v := by
  fun_cases Command.skipEmptyGroup v with
  | case1 v => exact ⟨['\x7b', '\x7d'], rfl⟩
  | case2 => exact List.suffix_rfl

theorem skipTerminator_isSuffix (v : List Char) : Command.skipTerminator v <:+ v := by
  fun_cases Command.skipTerminator v with
  | case1 v => exact ⟨['\x7b', '\x7d'], rfl⟩
  | case2 v => exact List.suffix_cons _ _
  | case3 => exact List.suffix_rfl

theorem leavesSuffix_readWord? (name v : List Char) :
    LeavesSuffix v (Command.readWord? name v) := by
  have hgroup (make : List Char → Command) := leavesSuffix_readGroup? make v
  have hchar (c : Char) : LeavesSuffix v (some (.char c, Command.skipTerminator v)) :=
    .some (skipTerminator_isSuffix v)
  rw [Command.readWord?]
  exact .ite (hgroup _) <| .ite (hgroup _) <| .ite (hgroup _) <| .ite (hgroup _) <|
    .ite (leavesSuffix_readLink? v) <| .ite (hgroup _) <| .ite (leavesSuffix_readImage? v) <|
    .ite (.some (skipSpace_isSuffix v)) <| .ite (hchar _) <| .ite (hchar _) <|
    .ite (hchar _) .none

/-- **What follows a command** is a part of the text. -/
theorem leavesSuffix_read? (v : List Char) : LeavesSuffix v (Command.read? v) := by
  cases v with
  | nil => exact .none
  | cons c v =>
    have htail : v <:+ c :: v := List.suffix_cons c v
    rw [Command.read?]
    refine .ite (.some htail) <| .ite (.some htail) <|
      .ite (.some ((skipEmptyGroup_isSuffix v).trans htail)) <| .ite (fun r hr => ?_) .none
    exact (leavesSuffix_readWord? _ _ r hr).trans (List.dropWhile_suffix _)

/-- **What is read at an offset** is the first inline of what is left there. -/
theorem exists_inlineAt? {read : List Char → Option (List Inline)} {c : Char}
    (hs : s = u ++ c :: v) (h : ∀ body, body.length ≤ v.length → read body = some (tokenize body)) :
    ∃ inline front rest, inlineAt? read s (size u) = some (inline, size front) ∧
      s = front ++ rest ∧ rest <:+ v ∧ tokenize (c :: v) = inline :: tokenize rest := by
  have hbehind : s = u ++ [c] ++ v := by simp [hs]
  have hliteral := eq_append_takeWhile isLiteral hbehind
  rw [inlineAt?]
  by_cases hc : c = '\\'
  · subst hc
    rw [if_pos (octet?_of_eq (by decide) hs), read?_append hs]
    cases hread : Command.read? v with
    | none =>
      refine ⟨_, _, _, ?_, hliteral, List.dropWhile_suffix _, tokenize_unread hread⟩
      rw [← size_concat (a := '\\') (by decide)]
      exact literal?_append hbehind
    | some r =>
      obtain ⟨cmd, rest⟩ := r
      have hsuffix : rest <:+ v := leavesSuffix_read? v _ hread
      obtain ⟨front, hfront, hsize⟩ := exists_front hs (hsuffix.trans (List.suffix_cons _ _))
      have hlength := Command.size_read? hread
      have hcmd : inlineWith? read cmd = some cmd.inline :=
        inlineWith?_eq fun body hbody => h body (by omega)
      refine ⟨cmd.inline, front, rest, ?_, hfront, hsuffix, tokenize_command hread⟩
      simp only [Option.map_some, placed, hsize, Option.bind_eq_bind, Option.bind_some, hcmd]
  · have hpos : isLiteral c = true := by simpa [isLiteral] using hc
    have hfound : s = u ++ [] ++ c :: v := by simp [hs]
    have hread := literal?_append hfound
    rw [List.append_nil, List.nil_append, List.takeWhile_cons_of_pos hpos,
      List.append_cons] at hread
    rw [if_neg (octet?_ne_ascii (by decide) hc hs), hread]
    exact ⟨_, _, _, rfl, hliteral, List.dropWhile_suffix _, tokenize_literal hc v⟩

/-- **The scan of a text** from an offset on reads what is left of the text. -/
theorem tokenizeFrom?_eq (hs : s = u ++ v) : tokenizeFrom? s (size u) = some (tokenize v) := by
  -- arguments and what follows an inline are both shorter than what is left
  induction hn : v.length using Nat.strong_induction_on generalizing s u v with
  | _ n ih =>
  subst hn
  rw [tokenizeFrom?]
  cases v with
  | nil =>
    rw [List.append_nil] at hs
    rw [hs, if_neg (lt_irrefl _), tokenize_nil]
  | cons c v =>
    have hpos := charSize_pos c
    have hstart : size u < size s := by
      rw [hs, size_append, size_cons]
      omega
    have hargument (body : List Char) (hbody : body.length ≤ v.length) :
        (if body.length < s.length then tokenizeFrom? body 0 else none) =
          some (tokenize body) := by
      have hlength := congrArg List.length hs
      rw [List.length_append, List.length_cons] at hlength
      rw [if_pos (by omega)]
      exact ih body.length (Nat.lt_succ_of_le hbody) (u := []) rfl rfl
    obtain ⟨inline, front, rest, hinline, hfront, hrest, htokens⟩ := exists_inlineAt? hs hargument
    have hnext : size u < size front := by
      have hbehind : s = u ++ [c] ++ v := by simp [hs]
      have hle := size_le_of_isSuffix hbehind hrest hfront
      rw [size_append, size_cons] at hle
      omega
    have hleft := ih rest.length (Nat.lt_succ_of_le hrest.length_le) hfront rfl
    simp only [if_pos hstart, hinline, Option.bind_eq_bind, Option.bind_some, if_pos hnext, hleft,
      htokens]

/-- **Inline text** is cut between characters wherever it is cut. -/
theorem tokenize?_eq (s : List Char) : tokenize? s = some (tokenize s) :=
  tokenizeFrom?_eq (u := []) rfl

end Interdoc.Latex.Offset
