import Interdoc.Proofs.Latex.Language
import Interdoc.Proofs.Latex.Title
import Interdoc.Proofs.Latex.Wrapping
import Interdoc.Proofs.Text.Offset
import Mathlib.Data.Nat.PSub

/-!
# Groups by offsets

The scans for comments, groups and separators as they run over the octets of a text: they move an
offset, remember another one, and cut the text at both.  Every cut is `Utf8.slice?` and every depth
is lowered by `Nat.ppred`, so such a scan fails where it would cut a text inside a character, beyond
its end or backwards, where it would read an octet beyond the end, and where it would count below
zero.

They never fail: on every text they find what the scans over characters find
(`stripComment?_eq`, `delimited?_eq`, `splitTop?_eq`).
-/

namespace Interdoc.Latex.Offset

open Utf8

variable {s u v w m : List Char} {depth braces : Nat}

/-! ### Comments -/

/-- A line up to the first percent sign at an offset or behind it, unless a backslash hides it. -/
def commentFrom? (line : List Char) (offset : Nat) : Option (List Char) :=
  if offset < size line then
    match octet? line offset with
    | none => none
    | some b =>
      if b = ascii '\\' then commentFrom? line (offset + 2)
      else if b = ascii '%' then slice? line 0 offset
      else commentFrom? line (offset + 1)
  else some line
termination_by size line - offset

/-- A line without its comment. -/
def stripComment? (line : List Char) : Option (List Char) :=
  commentFrom? line 0

theorem commentFrom?_end {line : List Char} {offset : Nat} (h : octet? line offset = none) :
    commentFrom? line offset = some line := by
  rw [commentFrom?, if_neg (not_lt.mpr (octet?_eq_none_iff.mp h))]

theorem commentFrom?_step {line : List Char} {offset : Nat} {b : UInt8}
    (h : octet? line offset = some b) : commentFrom? line offset =
      if b = ascii '\\' then commentFrom? line (offset + 2)
      else if b = ascii '%' then slice? line 0 offset
      else commentFrom? line (offset + 1) := by
  rw [commentFrom?, if_pos (lt_size_of_octet? h), h]

theorem stepsOver_commentFrom? (line : List Char) :
    StepsOver ['\\', '%'] line (commentFrom? line) where
  ascii := by decide
  step offset b hb hne := by
    rw [commentFrom?_step hb, if_neg (hne '\\' (by decide)), if_neg (hne '%' (by decide))]

theorem commentFrom?_eq (hs : s = u ++ v) :
    commentFrom? s (size u) = some (u ++ stripComment v) := by
  -- the scan and the reader take the same steps, and `u` is what has been passed
  fun_induction stripComment v generalizing u with
  | case1 =>
    rw [List.append_nil] at hs
    rw [hs, commentFrom?_end (octet?_end u), List.append_nil]
  | case2 =>
    rw [commentFrom?_step (octet?_of_eq (by decide) hs), if_pos rfl,
      commentFrom?_end (octet?_escape_end (by decide) hs), hs]
  | case3 c v ih =>
    rw [commentFrom?_step (octet?_of_eq (by decide) hs), if_pos rfl,
      (stepsOver_commentFrom? s).escaped (by decide) hs, ih (by simp [hs])]
    simp
  | case4 v =>
    rw [commentFrom?_step (octet?_of_eq (by decide) hs), if_neg (by decide), if_pos rfl, hs,
      slice?_left, List.append_nil]
  | case5 c v hlone hescape hpercent ih =>
    have hc : c ∉ ['\\', '%'] := by
      simp only [List.mem_cons, List.not_mem_nil, or_false, not_or]
      exact ⟨ne_backslash hlone hescape, hpercent⟩
    rw [(stepsOver_commentFrom? s).char hs hc, ih (by simp [hs])]
    simp

/-- **The comment of a line** is cut off between characters. -/
theorem stripComment?_eq (line : List Char) : stripComment? line = some (stripComment line) :=
  commentFrom?_eq (u := []) rfl

/-! ### Groups -/

/-- The end of the group that begins at `start`, searched from an offset on, where `depth` groups
are open, and within a bracketed group `braces` braces: its content and the offset behind it. -/
def groupFrom? (s : List Char) (opening closing : Char) (start depth braces offset : Nat) :
    Option (Option (List Char × Nat)) :=
  if offset < size s then
    match octet? s offset with
    | none => none
    | some b =>
      if b = ascii '\\' then groupFrom? s opening closing start depth braces (offset + 2)
      else if opening = '\x7b' then
        if b = ascii '\x7b' then groupFrom? s opening closing start (depth + 1) braces (offset + 1)
        else if b = ascii '\x7d' then do
          let depth ← depth.ppred
          if depth = 0 then
            let content ← slice? s (start + 1) offset
            some (some (content, offset + 1))
          else groupFrom? s opening closing start depth braces (offset + 1)
        else groupFrom? s opening closing start depth braces (offset + 1)
      else if b = ascii '\x7b' then
        groupFrom? s opening closing start depth (braces + 1) (offset + 1)
      else if b = ascii '\x7d' then
        groupFrom? s opening closing start depth (braces - 1) (offset + 1)
      else if braces = 0 ∧ b = ascii opening then
        groupFrom? s opening closing start (depth + 1) braces (offset + 1)
      else if braces = 0 ∧ b = ascii closing then do
        let depth ← depth.ppred
        if depth = 0 then
          let content ← slice? s (start + 1) offset
          some (some (content, offset + 1))
        else groupFrom? s opening closing start depth braces (offset + 1)
      else groupFrom? s opening closing start depth braces (offset + 1)
  else some none
termination_by size s - offset

/-- The group that begins at an offset, if one does and it ends: its content, and the offset behind
it. -/
def delimited? (s : List Char) (start : Nat) (opening closing : Char) :
    Option (Option (List Char × Nat)) :=
  if octet? s start = some (ascii opening) then groupFrom? s opening closing start 0 0 start
  else some none

/-- A braced group at an offset. -/
def braced? (s : List Char) (start : Nat) : Option (Option (List Char × Nat)) :=
  delimited? s start '\x7b' '\x7d'

/-- A bracketed group at an offset. -/
def bracketed? (s : List Char) (start : Nat) : Option (Option (List Char × Nat)) :=
  delimited? s start '[' ']'

/-- What is read from a text and the rest of the text, with the offset of the rest in place of
it. -/
def placed {α : Type} (s : List Char) (r : α × List Char) : α × Nat :=
  (r.1, size s - size r.2)

theorem placed_of_eq {α : Type} (hs : s = u ++ v) (a : α) : placed s (a, v) = (a, size u) := by
  rw [placed, hs, size_append, Nat.add_sub_cancel]

/-- The offset of a rest is one between characters. -/
theorem exists_front {rest : List Char} (hs : s = u ++ v) (h : rest <:+ v) :
    ∃ front, s = front ++ rest ∧ size s - size rest = size front := by
  obtain ⟨t, rfl⟩ := h
  refine ⟨u ++ t, by rw [hs, List.append_assoc], ?_⟩
  rw [hs, ← List.append_assoc, size_append (u ++ t), Nat.add_sub_cancel]

/-- Behind what has been read an offset is no smaller. -/
theorem size_le_of_isSuffix {front rest : List Char} (hs : s = u ++ v) (h : rest <:+ v)
    (hfront : s = front ++ rest) : size u ≤ size front := by
  obtain ⟨t, rfl⟩ := h
  have hsize := congrArg size (hs.symm.trans hfront)
  simp only [size_append] at hsize
  omega

theorem map_placed_consContent (c : Char) (found : Option (List Char × List Char)) :
    (found.map (consContent c)).map (placed s ∘ prependContent m) =
      found.map (placed s ∘ prependContent (m ++ [c])) := by
  cases found <;> simp [prependContent, consContent]

theorem map_placed_escape (c : Char) (found : Option (List Char × List Char)) :
    (found.map (consContent '\\' ∘ consContent c)).map (placed s ∘ prependContent m) =
      found.map (placed s ∘ prependContent (m ++ ['\\', c])) := by
  cases found <;> simp [prependContent, consContent]

/-- What is cut out when a group ends. -/
theorem slice?_content {opening c : Char} (ho : opening.toNat < 0x80)
    (hs : s = u ++ c :: v) (hu : u = w ++ opening :: m) :
    slice? s (size w + 1) (size u) = some m := by
  have hcontent : s = w ++ [opening] ++ m ++ c :: v := by simp [hs, hu]
  have hend : w ++ [opening] ++ m = u := by simp [hu]
  have hslice := slice?_mid hcontent
  rwa [size_concat ho, hend] at hslice

theorem groupFrom?_end {opening closing : Char} {start offset : Nat} (h : octet? s offset = none) :
    groupFrom? s opening closing start depth braces offset = some none := by
  rw [groupFrom?, if_neg (not_lt.mpr (octet?_eq_none_iff.mp h))]

section Braces

variable {start offset : Nat}

theorem groupFrom?_brace {b : UInt8} (h : octet? s offset = some b) :
    groupFrom? s '\x7b' '\x7d' start depth braces offset =
      if b = ascii '\\' then groupFrom? s '\x7b' '\x7d' start depth braces (offset + 2)
      else if b = ascii '\x7b' then
        groupFrom? s '\x7b' '\x7d' start (depth + 1) braces (offset + 1)
      else if b = ascii '\x7d' then do
        let depth ← depth.ppred
        if depth = 0 then
          let content ← slice? s (start + 1) offset
          some (some (content, offset + 1))
        else groupFrom? s '\x7b' '\x7d' start depth braces (offset + 1)
      else groupFrom? s '\x7b' '\x7d' start depth braces (offset + 1) := by
  rw [groupFrom?, if_pos (lt_size_of_octet? h), h]
  rfl

theorem stepsOver_groupFrom?_brace (s : List Char) (start depth braces : Nat) :
    StepsOver ['\\', '\x7b', '\x7d'] s
      (groupFrom? s '\x7b' '\x7d' start depth braces) where
  ascii := by decide
  step offset b hb hne := by
    rw [groupFrom?_brace hb, if_neg (hne '\\' (by decide)), if_neg (hne '\x7b' (by decide)),
      if_neg (hne '\x7d' (by decide))]

/-- **A search for a closing brace** that has come from the group's opening brace to `v`. -/
theorem groupFrom?_brace_eq (hs : s = u ++ v) (hu : u = w ++ '\x7b' :: m) :
    groupFrom? s '\x7b' '\x7d' (size w) (depth + 1) braces (size u) =
      some ((closeBrace? depth v).map (placed s ∘ prependContent m)) := by
  -- the scan and the search take the same steps; `m` is what has been passed since the opening
  fun_induction closeBrace? depth v generalizing u m with
  | case1 depth =>
    rw [List.append_nil] at hs
    rw [groupFrom?_end (hs ▸ octet?_end u), Option.map_none]
  | case2 depth =>
    rw [groupFrom?_brace (octet?_of_eq (by decide) hs), if_pos rfl,
      groupFrom?_end (octet?_escape_end (by decide) hs), Option.map_none]
  | case3 depth c v ih =>
    rw [groupFrom?_brace (octet?_of_eq (by decide) hs), if_pos rfl,
      (stepsOver_groupFrom?_brace s _ _ _).escaped (by decide) hs, map_placed_escape,
      ih (m := m ++ ['\\', c]) (by simp [hs]) (by simp [hu])]
  | case4 depth v ih =>
    rw [groupFrom?_brace (octet?_of_eq (by decide) hs), if_neg (by decide), if_pos rfl,
      ← size_concat (a := '\x7b') (by decide) u, map_placed_consContent,
      ih (m := m ++ ['\x7b']) (by simp [hs]) (by simp [hu])]
  | case5 v =>
    rw [groupFrom?_brace (octet?_of_eq (by decide) hs), if_neg (by decide), if_neg (by decide),
      if_pos rfl, Nat.zero_add]
    have hs' : s = u ++ ['\x7d'] ++ v := by simp [hs]
    simp only [Nat.ppred, slice?_content (by decide) hs hu, Option.bind_eq_bind, Option.bind_some,
      if_true, Option.map_some, Function.comp_apply, prependContent, List.append_nil,
      placed_of_eq hs', size_concat (a := '\x7d') (by decide)]
  | case6 depth v ih =>
    rw [groupFrom?_brace (octet?_of_eq (by decide) hs), if_neg (by decide), if_neg (by decide),
      if_pos rfl, ← size_concat (a := '\x7d') (by decide) u, map_placed_consContent,
      ← ih (u := u ++ ['\x7d']) (by simp [hs]) (by simp [hu])]
    rfl
  | case7 depth c v hlone hescape hopen hclose hclose' ih =>
    have hc : c ∉ ['\\', '\x7b', '\x7d'] := by
      simp only [List.mem_cons, List.not_mem_nil, or_false, not_or]
      exact ⟨ne_backslash hlone hescape, hopen, ne_closingBrace hclose hclose'⟩
    rw [(stepsOver_groupFrom?_brace s _ _ _).char hs hc, map_placed_consContent,
      ih (m := m ++ [c]) (by simp [hs]) (by simp [hu])]

end Braces

section Brackets

variable {start offset : Nat}

theorem groupFrom?_bracket {b : UInt8} (h : octet? s offset = some b) :
    groupFrom? s '[' ']' start depth braces offset =
      if b = ascii '\\' then groupFrom? s '[' ']' start depth braces (offset + 2)
      else if b = ascii '\x7b' then groupFrom? s '[' ']' start depth (braces + 1) (offset + 1)
      else if b = ascii '\x7d' then groupFrom? s '[' ']' start depth (braces - 1) (offset + 1)
      else if braces = 0 ∧ b = ascii '[' then
        groupFrom? s '[' ']' start (depth + 1) braces (offset + 1)
      else if braces = 0 ∧ b = ascii ']' then do
        let depth ← depth.ppred
        if depth = 0 then
          let content ← slice? s (start + 1) offset
          some (some (content, offset + 1))
        else groupFrom? s '[' ']' start depth braces (offset + 1)
      else groupFrom? s '[' ']' start depth braces (offset + 1) := by
  rw [groupFrom?, if_pos (lt_size_of_octet? h), h]
  rfl

theorem stepsOver_groupFrom?_bracket (s : List Char) (start depth : Nat) :
    StepsOver ['\\', '\x7b', '\x7d', '[', ']'] s (groupFrom? s '[' ']' start depth braces) where
  ascii := by decide
  step offset b hb hne := by
    rw [groupFrom?_bracket hb, if_neg (hne '\\' (by decide)), if_neg (hne '\x7b' (by decide)),
      if_neg (hne '\x7d' (by decide)), if_neg fun h => hne '[' (by decide) h.2,
      if_neg fun h => hne ']' (by decide) h.2]

/-- Brackets within braces are passed over as well. -/
theorem stepsOver_groupFrom?_hidden (hb : braces ≠ 0) (s : List Char) (start depth : Nat) :
    StepsOver ['\\', '\x7b', '\x7d'] s (groupFrom? s '[' ']' start depth braces) where
  ascii := by decide
  step offset b h hne := by
    rw [groupFrom?_bracket h, if_neg (hne '\\' (by decide)), if_neg (hne '\x7b' (by decide)),
      if_neg (hne '\x7d' (by decide)), if_neg fun h => hb h.1, if_neg fun h => hb h.1]

/-- **A search for a closing bracket** that has come from the group's opening bracket to `v`. -/
theorem groupFrom?_bracket_eq (hs : s = u ++ v) (hu : u = w ++ '[' :: m) :
    groupFrom? s '[' ']' (size w) (depth + 1) braces (size u) =
      some ((closeBracket? depth braces v).map (placed s ∘ prependContent m)) := by
  -- the scan and the search take the same steps; `m` is what has been passed since the opening
  fun_induction closeBracket? depth braces v generalizing u m with
  | case1 depth braces =>
    rw [List.append_nil] at hs
    rw [groupFrom?_end (hs ▸ octet?_end u), Option.map_none]
  | case2 depth braces =>
    rw [groupFrom?_bracket (octet?_of_eq (by decide) hs), if_pos rfl,
      groupFrom?_end (octet?_escape_end (by decide) hs), Option.map_none]
  | case3 depth braces c v ih =>
    rw [groupFrom?_bracket (octet?_of_eq (by decide) hs), if_pos rfl,
      (stepsOver_groupFrom?_bracket s _ _).escaped (by decide) hs, map_placed_escape,
      ih (m := m ++ ['\\', c]) (by simp [hs]) (by simp [hu])]
  | case4 depth braces v ih =>
    rw [groupFrom?_bracket (octet?_of_eq (by decide) hs), if_neg (by decide), if_pos rfl,
      ← size_concat (a := '\x7b') (by decide) u, map_placed_consContent,
      ih (m := m ++ ['\x7b']) (by simp [hs]) (by simp [hu])]
  | case5 depth braces v ih =>
    rw [groupFrom?_bracket (octet?_of_eq (by decide) hs), if_neg (by decide),
      if_neg (by decide), if_pos rfl, ← size_concat (a := '\x7d') (by decide) u,
      map_placed_consContent, ih (m := m ++ ['\x7d']) (by simp [hs]) (by simp [hu])]
  | case6 depth v ih =>
    rw [groupFrom?_bracket (octet?_of_eq (by decide) hs), if_neg (by decide),
      if_neg (by decide), if_neg (by decide), if_pos ⟨rfl, rfl⟩,
      ← size_concat (a := '[') (by decide) u, map_placed_consContent,
      ih (m := m ++ ['[']) (by simp [hs]) (by simp [hu])]
  | case7 v =>
    rw [groupFrom?_bracket (octet?_of_eq (by decide) hs), if_neg (by decide),
      if_neg (by decide), if_neg (by decide), if_neg (by decide), if_pos ⟨rfl, rfl⟩,
      Nat.zero_add]
    have hs' : s = u ++ [']'] ++ v := by simp [hs]
    simp only [Nat.ppred, slice?_content (by decide) hs hu, Option.bind_eq_bind, Option.bind_some,
      if_true, Option.map_some, Function.comp_apply, prependContent, List.append_nil,
      placed_of_eq hs', size_concat (a := ']') (by decide)]
  | case8 depth v ih =>
    rw [groupFrom?_bracket (octet?_of_eq (by decide) hs), if_neg (by decide),
      if_neg (by decide), if_neg (by decide), if_neg (by decide), if_pos ⟨rfl, rfl⟩,
      ← size_concat (a := ']') (by decide) u, map_placed_consContent,
      ← ih (u := u ++ [']']) (by simp [hs]) (by simp [hu])]
    rfl
  | case9 depth braces c v hlone hescape hopen hclose hnest hend hinner ih =>
    have hbackslash : c ≠ '\\' := ne_backslash hlone hescape
    have hstep : groupFrom? s '[' ']' (size w) (depth + 1) braces (size u) =
        groupFrom? s '[' ']' (size w) (depth + 1) braces (size (u ++ [c])) := by
      cases braces with
      | zero =>
        refine (stepsOver_groupFrom?_bracket s _ _).char hs ?_
        have hbracket : c ≠ ']' := by
          intro he
          cases depth with
          | zero => exact hend rfl rfl he
          | succ depth => exact hinner depth rfl rfl he
        simp only [List.mem_cons, List.not_mem_nil, or_false, not_or]
        exact ⟨hbackslash, hopen, hclose, hnest rfl, hbracket⟩
      | succ braces =>
        refine (stepsOver_groupFrom?_hidden (Nat.succ_ne_zero braces) s _ _).char hs ?_
        simp only [List.mem_cons, List.not_mem_nil, or_false, not_or]
        exact ⟨hbackslash, hopen, hclose⟩
    rw [hstep, map_placed_consContent, ih (m := m ++ [c]) (by simp [hs]) (by simp [hu])]

end Brackets

/-- A reader of groups at the start of a text is what `delimited?` does at an offset, if it is at
every opening character. -/
theorem delimited?_eq {opening closing : Char} (ho : opening.toNat < 0x80)
    {read : List Char → Option (List Char × List Char)} (hnil : read [] = none)
    (hcons : ∀ c v, c ≠ opening → read (c :: v) = none)
    (hread : ∀ u v, s = u ++ opening :: v →
      groupFrom? s opening closing (size u) 0 0 (size u) =
        some ((read (opening :: v)).map (placed s))) (start : Nat) :
    delimited? s start opening closing =
      some (((slice? s start (size s)).bind read).map (placed s)) := by
  rw [delimited?]
  split_ifs with hoctet
  · obtain ⟨u, v, hs, rfl⟩ := (octet?_eq_ascii_iff ho).mp hoctet
    rw [hread u v hs, slice?_of_eq hs, Option.bind_some]
  -- no octet of another character is the opening one
  · have hnone : (slice? s start (size s)).bind read = none := by
      rw [Option.bind_eq_none_iff]
      intro t ht
      obtain ⟨u, v, hs, rfl, hsize⟩ := slice?_eq_some_iff.mp ht
      cases t with
      | nil => exact hnil
      | cons c t =>
        refine hcons c t fun hc => hoctet ?_
        subst hc
        exact octet?_of_eq (v := t ++ v) ho (by simpa using hs)
    rw [hnone, Option.map_none]

theorem map_placed_nil (found : Option (List Char × List Char)) :
    found.map (placed s ∘ prependContent []) = found.map (placed s) :=
  rfl

/-- **A braced group** is read at every offset, also one that is not between characters. -/
theorem braced?_eq (s : List Char) (start : Nat) : braced? s start =
    some (((slice? s start (size s)).bind Latex.braced?).map (placed s)) := by
  refine delimited?_eq (by decide) rfl (fun c v hc => ?_) (fun u v hs => ?_) start
  · rw [Latex.braced?]
    intro t ht
    exact hc (List.cons.inj ht).1
  · rw [groupFrom?_brace (octet?_of_eq (by decide) hs), if_neg (by decide), if_pos rfl,
      ← size_concat (a := '\x7b') (by decide) u,
      groupFrom?_brace_eq (v := v) (m := []) (by simp [hs]) rfl, map_placed_nil, Latex.braced?]

/-- **A bracketed group** is read at every offset, also one that is not between characters. -/
theorem bracketed?_eq (s : List Char) (start : Nat) : bracketed? s start =
    some (((slice? s start (size s)).bind Latex.bracketed?).map (placed s)) := by
  refine delimited?_eq (by decide) rfl (fun c v hc => ?_) (fun u v hs => ?_) start
  · rw [Latex.bracketed?]
    intro t ht
    exact hc (List.cons.inj ht).1
  · rw [groupFrom?_bracket (octet?_of_eq (by decide) hs), if_neg (by decide), if_neg (by decide),
      if_neg (by decide), if_pos ⟨rfl, rfl⟩, ← size_concat (a := '[') (by decide) u,
      groupFrom?_bracket_eq (v := v) (m := []) (by simp [hs]) rfl, map_placed_nil, Latex.bracketed?]

theorem braced?_append (hs : s = u ++ v) :
    braced? s (size u) = some ((Latex.braced? v).map (placed s)) := by
  rw [braced?_eq, slice?_of_eq hs, Option.bind_some]

theorem bracketed?_append (hs : s = u ++ v) :
    bracketed? s (size u) = some ((Latex.bracketed? v).map (placed s)) := by
  rw [bracketed?_eq, slice?_of_eq hs, Option.bind_some]

theorem braced?_zero (s : List Char) : braced? s 0 = some ((Latex.braced? s).map (placed s)) :=
  braced?_append (u := []) rfl

theorem bracketed?_zero (s : List Char) :
    bracketed? s 0 = some ((Latex.bracketed? s).map (placed s)) :=
  bracketed?_append (u := []) rfl

theorem braced?_isSuffix {content rest : List Char}
    (h : Latex.braced? v = some (content, rest)) : rest <:+ v := by
  unfold Latex.braced? at h
  split at h
  · exact ⟨'\x7b' :: (content ++ ['\x7d']), by simp [closeBrace?_eq_some h]⟩
  · cases h

theorem bracketed?_isSuffix {content rest : List Char}
    (h : Latex.bracketed? v = some (content, rest)) : rest <:+ v := by
  unfold Latex.bracketed? at h
  split at h
  · exact ⟨'[' :: (content ++ [']']), by simp [closeBracket?_eq_some h]⟩
  · cases h

theorem skipBracketed_isSuffix (v : List Char) : skipBracketed v <:+ v := by
  rw [skipBracketed]
  split
  · next h => exact bracketed?_isSuffix h
  · exact List.suffix_rfl

/-- The offset behind an optional bracketed group. -/
def skipBracketed? (s : List Char) (start : Nat) : Option Nat := do
  match ← bracketed? s start with
  | some (_, next) => some next
  | none => some start

theorem skipBracketed?_append (hs : s = u ++ v) :
    skipBracketed? s (size u) = some (size s - size (skipBracketed v)) := by
  rw [skipBracketed?, bracketed?_append hs, skipBracketed]
  cases Latex.bracketed? v with
  | none => rw [hs, size_append, Nat.add_sub_cancel]; rfl
  | some r => rfl

/-- Behind an optional group at the start of a text is an offset between characters. -/
theorem exists_skipBracketed? (s : List Char) :
    ∃ front, s = front ++ skipBracketed s ∧ skipBracketed? s 0 = some (size front) := by
  obtain ⟨front, hfront⟩ := skipBracketed_isSuffix s
  refine ⟨front, hfront.symm, ?_⟩
  have hskip : skipBracketed? s 0 = some (size s - size (skipBracketed s)) :=
    skipBracketed?_append (u := []) rfl
  rw [hskip]
  conv_lhs => rw [← hfront, size_append, hfront, Nat.add_sub_cancel]

/-- **Wherever it starts**, passing over an optional group stays there or ends between characters,
further on. -/
theorem skipBracketed?_eq_start_or (s : List Char) (start : Nat) :
    ∃ next, skipBracketed? s start = some next ∧
      (next = start ∨ start ≤ next ∧ IsBoundary s next) := by
  rw [skipBracketed?, bracketed?_eq]
  cases hgroup : (slice? s start (size s)).bind Latex.bracketed? with
  | none => exact ⟨start, rfl, Or.inl rfl⟩
  | some r =>
    obtain ⟨v, hv, hbracketed⟩ := Option.bind_eq_some_iff.mp hgroup
    obtain ⟨u, w, hs, rfl, hstop⟩ := slice?_eq_some_iff.mp hv
    obtain ⟨m, rfl⟩ := bracketed?_isSuffix hbracketed
    -- the slice goes to the end of the text
    have hw : w = [] := size_eq_zero_iff.mp (by
      rw [hs, size_append _ w] at hstop
      omega)
    have hfront : s = u ++ m ++ r.2 := by rw [hs, hw, List.append_nil, List.append_assoc]
    have hnext := congrArg (fun placed => some placed.2) (placed_of_eq hfront r.1)
    have hle : size u ≤ size (u ++ m) := by
      rw [size_append]
      omega
    exact ⟨_, hnext, Or.inr ⟨hle, isBoundary_iff.mpr ⟨u ++ m, r.2, hfront, rfl⟩⟩⟩

/-! ### Separators -/

/-- The pieces of a text between separators, from an offset on where `depth` braces are open; the
first piece has begun at `start`. -/
def splitFrom? (s : List Char) (sep : Char) :
    (depth start offset : Nat) → List Char → Option (List (List Char))
  | _, start, _, [] => (slice? s start (size s)).map ([·])
  | _, start, _, ['\\'] => (slice? s start (size s)).map ([·])
  | depth, start, offset, '\\' :: c :: rest =>
    splitFrom? s sep depth start (offset + 1 + charSize c) rest
  | depth, start, offset, '\x7b' :: rest => splitFrom? s sep (depth + 1) start (offset + 1) rest
  | depth, start, offset, '\x7d' :: rest => splitFrom? s sep (depth - 1) start (offset + 1) rest
  | depth, start, offset, c :: rest =>
    if c = sep && depth = 0 then do
      let piece ← slice? s start offset
      let pieces ← splitFrom? s sep depth (offset + charSize c) (offset + charSize c) rest
      some (piece :: pieces)
    else splitFrom? s sep depth start (offset + charSize c) rest

/-- The pieces of a text between the separators outside braces. -/
def splitTop? (sep : Char) (s : List Char) : Option (List (List Char)) :=
  splitFrom? s sep 0 0 0 s

theorem splitFrom?_eq {sep : Char} (hs : s = w ++ m ++ v) :
    splitFrom? s sep depth (size w) (size (w ++ m)) v =
      some (m.foldr consPiece (splitTopFrom sep depth v)) := by
  -- `m` is the piece so far, from the last cut on
  fun_induction splitTopFrom sep depth v generalizing w m with
  | case1 depth =>
    have hslice := slice?_right w m
    rw [List.append_nil] at hs
    rw [splitFrom?, hs, hslice, Option.map_some, foldr_consPiece, List.append_nil]
  | case2 depth =>
    have hslice := slice?_right w (m ++ ['\\'])
    rw [List.append_assoc] at hs
    rw [splitFrom?, hs, hslice, Option.map_some, foldr_consPiece]
  | case3 depth c v ih =>
    have hfront : size (w ++ m) + 1 + charSize c = size (w ++ (m ++ ['\\', c])) := by
      rw [show w ++ (m ++ ['\\', c]) = w ++ m ++ ['\\'] ++ [c] by simp, size_append _ [c],
        size_concat (by decide)]
      rfl
    rw [splitFrom?, hfront, ih (m := m ++ ['\\', c]) (by simp [hs]), List.foldr_append]
    rfl
  | case4 depth v ih =>
    rw [splitFrom?, ← size_concat (a := '\x7b') (by decide), List.append_assoc,
      ih (m := m ++ ['\x7b']) (by simp [hs]), List.foldr_append]
    rfl
  | case5 depth v ih =>
    rw [splitFrom?, ← size_concat (a := '\x7d') (by decide), List.append_assoc,
      ih (m := m ++ ['\x7d']) (by simp [hs]), List.foldr_append]
    rfl
  | case6 depth c v hlone hescape hopen hclose hsep ih =>
    have hdepth : depth = 0 := of_decide_eq_true (Bool.and_eq_true_iff.mp hsep).2
    have hrest := ih (w := w ++ m ++ [c]) (m := []) (by simp [hs])
    rw [List.append_nil, size_append _ [c], size_cons, size_nil, Nat.add_zero] at hrest
    rw [splitFrom?, if_pos hsep, slice?_mid hs, hdepth, hrest, foldr_consPiece, List.append_nil]
    · rfl
    all_goals assumption
  | case7 depth c v hlone hescape hopen hclose hsep ih =>
    have hfront : size (w ++ m) + charSize c = size (w ++ (m ++ [c])) := by
      simp [Nat.add_assoc]
    rw [splitFrom?, if_neg hsep, hfront, ih (m := m ++ [c]) (by simp [hs]), List.foldr_append]
    · rfl
    all_goals assumption

/-- **A cut at separators** is made between characters. -/
theorem splitTop?_eq (sep : Char) (s : List Char) : splitTop? sep s = some (splitTop sep s) :=
  splitFrom?_eq (w := []) (m := []) rfl

end Interdoc.Latex.Offset
