import Interdoc.Proofs.Latex.Matching
import Interdoc.Proofs.Latex.Offset.Groups

/-!
# Closing markers by offsets

The search for the marker that closes an environment goes in rounds.  From an offset on a round
looks for the first closing and the first opening marker of the name, and either ends the search or
sends the next round behind one of the two, which is a strictly greater offset of the text
(`lt_of_round?`).  So the search ends, and it finds what `Latex.scanClose` does
(`matchingClose?_eq`).

An environment is collected from lines by the index of its first line; the lines too are cut out
between two indices within their number.
-/

namespace Interdoc.Latex

/-! ### Markers in a line -/

/-- An environment is closed by its closing marker. -/
theorem scanClose_eq_closed {name before after s : List Char} {depth skip : Nat}
    (h : scanClose name depth skip s = .closed before after) :
    s = before ++ (closingMarker name ++ after) := by
  induction s generalizing depth skip before with
  | nil => cases h
  | cons c s ih =>
    -- a character is passed in front of what the rest is cut into
    have step {depth skip : Nat} (h : (scanClose name depth skip s).cons c = .closed before after) :
        c :: s = before ++ (closingMarker name ++ after) := by
      cases hs : scanClose name depth skip s with
      | stillOpen during =>
        rw [hs] at h
        cases h
      | closed front behind =>
        rw [hs] at h
        cases h
        rw [ih hs]
        rfl
    cases skip with
    | succ skip => exact step h
    | zero =>
      unfold scanClose at h
      split at h
      · exact step h
      · split at h
        · next hprefix =>
          cases h
          rw [List.nil_append]
          exact Text.stripPrefix?_eq_some_iff.mp hprefix
        · exact step h
        · exact step h

/-- An environment is opened by its opening marker. -/
theorem opening?_eq_some {line name after : List Char} (h : opening? line = some (name, after)) :
    line = openingMarker name ++ after := by
  unfold opening? at h
  split at h
  · cases h
  · next rest hprefix =>
    have hline := Text.stripPrefix?_eq_some_iff.mp hprefix
    have hrest := List.takeWhile_append_dropWhile (p := (· != '\x7d')) (l := rest)
    have hhead := List.head?_dropWhile_not (· != '\x7d') rest
    split at h
    · cases h
    · next c behind hbehind =>
      -- the name ends at a closing brace
      rw [hbehind] at hrest hhead
      obtain rfl : c = '\x7d' := by simpa using hhead
      dsimp only at h
      split at h
      · cases h
      · simp only [Option.some.injEq, Prod.mk.injEq] at h
        obtain ⟨rfl, rfl⟩ := h
        rw [openingMarker_append, hrest, hline]

namespace Offset

open Utf8

variable {name text u v : List Char} {depth offset : Nat}

/-! ### Rounds -/

/-- What one round of the search comes to. -/
inductive Round where
  /-- The marker at an offset closes the environment. -/
  | found (offset : Nat)
  /-- The search goes on at an offset, with so many environments of the name open. -/
  | again (offset depth : Nat)
  /-- No marker is left. -/
  | missed

/-- What a closing marker at an offset means, if there is one. -/
def closeAt? (name : List Char) (depth : Nat) : (closing : Option Nat) → Option Round
  | none => some .missed
  | some closing =>
    if depth = 0 then some (.found closing)
    else do
      let depth ← depth.ppred
      some (.again (closing + size (closingMarker name)) depth)

/-- One round of the search, from an offset on, where `depth` environments of the name are open. -/
def round? (name text : List Char) (offset depth : Nat) : Option Round := do
  let rest ← slice? text offset (size text)
  let closing := (find? (closingMarker name) rest).map (offset + ·)
  let opening := if isVerbatim name then none
    else (find? (openingMarker name) rest).map (offset + ·)
  match opening with
  | some opening =>
    if closing.all (opening < ·) then
      some (.again (opening + size (openingMarker name)) (depth + 1))
    else closeAt? name depth closing
  | none => closeAt? name depth closing

/-- The offset of the marker that closes the environment, if the text has it, and the number of
environments of the name that are still open.  The search fails if a round leads nowhere. -/
def matchingClose? (name text : List Char) (offset depth : Nat) : Option (Option Nat × Nat) := do
  match ← round? name text offset depth with
  | .found offset => some (some offset, depth)
  | .again next depth =>
    if offset < next ∧ next ≤ size text then matchingClose? name text next depth else none
  | .missed => some (none, depth)
termination_by size text - offset

/-! ### The next round -/

theorem openingMarker_ne_nil (name : List Char) : openingMarker name ≠ [] :=
  List.cons_ne_nil _ _

theorem closingMarker_ne_nil (name : List Char) : closingMarker name ≠ [] :=
  List.cons_ne_nil _ _

theorem size_pos {p : List Char} (h : p ≠ []) : 0 < size p :=
  Nat.pos_of_ne_zero fun hp => h (size_eq_zero_iff.mp hp)

/-- What is found lies within the text. -/
theorem add_size_le_of_find? {p s : List Char} {found : Nat} (hp : p ≠ [])
    (h : find? p s = some found) : found + size p ≤ size s := by
  induction s generalizing found with
  | nil =>
    rw [find?_nil hp] at h
    cases h
  | cons c s ih =>
    by_cases hprefix : p <+: c :: s
    · rw [find?_cons_of hprefix, Option.some_inj] at h
      obtain ⟨t, ht⟩ := hprefix
      rw [← h, ← ht, size_append]
      omega
    · rw [find?_cons_of_not hprefix] at h
      obtain ⟨later, hlater, rfl⟩ := Option.map_eq_some_iff.mp h
      have hle := ih hlater
      rw [size_cons]
      omega

/-- **A round goes on** strictly behind the offset at which it starts, and within the text. -/
theorem lt_of_round? {next after : Nat}
    (h : round? name text offset depth = some (.again next after)) :
    offset < next ∧ next ≤ size text := by
  rw [round?, Option.bind_eq_bind, Option.bind_eq_some_iff] at h
  obtain ⟨rest, hrest, h⟩ := h
  have hsize : offset + size rest = size text := by
    obtain ⟨u, v, htext, rfl, hstop⟩ := slice?_eq_some_iff.mp hrest
    rw [← hstop, size_append]
  -- behind a marker that has been found
  have hmarker {p : List Char} (hp : p ≠ []) {marker : Nat}
      (hfind : (find? p rest).map (offset + ·) = some marker) :
      offset < marker + size p ∧ marker + size p ≤ size text := by
    obtain ⟨found, hfound, rfl⟩ := Option.map_eq_some_iff.mp hfind
    have hle := add_size_le_of_find? hp hfound
    have hpos := size_pos hp
    omega
  have hclose {closing : Option Nat}
      (hfind : (find? (closingMarker name) rest).map (offset + ·) = closing)
      (hround : closeAt? name depth closing = some (.again next after)) :
      offset < next ∧ next ≤ size text := by
    cases closing with
    | none => cases hround
    | some closing =>
      rw [closeAt?] at hround
      split at hround
      · cases hround
      · obtain ⟨during, -, hagain⟩ := Option.bind_eq_some_iff.mp hround
        cases hagain
        exact hmarker (closingMarker_ne_nil name) hfind
  dsimp only at h
  split at h
  · next opening hopening =>
    split at h
    · cases h
      split at hopening
      · cases hopening
      · exact hmarker (openingMarker_ne_nil name) hopening
    · exact hclose rfl h
  · exact hclose rfl h

/-! ### The search -/

/-- **The search goes on** after every round that does not end it. -/
theorem matchingClose?_eq_bind :
    matchingClose? name text offset depth = (round? name text offset depth).bind fun
      | .found offset => some (some offset, depth)
      | .again next depth => matchingClose? name text next depth
      | .missed => some (none, depth) := by
  rw [matchingClose?]
  cases h : round? name text offset depth with
  | none => rfl
  | some r =>
    cases r with
    | found _ | missed => rfl
    | again next after => exact if_pos (lt_of_round? h)

/-- The outcome of a scan that has passed over `u`, by its offset. -/
def outcome (u : List Char) : CloseScan → Option Nat × Nat
  | .closed before _ => (some (size (u ++ before)), 0)
  | .stillOpen depth => (none, depth)

theorem outcome_foldr_cons (u m : List Char) (scan : CloseScan) :
    outcome u (m.foldr CloseScan.cons scan) = outcome (u ++ m) scan := by
  induction m generalizing u with
  | nil => rw [List.append_nil]; rfl
  | cons c m ih =>
    have hcons : outcome u ((m.foldr CloseScan.cons scan).cons c) =
        outcome (u ++ [c]) (m.foldr CloseScan.cons scan) := by
      cases m.foldr CloseScan.cons scan <;> simp [outcome, CloseScan.cons]
    rw [List.foldr_cons, hcons, ih, List.append_assoc, List.singleton_append]

theorem round?_append (hs : text = u ++ v) :
    round? name text (size u) depth =
      match if isVerbatim name then none
        else (find? (openingMarker name) v).map (size u + ·) with
      | some opening =>
        if ((find? (closingMarker name) v).map (size u + ·)).all (opening < ·) then
          some (.again (opening + size (openingMarker name)) (depth + 1))
        else closeAt? name depth ((find? (closingMarker name) v).map (size u + ·))
      | none => closeAt? name depth ((find? (closingMarker name) v).map (size u + ·)) := by
  rw [round?, hs, slice?_right]
  rfl

theorem find?_shift {p : List Char} {c : Char} (h : ¬ p <+: c :: v) (u : List Char) :
    (find? p (c :: v)).map (size u + ·) = (find? p v).map (size (u ++ [c]) + ·) := by
  rw [find?_cons_of_not h, Option.map_map]
  congr 1
  funext n
  simp [Nat.add_assoc]

/-- A character at which no marker begins is passed over. -/
theorem matchingClose?_skip {c : Char} (hs : text = u ++ c :: v)
    (ho : isVerbatim name = false → ¬ openingMarker name <+: c :: v)
    (hc : ¬ closingMarker name <+: c :: v) :
    matchingClose? name text (size u) depth = matchingClose? name text (size (u ++ [c])) depth := by
  have hround : round? name text (size u) depth = round? name text (size (u ++ [c])) depth := by
    rw [round?_append hs, round?_append (v := v) (by simp [hs]), find?_shift hc]
    cases hv : isVerbatim name with
    | true => rfl
    | false => rw [if_neg (by decide), if_neg (by decide), find?_shift (ho hv)]
  rw [matchingClose?_eq_bind, hround, ← matchingClose?_eq_bind]

theorem find?_append (p v : List Char) (hp : p ≠ []) : find? p (p ++ v) = some 0 := by
  obtain ⟨c, p, rfl⟩ := List.exists_cons_of_ne_nil hp
  exact find?_cons_of (List.prefix_append (c :: p) v)

/-- A round at an opening marker. -/
theorem round?_openingMarker (hv : isVerbatim name = false)
    (hs : text = u ++ (openingMarker name ++ v)) :
    round? name text (size u) depth =
      some (.again (size (u ++ openingMarker name)) (depth + 1)) := by
  have hlater : ((find? (closingMarker name) (openingMarker name ++ v)).map (size u + ·)).all
      (size u < ·) = true := by
    obtain ⟨c, m, hm⟩ := List.exists_cons_of_ne_nil (openingMarker_ne_nil name)
    have hnot := not_closingMarker_isPrefix name name v
    have hpos := charSize_pos c
    rw [hm, List.cons_append] at hnot ⊢
    rw [find?_cons_of_not hnot]
    cases find? (closingMarker name) (m ++ v) with
    | none => rfl
    | some n => simpa using by omega
  rw [round?_append hs, find?_append _ _ (openingMarker_ne_nil name), hv, size_append]
  simp only [Bool.false_eq_true, if_false, Option.map_some, Nat.add_zero]
  rw [if_pos hlater]

/-- A round at a closing marker. -/
theorem round?_closingMarker (hs : text = u ++ (closingMarker name ++ v)) :
    round? name text (size u) depth = closeAt? name depth (some (size u)) := by
  rw [round?_append hs, find?_append _ _ (closingMarker_ne_nil name)]
  simp only [Option.map_some, Nat.add_zero]
  split
  · next opening hopening =>
    -- the opening marker, if there is one, stands behind
    have hle : ¬ (some (size u)).all (opening < ·) = true := by
      split at hopening
      · cases hopening
      · obtain ⟨found, -, rfl⟩ := Option.map_eq_some_iff.mp hopening
        simp
    rw [if_neg hle]
  · rfl

/-- **The search for a closing marker** finds what the scan over characters finds. -/
theorem matchingClose?_eq (hs : text = u ++ v) :
    matchingClose? name text (size u) depth = some (outcome u (scanClose name depth 0 v)) := by
  -- a marker is passed over as a whole, so the induction is on the length of the rest
  induction hn : v.length using Nat.strong_induction_on generalizing u v depth with
  | _ n ih =>
  subst hn
  by_cases ho : isVerbatim name = false ∧ openingMarker name <+: v
  · obtain ⟨hv, v, rfl⟩ := ho
    rw [matchingClose?_eq_bind, round?_openingMarker hv hs, scanClose_openingMarker hv,
      outcome_foldr_cons]
    exact ih _ (length_lt_append (openingMarker_ne_nil name) v) (by simp [hs]) rfl
  by_cases hc : closingMarker name <+: v
  · obtain ⟨v, rfl⟩ := hc
    rw [matchingClose?_eq_bind, round?_closingMarker hs, scanClose_closingMarker]
    cases depth with
    | zero =>
      rw [outcome, List.append_nil]
      rfl
    | succ depth =>
      rw [outcome_foldr_cons, closeAt?, if_neg (Nat.succ_ne_zero depth), ← size_append]
      exact ih _ (length_lt_append (closingMarker_ne_nil name) v) (by simp [hs]) rfl
  cases v with
  | nil =>
    rw [matchingClose?_eq_bind, round?_append hs, find?_nil (openingMarker_ne_nil name),
      find?_nil (closingMarker_ne_nil name), Option.map_none, ite_self]
    rfl
  | cons c v =>
    have hskip : scanClose name depth 0 (c :: v) = (scanClose name depth 0 v).cons c := by
      cases hv : isVerbatim name with
      | true => exact scanClose_cons_of_isVerbatim hv hc depth
      | false => exact scanClose_cons (fun h => ho ⟨hv, h⟩) hc depth
    rw [matchingClose?_skip hs (fun hv h => ho ⟨hv, h⟩) hc, hskip,
      ih _ (Nat.lt_succ_self _) (by simp [hs]) rfl]
    exact congrArg some (outcome_foldr_cons u [c] _).symm

theorem matchingClose?_zero (name text : List Char) (depth : Nat) :
    matchingClose? name text 0 depth = some (outcome [] (scanClose name depth 0 text)) :=
  matchingClose?_eq (u := []) rfl

/-! ### Environments -/

/-- The lines between two indices, if these are in order and within the number of lines. -/
def lines? (lines : List Line) (start stop : Nat) : Option (List Line) :=
  if start ≤ stop ∧ stop ≤ lines.length then some ((lines.take stop).drop start) else none

/-- The environment whose first line has the index `start`, with the index of the first line behind
it.  The last argument are the lines from `start + offset` on. -/
def collectFrom? (lines : List Line) (start : Nat) (name opening : List Char) :
    (offset depth : Nat) → List Line → Option (Environment × Nat)
  | _, _, [] => do
    let body ← lines? lines start lines.length
    some (⟨name, opening, body, []⟩, lines.length)
  | offset, depth, line :: rest => do
    match ← matchingClose? name line 0 depth with
    | (some stop, _) =>
      let body ← lines? lines start (start + offset)
      let before ← slice? line 0 stop
      let after ← slice? line (stop + size (closingMarker name)) (size line)
      some (⟨name, opening, if Text.isBlank before then body else body ++ [before],
        Text.trim after⟩, start + offset + 1)
    | (none, depth) => collectFrom? lines start name opening (offset + 1) depth rest

/-- The environment that is opened with the name and the rest of its line before the line with the
index `start`, and the index of the first line behind it. -/
def collect? (lines : List Line) (start : Nat) (name opening : List Char) :
    Option (Environment × Nat) := do
  match ← matchingClose? name opening 0 0 with
  | (some stop, _) =>
    let before ← slice? opening 0 stop
    let after ← slice? opening (stop + size (closingMarker name)) (size opening)
    some (⟨name, before, [], Text.trim after⟩, start)
  | (none, depth) =>
    let rest ← lines? lines start lines.length
    collectFrom? lines start name opening 0 depth rest

theorem lines?_append {lines before between after : List Line}
    (h : lines = before ++ (between ++ after)) :
    lines? lines before.length (before.length + between.length) = some between := by
  rw [lines?, if_pos (by simp [h]), h, ← List.append_assoc, ← List.length_append, List.take_left,
    List.drop_left]

/-- What stands on both sides of a closing marker is cut out between characters. -/
theorem slice?_closed {name before after line : List Char} {depth : Nat}
    (h : scanClose name depth 0 line = .closed before after) :
    matchingClose? name line 0 depth = some (some (size before), 0) ∧
      slice? line 0 (size before) = some before ∧
      slice? line (size before + size (closingMarker name)) (size line) = some after := by
  have hline := scanClose_eq_closed h
  have hmatch := matchingClose?_zero name line depth
  rw [h, outcome, List.nil_append] at hmatch
  refine ⟨hmatch, by rw [hline, slice?_left], ?_⟩
  rw [← size_append, hline, ← List.append_assoc, slice?_right]

theorem collectFrom?_eq {lines before body rest : List Line}
    (h : lines = before ++ (body ++ rest)) (name opening : List Char) (depth : Nat) :
    collectFrom? lines before.length name opening body.length depth rest =
      some (⟨name, opening, body ++ (collectBody name depth rest).body,
          (collectBody name depth rest).trailing⟩,
        lines.length - (collectBody name depth rest).rest.length) := by
  induction rest generalizing body depth with
  | nil =>
    have hbody := lines?_append h
    rw [← List.length_append, ← List.append_nil (before ++ body), List.append_assoc, ← h] at hbody
    rw [collectFrom?, hbody, collectBody]
    simp
  | cons line rest ih =>
    -- the line closes the environment, or belongs to its body
    cases hs : scanClose name depth 0 line with
    | closed front behind =>
      obtain ⟨hmatch, hfront, hbehind⟩ := slice?_closed hs
      have hnext : before.length + body.length + 1 = lines.length - rest.length := by
        rw [h]
        simp
        omega
      rw [collectFrom?, hmatch, collectBody, hs]
      simp only [Option.bind_eq_bind, Option.bind_some, lines?_append h, hfront, hbehind, hnext]
      split <;> simp
    | stillOpen during =>
      have hmatch := matchingClose?_zero name line depth
      rw [hs, outcome] at hmatch
      rw [collectFrom?, hmatch, collectBody, hs]
      have hlines : lines = before ++ (body ++ [line] ++ rest) := by simp [h]
      have hrest := ih hlines during
      rw [List.length_append, List.length_singleton] at hrest
      simp only [Option.bind_eq_bind, Option.bind_some, hrest, List.append_assoc,
        List.singleton_append]

/-- **An environment is collected** between characters and within the lines. -/
theorem collect?_eq {lines : List Line} {start : Nat} (h : start ≤ lines.length)
    (name opening : List Char) :
    collect? lines start name opening =
      some ((collect name opening (lines.drop start)).1,
        lines.length - (collect name opening (lines.drop start)).2.length) := by
  rw [collect?, collect]
  cases hs : scanClose name 0 0 opening with
  | closed before after =>
    obtain ⟨hmatch, hbefore, hafter⟩ := slice?_closed hs
    simp only [hmatch, Option.bind_eq_bind, Option.bind_some, hbefore, hafter, List.length_drop]
    rw [Nat.sub_sub_self h]
  | stillOpen depth =>
    have hmatch := matchingClose?_zero name opening 0
    rw [hs, outcome] at hmatch
    have hrest : lines? lines start lines.length = some (lines.drop start) := by
      rw [lines?, if_pos ⟨h, le_rfl⟩, List.take_length]
    -- otherwise the lines from there on are scanned
    have hlines : lines = lines.take start ++ ([] ++ lines.drop start) := by simp
    have hcollect := collectFrom?_eq hlines name opening depth
    rw [List.length_take_of_le h] at hcollect
    simp only [hmatch, Option.bind_eq_bind, Option.bind_some, hrest]
    exact hcollect

end Offset

end Interdoc.Latex
