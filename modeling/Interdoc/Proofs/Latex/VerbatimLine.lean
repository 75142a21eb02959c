import Interdoc.Proofs.Latex.Composition
import Interdoc.Proofs.Latex.Verbatim

/-!
# Code on one line

A verbatim environment may stand on one line with both of its markers.  Its code is then read as it
is, unless it has a percent sign that no backslash hides: the comment is cut off the line before the
line is seen to open an environment, so the rest of the code goes, and the closing marker with it
(`parseBlocks_verbatimLine`).

What decides is that a comment begins in the code or not at all: a text that has a comment loses all
that follows (`stripComment_append_of_ne`), and one that has none loses nothing to a comment of its
own (`stripComment_append_of_eq`).
-/

namespace Interdoc.Latex

/-! ### Where a comment begins -/

/-- A text without percent signs has no comment. -/
theorem stripComment_of_not_mem {s : List Char} (h : '%' ∉ s) : stripComment s = s := by
  fun_induction stripComment s with
  | case1 => rfl
  | case2 => rfl
  | case3 c s ih =>
    simp only [List.mem_cons, not_or] at h
    rw [ih h.2.2]
  | case4 s => exact absurd List.mem_cons_self h
  | case5 c s _ _ _ ih =>
    rw [List.mem_cons, not_or] at h
    rw [ih h.2]

/-- Nothing is cut off a text without percent signs behind one that has no comment. -/
theorem stripComment_append_of_eq {s t : List Char} (h : stripComment s = s) (ht : '%' ∉ t) :
    stripComment (s ++ t) = s ++ t := by
  fun_induction stripComment s with
  | case1 => exact stripComment_of_not_mem ht
  | case2 =>
    -- the backslash hides the first character of what follows
    cases t with
    | nil => rfl
    | cons d t =>
      rw [List.mem_cons, not_or] at ht
      rw [List.singleton_append, stripComment, stripComment_of_not_mem ht.2]
  | case3 c s ih =>
    have hs : stripComment s = s := List.cons_injective (List.cons_injective h)
    rw [List.cons_append, List.cons_append, stripComment, ih hs]
  | case4 s => exact absurd h (List.cons_ne_nil _ _).symm
  | case5 c s h₁ h₂ h₃ ih =>
    rw [List.cons_append, stripComment_char (ne_backslash h₁ h₂) h₃, ih (List.cons_injective h)]

/-- **A comment reaches to the end of the line**: what follows it is cut off with it. -/
theorem stripComment_append_of_ne {s : List Char} (h : stripComment s ≠ s) (t : List Char) :
    stripComment (s ++ t) = stripComment s := by
  fun_induction stripComment s with
  | case1 => exact absurd rfl h
  | case2 => exact absurd rfl h
  | case3 c s ih =>
    have hs : stripComment s ≠ s := fun hs => h (by rw [hs])
    rw [List.cons_append, List.cons_append, stripComment, ih hs]
  | case4 s => rfl
  | case5 c s h₁ h₂ h₃ ih =>
    have hs : stripComment s ≠ s := fun hs => h (by rw [hs])
    rw [List.cons_append, stripComment_char (ne_backslash h₁ h₂) h₃, ih hs]

theorem stripComment_isPrefix (s : List Char) : stripComment s <+: s := by
  fun_induction stripComment s with
  | case1 => exact List.prefix_rfl
  | case2 => exact List.prefix_rfl
  | case3 c s ih => exact List.cons_prefix_cons.mpr ⟨rfl, List.cons_prefix_cons.mpr ⟨rfl, ih⟩⟩
  | case4 s => exact List.nil_prefix
  | case5 c s _ _ _ ih => exact List.cons_prefix_cons.mpr ⟨rfl, ih⟩

/-- What is left of a text with a comment is shorter. -/
theorem length_stripComment_lt {s : List Char} (h : stripComment s ≠ s) :
    (stripComment s).length < s.length := by
  refine lt_of_le_of_ne (stripComment_isPrefix s).length_le fun hl => ?_
  exact h ((stripComment_isPrefix s).eq_of_length hl)

/-! ### The line -/

/-- The name of the environments that hold nothing but code. -/
def verbatimName : List Char := "verbatim".toList

/-- Code on one line with both markers of its environment. -/
def verbatimLine (code : List Char) : Line :=
  openingMarker verbatimName ++ (code ++ closingMarker verbatimName)

theorem stripComment_verbatimMarker (s : List Char) :
    stripComment (openingMarker verbatimName ++ s) = openingMarker verbatimName ++ stripComment s :=
  rfl

theorem trim_verbatimLine (code : List Char) :
    Text.trim (verbatimLine code) = verbatimLine code := by
  refine Text.trim_eq_self (Text.solidHead_cons.mpr (by decide)) ?_
  rw [verbatimLine, ← List.append_assoc]
  exact (Text.solidLast_append (by decide)).mpr (by decide)

theorem isEnvironmentName_verbatim : IsEnvironmentName verbatimName := by decide

/-- A line that is an opening marker and more, once its comment is gone. -/
theorem opening?_significant {name : List Char} (hn : IsEnvironmentName name) {raw : Line}
    {s : List Char} (h : stripComment (Text.trim raw) = openingMarker name ++ s) :
    opening? (significant raw) = some (name, Text.trimRight s) := by
  have hhead : Text.SolidHead (openingMarker name ++ s) :=
    Text.solidHead_cons.mpr (by decide)
  have hlast : Text.SolidLast (openingMarker name) := Text.solidLast_concat.mpr (by decide)
  rw [significant, h, Text.trim, Text.trimLeft_eq_self hhead,
    Text.trimRight_append_of_solidLast hlast, opening?_openingMarker hn]

variable {code : List Char}

/-- Code without a comment is behind the opening marker, with the closing one. -/
theorem opening?_verbatimLine (h : stripComment code = code) :
    opening? (significant (verbatimLine code)) =
      some (verbatimName, code ++ closingMarker verbatimName) := by
  have hlast : Text.SolidLast (code ++ closingMarker verbatimName) :=
    (Text.solidLast_append (by decide)).mpr (by decide)
  have hstrip : stripComment (code ++ closingMarker verbatimName) =
      code ++ closingMarker verbatimName := stripComment_append_of_eq h (by decide)
  rw [opening?_significant isEnvironmentName_verbatim (s := code ++ closingMarker verbatimName), Text.trimRight_eq_self hlast]
  rw [trim_verbatimLine, verbatimLine, stripComment_verbatimMarker, hstrip]

/-- Of code with a comment nothing is left but what stands before it. -/
theorem opening?_verbatimLine_of_ne (h : stripComment code ≠ code) :
    opening? (significant (verbatimLine code)) =
      some (verbatimName, Text.trimRight (stripComment code)) := by
  apply opening?_significant isEnvironmentName_verbatim
  rw [trim_verbatimLine, verbatimLine, stripComment_verbatimMarker, stripComment_append_of_ne h]

/-- **A marker begins in a text before it** only if it ends there, since nothing but its first
character is a backslash. -/
theorem closingMarker_isInfix_of_append {name : List Char} (hname : '\\' ∉ name) {c : Char}
    {s : List Char} (h : closingMarker name <+: c :: s ++ closingMarker name) :
    closingMarker name <:+: c :: s := by
  obtain ⟨t, ht⟩ := h
  rcases List.append_eq_append_iff.mp ht with ⟨u, hs, -⟩ | ⟨u, hm, hu⟩
  · exact ⟨[], u, hs.symm⟩
  · cases u with
    | nil => exact ⟨[], [], by rw [hm, List.append_nil, List.append_nil]; rfl⟩
    | cons d u =>
      -- what follows the text in the marker is where the marker begins again
      have hcons : closingMarker name = '\\' :: ("end\x7b".toList ++ name ++ ['\x7d']) := rfl
      rw [hcons, List.cons_append] at hu
      rw [hcons, List.cons_append] at hm
      have hd : '\\' ∈ "end\x7b".toList ++ name ++ ['\x7d'] := by
        rw [List.tail_eq_of_cons_eq hm, List.head_eq_of_cons_eq hu]
        exact List.mem_append_right s List.mem_cons_self
      simp [hname] at hd

/-- **The marker behind code** closes a verbatim environment, if none in the code does. -/
theorem scanClose_append_closingMarker {name : List Char} (hv : isVerbatim name = true)
    (hname : '\\' ∉ name) {s : List Char} (h : ¬ closingMarker name <:+: s) :
    scanClose name 0 0 (s ++ closingMarker name) = .closed s [] := by
  induction s with
  | nil =>
    have hclose := scanClose_closingMarker name 0 []
    rwa [List.append_nil] at hclose
  | cons c s ih =>
    have hs : ¬ closingMarker name <:+: s := fun hi =>
      h (hi.trans (List.suffix_cons c s).isInfix)
    have hc : ¬ closingMarker name <+: c :: (s ++ closingMarker name) := fun hp =>
      h (closingMarker_isInfix_of_append hname hp)
    rw [List.cons_append, scanClose_cons_of_isVerbatim hv hc, ih hs, CloseScan.cons]

/-! ### Reading -/

theorem isVerbatim_verbatim : isVerbatim verbatimName = true := by decide

theorem environmentBlocks_verbatimOpening (opening : Line) (body : List Line) :
    environmentBlocks ⟨verbatimName, opening, body, []⟩ = [.code (String.ofList (Text.unlines
      (if Text.isBlank (Text.trimLeft opening) then body else Text.trimLeft opening :: body)))
        none] := by
  rw [environmentBlocks]
  rfl

/-- A line that closes the environment which it opens. -/
theorem parseBlocks_closedVerbatim {raw : Line} (hblank : Text.isBlank code = false)
    (hsolid : Text.SolidHead code) (hclose : ¬ closingMarker verbatimName <:+: code)
    (h : opening? (significant raw) = some (verbatimName, code ++ closingMarker verbatimName))
    (rest : List Line) :
    parseBlocks (raw :: rest) = .code (String.ofList code) none :: parseBlocks rest := by
  have hscan : scanClose verbatimName 0 0 (code ++ closingMarker verbatimName) = .closed code [] :=
    scanClose_append_closingMarker isVerbatim_verbatim (by decide) hclose
  have hfirst : Text.trimLeft code = code := Text.trimLeft_eq_self hsolid
  rw [parseBlocks, segments_of_opening? h, collect, hscan, assemble, parseBlocks]
  dsimp only
  have htrim : Text.trim [] = [] := rfl
  rw [htrim, environmentBlocks_verbatimOpening, hfirst, hblank]
  rfl

/-- A line that opens the environment and does not close it, when nothing follows. -/
theorem parseBlocks_openVerbatimLine {raw : Line} {opening : List Char}
    (h : opening? (significant raw) = some (verbatimName, opening))
    (hclose : ¬ closingMarker verbatimName <:+: opening) :
    ∃ first, first <:+ opening ∧ parseBlocks [raw] = [.code (String.ofList first) none] := by
  have hscan : scanClose verbatimName 0 0 opening = .stillOpen 0 :=
    scanClose_of_isVerbatim isVerbatim_verbatim hclose 0
  have hnil : segments [] = [] := by rw [segments]
  have hparse : parseBlocks [raw] = environmentBlocks ⟨verbatimName, opening, [], []⟩ := by
    rw [parseBlocks, segments_of_opening? h, collect, hscan]
    dsimp only [collectBody]
    rw [hnil, assemble, assemble]
    exact List.append_nil _
  rw [hparse, environmentBlocks_verbatimOpening]
  split_ifs with hblank
  · exact ⟨[], List.nil_suffix, rfl⟩
  · exact ⟨Text.trimLeft opening, List.dropWhile_suffix _, rfl⟩

theorem stripComment_stripComment (s : List Char) :
    stripComment (stripComment s) = stripComment s := by
  fun_induction stripComment s with
  | case1 => rfl
  | case2 => rfl
  | case3 c s ih => rw [stripComment, ih]
  | case4 s => rfl
  | case5 c s h₁ h₂ h₃ ih => rw [stripComment_char (ne_backslash h₁ h₂) h₃, ih]

/-- **A line with a comment in its code** is read up to the comment. -/
theorem parseBlocks_verbatimLine_of_ne (h : stripComment code ≠ code) (rest : List Line) :
    parseBlocks (verbatimLine code :: rest) =
      parseBlocks ((openingMarker verbatimName ++ stripComment code) :: rest) := by
  obtain ⟨w, -, hw⟩ := Text.exists_trimRight_append_blank (stripComment code)
  have hlast : Text.SolidLast (openingMarker verbatimName) := by decide
  have hhead : Text.SolidHead (openingMarker verbatimName ++ stripComment code) :=
    Text.solidHead_cons.mpr (by decide)
  have hcut : stripComment (Text.trimRight (stripComment code)) =
      Text.trimRight (stripComment code) := by
    apply stripComment_eq_self_of_append (t := w)
    rw [hw, stripComment_stripComment]
  have hstrip : stripComment (Text.trim (openingMarker verbatimName ++ stripComment code)) =
      openingMarker verbatimName ++ Text.trimRight (stripComment code) := by
    rw [Text.trim, Text.trimLeft_eq_self hhead, Text.trimRight_append_of_solidLast hlast,
      stripComment_verbatimMarker, hcut]
  have hopen := opening?_significant isEnvironmentName_verbatim hstrip
  rw [Text.trimRight_eq_self (Text.solidLast_trimRight _)] at hopen
  rw [parseBlocks, parseBlocks, segments_of_opening? hopen,
    segments_of_opening? (opening?_verbatimLine_of_ne h)]

/-- **Code on one line is kept exactly if no comment begins in it.**  Otherwise the line is read as
if it ended where the comment begins, so that the environment is not closed on it. -/
theorem parseBlocks_verbatimLine (hblank : Text.isBlank code = false) (hsolid : Text.SolidHead code)
    (hclose : ¬ closingMarker verbatimName <:+: code) :
    ((∀ rest, parseBlocks (verbatimLine code :: rest) =
        .code (String.ofList code) none :: parseBlocks rest) ↔ stripComment code = code) ∧
      (stripComment code ≠ code → ∀ rest, parseBlocks (verbatimLine code :: rest) =
        parseBlocks ((openingMarker verbatimName ++ stripComment code) :: rest)) := by
  refine ⟨⟨fun hkept => ?_, fun h rest => ?_⟩, parseBlocks_verbatimLine_of_ne⟩
  · by_contra h
    have htrimmed : Text.trimRight (stripComment code) <+: stripComment code :=
      Text.trimRight_isPrefix _
    have hunclosed : ¬ closingMarker verbatimName <:+: Text.trimRight (stripComment code) :=
      fun hi => hclose (hi.trans (htrimmed.trans (stripComment_isPrefix code)).isInfix)
    obtain ⟨first, hfirst, hparse⟩ :=
      parseBlocks_openVerbatimLine (opening?_verbatimLine_of_ne h) hunclosed
    have hnil : parseBlocks [] = [] := by
      rw [parseBlocks, segments, assemble]
      rfl
    rw [hkept [], hnil] at hparse
    have hcode : code = first := by simpa [String.ofList_inj] using hparse
    -- the code that is read is shorter than the code
    have hlt := length_stripComment_lt h
    have hle := hfirst.length_le.trans htrimmed.length_le
    rw [← hcode] at hle
    omega
  · exact parseBlocks_closedVerbatim hblank hsolid hclose (opening?_verbatimLine h) rest

/-- Code with a hidden percent sign, a marker that opens an environment and blanks at its end. -/
theorem parseBlocks_verbatimLine_hidden_percent :
    let code := "50\\% \\begin\x7bquote\x7d ".toList
    stripComment code = code ∧
      parseBlocks [verbatimLine code, "a".toList] =
        .code "50\\% \\begin\x7bquote\x7d " none :: parseBlocks ["a".toList] := by
  intro code
  have hstrip : stripComment code = code := by decide
  exact ⟨hstrip, (parseBlocks_verbatimLine (by decide) (by decide) (by decide)).1.mpr hstrip _⟩

/-- **A percent sign in the code** cuts the code, and the next line is read as part of it. -/
theorem parseBlocks_verbatimLine_percent :
    let code := "50% off".toList
    (Text.isBlank code = false ∧ Text.SolidHead code ∧ ¬ closingMarker verbatimName <:+: code) ∧
      parseBlocks [verbatimLine code, "z".toList] = [.code "50\nz" none] ∧
      parseBlocks [verbatimLine code, "z".toList] ≠
        .code "50% off" none :: parseBlocks ["z".toList] := by
  intro code
  have hopen : opening? (significant (verbatimLine code)) = some (verbatimName, "50".toList) := by
    rw [opening?_verbatimLine_of_ne (by decide)]
    decide
  have hcollect : collect verbatimName "50".toList ["z".toList] =
      (⟨verbatimName, "50".toList, ["z".toList], []⟩, []) := rfl
  have hnil : segments [] = [] := by rw [segments]
  have hparse : parseBlocks [verbatimLine code, "z".toList] = [.code "50\nz" none] := by
    rw [parseBlocks, segments_of_opening? hopen, hcollect, hnil, assemble, assemble,
      environmentBlocks_verbatimOpening]
    rfl
  refine ⟨by decide, hparse, ?_⟩
  rw [hparse]
  simp

end Interdoc.Latex
