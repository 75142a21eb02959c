import Interdoc.Markdown.Underline
import Mathlib.Data.List.Infix

/-!
# Pairs of underlining tags

`resolveUnderline` treats the tags of underlining as brackets.  Which of them make a pair is said
here without the stack that finds them: pieces have no loose end if in no front part of them there
are more closing than opening tags, and an opening tag is still open behind pieces without one.

A closing tag makes a pair with the last opening tag that is still open, and then the pair with all
between is like one underlined inline (`resolve_pair`).  A closing tag with no opening tag to close,
and an opening tag that nothing closes, are texts between what is before and what is behind
(`resolve_loose_closing`, `resolve_open_opening`).  These laws say what becomes of any pieces, so
what holds of their result can be shown along them (`pieces_induction`).

The proofs look at pieces that stand behind others.  If they close nothing that is open there, they
are read as if they stood alone, and what has been gathered before is put under the result
(`run_above`).
-/

namespace Interdoc

namespace Markdown

/-! ### Tags among pieces -/

namespace InlinePiece

/-- Whether a piece is a tag that begins underlined text. -/
def isOpening : InlinePiece → Bool
  | .inline _ => false
  | .raw s => RawKind.ofRaw s.toList == .opening

/-- Whether a piece is a tag that ends underlined text. -/
def isClosing : InlinePiece → Bool
  | .inline _ => false
  | .raw s => RawKind.ofRaw s.toList == .closing

/-- The inline that a piece is by itself. -/
def plain : InlinePiece → Inline
  | .inline i => i
  | .raw s =>
    match RawKind.ofRaw s.toList with
    | .wrapped inner => .underline [.text (String.ofList inner)]
    | .opening | .closing | .opaqueText => .text s

theorem isClosing_of_isOpening {piece : InlinePiece} (h : piece.isOpening = true) :
    piece.isClosing = false := by
  cases piece with
  | inline i => rfl
  | raw s =>
    rw [isOpening, beq_iff_eq] at h
    rw [isClosing, h]
    rfl

theorem isOpening_of_isClosing {piece : InlinePiece} (h : piece.isClosing = true) :
    piece.isOpening = false := by
  cases piece with
  | inline i => rfl
  | raw s =>
    rw [isClosing, beq_iff_eq] at h
    rw [isOpening, h]
    rfl

end InlinePiece

/-- The pieces close nothing that is open before them: in no front part of them there are more
closing than opening tags. -/
def HasNoLooseEnd (pieces : List InlinePiece) : Prop :=
  ∀ front, front <+: pieces →
    front.countP InlinePiece.isClosing ≤ front.countP InlinePiece.isOpening

/-- An opening tag is still open behind the pieces. -/
def HasOpen (pieces : List InlinePiece) : Prop :=
  ∃ outer opening inner, pieces = outer ++ opening :: inner ∧ opening.isOpening = true ∧
    HasNoLooseEnd inner

theorem hasNoLooseEnd_of_forall {pieces : List InlinePiece}
    (h : ∀ piece ∈ pieces, piece.isClosing = false) : HasNoLooseEnd pieces := by
  intro front hfront
  have hnone : front.countP InlinePiece.isClosing = 0 := by
    rw [List.countP_eq_zero]
    intro piece hpiece
    simp [h piece (hfront.subset hpiece)]
  omega

theorem HasNoLooseEnd.append {ps qs : List InlinePiece} (hp : HasNoLooseEnd ps)
    (hq : HasNoLooseEnd qs) : HasNoLooseEnd (ps ++ qs) := by
  intro front hfront
  rcases List.prefix_or_prefix_of_prefix hfront (List.prefix_append ps qs) with h | ⟨rest, rfl⟩
  · exact hp front h
  · have hrest := hq rest ((List.prefix_append_right_inj ps).mp hfront)
    have hall := hp ps (List.prefix_refl ps)
    rw [List.countP_append, List.countP_append]
    omega

/-- What a closing tag would leave loose, an opening tag before can hold. -/
theorem HasNoLooseEnd.enclosed {inner : List InlinePiece} {opening closing : InlinePiece}
    (h : HasNoLooseEnd inner) (hopening : opening.isOpening = true) :
    HasNoLooseEnd (opening :: inner ++ [closing]) := by
  intro front hfront
  have hnot := InlinePiece.isClosing_of_isOpening hopening
  rcases List.prefix_concat_iff.mp hfront with rfl | hfront
  · have hall := h inner (List.prefix_refl inner)
    simp only [List.cons_append, List.countP_cons, List.countP_append, List.countP_nil, hopening,
      hnot]
    cases closing.isClosing <;> simp <;> omega
  · cases front with
    | nil => simp
    | cons piece front =>
      obtain ⟨rfl, hinner⟩ := List.cons_prefix_cons.mp hfront
      have hcount := h front hinner
      simp only [List.countP_cons, hopening, hnot]
      simp
      omega

/-! ### One step -/

namespace Pairing

variable {p around : Pairing} {piece : InlinePiece}

/-- The inlines of a state, all its tags that are still open being text. -/
def close (p : Pairing) : List Inline :=
  finish p.current p.outer

/-- Several more pieces. -/
def run (p : Pairing) (pieces : List InlinePiece) : Pairing :=
  pieces.foldl step p

theorem run_cons (p : Pairing) (piece : InlinePiece) (pieces : List InlinePiece) :
    p.run (piece :: pieces) = (p.step piece).run pieces := rfl

theorem run_append (p : Pairing) (ps qs : List InlinePiece) :
    p.run (ps ++ qs) = (p.run ps).run qs :=
  List.foldl_append

theorem step_opening (h : piece.isOpening = true) (p : Pairing) :
    p.step piece = ⟨[], p.current :: p.outer⟩ := by
  cases piece with
  | inline i => cases h
  | raw s =>
    rw [InlinePiece.isOpening, beq_iff_eq] at h
    simp only [step, h]

theorem step_closing (h : piece.isClosing = true) (current frame : List Inline)
    (outer : List (List Inline)) :
    step ⟨current, frame :: outer⟩ piece = ⟨.underline current.reverse :: frame, outer⟩ := by
  cases piece with
  | inline i => cases h
  | raw s =>
    rw [InlinePiece.isClosing, beq_iff_eq] at h
    simp only [step, h]

theorem step_plain (hopening : piece.isOpening = false)
    (h : piece.isClosing = false ∨ p.outer = []) : p.step piece = p.push piece.plain := by
  cases piece with
  | inline i => rfl
  | raw s =>
    rw [InlinePiece.isOpening] at hopening
    rw [InlinePiece.isClosing] at h
    cases hkind : RawKind.ofRaw s.toList with
    | opening => rw [hkind] at hopening; cases hopening
    | wrapped inner => simp only [step, InlinePiece.plain, hkind]
    | opaqueText => simp only [step, InlinePiece.plain, hkind]
    | closing =>
      rw [hkind] at h
      rcases h with h | h
      · cases h
      · simp only [step, InlinePiece.plain, hkind, h]

/-! ### States above others -/

/-- What is gathered in a state, with what is gathered in another one under it. -/
def stack (around : Pairing) (current : List Inline) : (outer : List (List Inline)) → Pairing
  | [] => ⟨current ++ around.current, around.outer⟩
  | frame :: outer =>
    ⟨current, (stack around frame outer).current :: (stack around frame outer).outer⟩

/-- A state with another one under it: its outermost frame becomes part of the innermost one of the
other. -/
def above (p around : Pairing) : Pairing :=
  stack around p.current p.outer

theorem stack_append (around : Pairing) (xs current : List Inline) (outer : List (List Inline)) :
    stack around (xs ++ current) outer =
      ⟨xs ++ (stack around current outer).current, (stack around current outer).outer⟩ := by
  cases outer with
  | nil => rw [stack, stack, List.append_assoc]
  | cons frame outer => rfl

@[simp]
theorem empty_above (around : Pairing) : empty.above around = around := rfl

theorem above_push (p around : Pairing) (i : Inline) :
    (p.push i).above around = (p.above around).push i :=
  stack_append around [i] p.current p.outer

/-- **A step does not see what is under a state**, if it closes nothing there. -/
theorem step_above (h : piece.isClosing = false ∨ p.outer ≠ [] ∨ around.outer = []) :
    (p.above around).step piece = (p.step piece).above around := by
  -- only a closing tag looks at the frame below
  cases hopening : piece.isOpening with
  | true =>
    rw [step_opening hopening, step_opening hopening]
    rfl
  | false =>
    cases hclosing : piece.isClosing with
    | false =>
      rw [step_plain hopening (.inl hclosing), step_plain hopening (.inl hclosing), above_push]
    | true =>
      obtain ⟨current, outer⟩ := p
      cases outer with
      | nil =>
        have haround : around.outer = [] := by simpa [hclosing] using h
        have hstep : step ⟨current, []⟩ piece = push ⟨current, []⟩ piece.plain :=
          step_plain hopening (.inr rfl)
        rw [hstep, above_push]
        exact step_plain hopening (.inr haround)
      | cons frame outer =>
        rw [step_closing hclosing]
        change step ⟨current, _ :: _⟩ piece = stack around (_ :: frame) outer
        rw [step_closing hclosing]
        exact (stack_append around [_] frame outer).symm

/-- The pieces close nothing under a state: any front part of them has at most as many more closing
than opening tags as are open in the state, or there is nothing open under it. -/
def Spares (p around : Pairing) (pieces : List InlinePiece) : Prop :=
  around.outer = [] ∨ ∀ front, front <+: pieces →
    front.countP InlinePiece.isClosing ≤ front.countP InlinePiece.isOpening + p.outer.length

theorem Spares.step {pieces : List InlinePiece} (h : Spares p around (piece :: pieces)) :
    Spares (p.step piece) around pieces := by
  rcases h with h | h
  · exact .inl h
  refine .inr fun front hfront => ?_
  have hcount := h (piece :: front) (List.cons_prefix_cons.mpr ⟨rfl, hfront⟩)
  rw [List.countP_cons, List.countP_cons] at hcount
  -- an opening tag adds one that may be closed, and a closing tag takes one away
  cases hopening : piece.isOpening with
  | true =>
    rw [hopening, InlinePiece.isClosing_of_isOpening hopening] at hcount
    rw [step_opening hopening, List.length_cons]
    simp at hcount
    omega
  | false =>
    rw [hopening] at hcount
    cases hclosing : piece.isClosing with
    | false =>
      rw [hclosing] at hcount
      rw [step_plain hopening (.inl hclosing), push]
      simpa using hcount
    | true =>
      rw [hclosing] at hcount
      obtain ⟨current, outer⟩ := p
      cases outer with
      | nil =>
        rw [step_plain hopening (.inr rfl), push]
        simp at hcount ⊢
        omega
      | cons frame outer =>
        rw [step_closing hclosing]
        simp at hcount ⊢
        omega

theorem run_above {pieces : List InlinePiece} (h : Spares p around pieces) :
    (p.above around).run pieces = (p.run pieces).above around := by
  induction pieces generalizing p with
  | nil => rfl
  | cons piece pieces ih =>
    have hstep : piece.isClosing = false ∨ p.outer ≠ [] ∨ around.outer = [] := by
      rcases h with h | h
      · exact .inr (.inr h)
      · by_cases hclosing : piece.isClosing = true
        · have hcount := h [piece] (List.cons_prefix_cons.mpr ⟨rfl, List.nil_prefix⟩)
          have hopening := InlinePiece.isOpening_of_isClosing hclosing
          rw [List.countP_singleton, List.countP_singleton, hclosing, hopening] at hcount
          refine .inr (.inl fun hnil => ?_)
          rw [hnil] at hcount
          simp at hcount
        · exact .inl (by simpa using hclosing)
    rw [run_cons, run_cons, step_above hstep, ih h.step]

/-- **Pieces without a loose end** are read as if they stood alone. -/
theorem run_of_hasNoLooseEnd {pieces : List InlinePiece} (h : HasNoLooseEnd pieces)
    (around : Pairing) : around.run pieces = (empty.run pieces).above around := by
  have hspares : Spares empty around pieces := .inr fun front hfront => h front hfront
  exact run_above hspares

/-- Where nothing is open, all pieces are read as if they stood alone. -/
theorem run_of_outer_eq_nil (h : around.outer = []) (pieces : List InlinePiece) :
    around.run pieces = (empty.run pieces).above around :=
  run_above (.inl h : Spares empty around pieces)

/-! ### The end -/

theorem finish_append (xs current : List Inline) (outer : List (List Inline)) :
    finish (xs ++ current) outer = finish current outer ++ xs.reverse := by
  induction outer generalizing current with
  | nil => rw [finish, finish, List.reverse_append]
  | cons frame outer ih => rw [finish, finish, List.append_assoc, ih]

theorem close_above (p around : Pairing) : (p.above around).close = around.close ++ p.close := by
  obtain ⟨current, outer⟩ := p
  change finish (stack around current outer).current (stack around current outer).outer =
    around.close ++ finish current outer
  induction outer generalizing current with
  | nil => exact finish_append current around.current around.outer
  | cons frame outer ih =>
    have hstack := stack_append around (current ++ [.text (String.ofList openTag)]) frame outer
    rw [List.append_assoc, List.append_assoc, List.singleton_append, List.singleton_append]
      at hstack
    rw [stack, finish, finish, ← ih, hstack]

/-- What opens a tag is, at the end, the tag as a text. -/
theorem close_opened (p : Pairing) :
    close ⟨[], p.current :: p.outer⟩ = p.close ++ [.text (String.ofList openTag)] := by
  unfold close
  rw [finish, List.nil_append]
  exact finish_append [_] p.current p.outer

end Pairing

open Pairing

/-! ### Open tags -/

theorem resolveUnderline_eq_close (pieces : List InlinePiece) :
    resolveUnderline pieces = (Pairing.empty.run pieces).close := rfl

/-- **A pair** with nothing open in it is one step, which adds what is between, underlined. -/
theorem run_pair {opening closing : InlinePiece} {inner : List InlinePiece}
    (hopening : opening.isOpening = true) (hclosing : closing.isClosing = true)
    (hloose : HasNoLooseEnd inner) (hinner : (Pairing.empty.run inner).outer = []) (p : Pairing) :
    p.run (opening :: inner ++ [closing]) =
      p.push (.underline (resolveUnderline inner)) := by
  have hclose : resolveUnderline inner = (Pairing.empty.run inner).current.reverse := by
    rw [resolveUnderline_eq_close, close, hinner, finish]
  rw [List.cons_append, run_cons, step_opening hopening, run_append, run_of_hasNoLooseEnd hloose,
    above, hinner, stack, List.append_nil, hclose]
  exact step_closing hclosing _ _ _

/-- What is open in a state after some pieces is the state before an opening tag. -/
theorem exists_latest {pieces : List InlinePiece} (h : (Pairing.empty.run pieces).outer ≠ []) :
    ∃ outer opening inner, pieces = outer ++ opening :: inner ∧ opening.isOpening = true ∧
      HasNoLooseEnd inner ∧ (Pairing.empty.run inner).outer = [] := by
  induction hn : pieces.length using Nat.strong_induction_on generalizing pieces with
  | _ n ih =>
  rcases List.eq_nil_or_concat' pieces with rfl | ⟨before, piece, rfl⟩
  · exact absurd rfl h
  rw [List.length_append, List.length_singleton] at hn
  rw [run_append] at h
  change ((Pairing.empty.run before).step piece).outer ≠ [] at h
  cases hopening : piece.isOpening with
  | true => exact ⟨before, piece, [], rfl, hopening, hasNoLooseEnd_of_forall (by simp), rfl⟩
  | false =>
    cases hclosing : piece.isClosing with
    | false =>
      -- a piece that is no tag stands behind the opening tag like what is there before it
      rw [step_plain hopening (.inl hclosing)] at h
      obtain ⟨outer, opening, inner, rfl, hopen, hloose, hinner⟩ := ih _ (by omega) h rfl
      refine ⟨outer, opening, inner ++ [piece], by simp, hopen, ?_, ?_⟩
      · exact hloose.append (hasNoLooseEnd_of_forall (by simpa using hclosing))
      · rw [run_append]
        change ((Pairing.empty.run inner).step piece).outer = []
        rw [step_plain hopening (.inl hclosing)]
        exact hinner
    | true =>
      have hbefore : (Pairing.empty.run before).outer ≠ [] := by
        intro hnil
        rw [step_plain hopening (.inr hnil)] at h
        exact h hnil
      -- the closing tag makes a pair with the last open tag, and then the one before is the last
      obtain ⟨outer, opening, inner, rfl, hopen, hloose, hinner⟩ := ih _ (by omega) hbefore rfl
      have hpair := run_pair hopen hclosing hloose hinner
      have houter : (Pairing.empty.run outer).outer ≠ [] := by
        have hstep : ((Pairing.empty.run (outer ++ opening :: inner)).step piece) =
            (Pairing.empty.run outer).run (opening :: inner ++ [piece]) := by
          rw [run_append, run_append]
          rfl
        rw [hstep, hpair] at h
        exact h
      have hlength : outer.length < n := by
        rw [List.length_append, List.length_cons] at hn
        omega
      obtain ⟨outer', opening', inner', rfl, hopen', hloose', hinner'⟩ := ih _ hlength houter rfl
      refine ⟨outer', opening', inner' ++ (opening :: inner ++ [piece]), by simp, hopen', ?_, ?_⟩
      · exact hloose'.append (hloose.enclosed hopen)
      · rw [run_append, hpair]
        exact hinner'

/-- **The frames of the stack** are the opening tags that are still open. -/
theorem outer_eq_nil_iff {pieces : List InlinePiece} :
    (Pairing.empty.run pieces).outer = [] ↔ ¬ HasOpen pieces := by
  constructor
  · rintro h ⟨outer, opening, inner, rfl, hopening, hloose⟩
    rw [run_append, run_cons, step_opening hopening, run_of_hasNoLooseEnd hloose] at h
    unfold above at h
    cases hframes : (Pairing.empty.run inner).outer with
    | nil => rw [hframes, stack] at h; cases h
    | cons frame frames => rw [hframes, stack] at h; cases h
  · intro h
    by_contra hne
    obtain ⟨outer, opening, inner, hpieces, hopening, hloose, -⟩ := exists_latest hne
    exact h ⟨outer, opening, inner, hpieces, hopening, hloose⟩

/-- Of the opening tags that are open there is a last one, behind which nothing is open. -/
theorem HasOpen.exists_latest {pieces : List InlinePiece} (h : HasOpen pieces) :
    ∃ outer opening inner, pieces = outer ++ opening :: inner ∧ opening.isOpening = true ∧
      HasNoLooseEnd inner ∧ ¬ HasOpen inner := by
  have hne : (Pairing.empty.run pieces).outer ≠ [] := fun hnil => outer_eq_nil_iff.mp hnil h
  obtain ⟨outer, opening, inner, hpieces, hopening, hloose, hinner⟩ := Markdown.exists_latest hne
  exact ⟨outer, opening, inner, hpieces, hopening, hloose, outer_eq_nil_iff.mp hinner⟩

/-! ### The laws of pairing -/

/-- **A pair is one underlined inline** in its place. -/
theorem resolve_pair {outer inner after : List InlinePiece} {opening closing : InlinePiece}
    (hopening : opening.isOpening = true) (hclosing : closing.isClosing = true)
    (hloose : HasNoLooseEnd inner) (hinner : ¬ HasOpen inner) :
    resolveUnderline (outer ++ opening :: inner ++ closing :: after) =
      resolveUnderline (outer ++ .inline (.underline (resolveUnderline inner)) :: after) := by
  have hsplit : outer ++ opening :: inner ++ closing :: after =
      outer ++ ((opening :: inner ++ [closing]) ++ after) := by simp
  rw [hsplit, resolveUnderline_eq_close, resolveUnderline_eq_close, run_append, run_append,
    run_pair hopening hclosing hloose (outer_eq_nil_iff.mpr hinner), run_append]
  rfl

/-- Behind pieces that leave nothing open, reading begins anew. -/
theorem resolve_append {before : List InlinePiece} (h : ¬ HasOpen before)
    (after : List InlinePiece) :
    resolveUnderline (before ++ after) = resolveUnderline before ++ resolveUnderline after := by
  rw [resolveUnderline_eq_close, run_append, run_of_outer_eq_nil (outer_eq_nil_iff.mpr h),
    close_above]
  rfl

/-- **A closing tag without an opening one** is a text. -/
theorem resolve_loose_closing {before after : List InlinePiece} {closing : InlinePiece}
    (hclosing : closing.isClosing = true) (h : ¬ HasOpen before) :
    resolveUnderline (before ++ closing :: after) =
      resolveUnderline before ++ closing.plain :: resolveUnderline after := by
  have hstep : Pairing.empty.step closing = ⟨[closing.plain], []⟩ :=
    step_plain (InlinePiece.isOpening_of_isClosing hclosing) (.inr rfl)
  have hafter : resolveUnderline (closing :: after) = closing.plain :: resolveUnderline after := by
    rw [resolveUnderline_eq_close, run_cons, hstep, run_of_outer_eq_nil rfl, close_above]
    rfl
  rw [resolve_append h, hafter]

/-- **An opening tag that nothing closes** is a text. -/
theorem resolve_open_opening {before after : List InlinePiece} {opening : InlinePiece}
    (hopening : opening.isOpening = true) (h : HasNoLooseEnd after) :
    resolveUnderline (before ++ opening :: after) =
      resolveUnderline before ++ .text "<u>" :: resolveUnderline after := by
  rw [resolveUnderline_eq_close, run_append, run_cons, step_opening hopening,
    run_of_hasNoLooseEnd h, close_above, close_opened, List.append_assoc]
  rfl

/-- **Pieces that are no tags** are inlines by themselves. -/
theorem resolve_plain {pieces : List InlinePiece}
    (h : ∀ piece ∈ pieces, piece.isOpening = false ∧ piece.isClosing = false) :
    resolveUnderline pieces = pieces.map InlinePiece.plain := by
  have hrun (p : Pairing) : p.run pieces = ⟨(pieces.map InlinePiece.plain).reverse ++ p.current,
      p.outer⟩ := by
    induction pieces generalizing p with
    | nil => rfl
    | cons piece pieces ih =>
      rw [List.forall_mem_cons] at h
      rw [run_cons, step_plain h.1.1 (.inl h.1.2), ih h.2, List.map_cons, List.reverse_cons,
        List.append_assoc]
      rfl
  rw [resolveUnderline_eq_close, hrun]
  simp [close, finish, Pairing.empty]

/-- **Induction along the laws**: pieces are no tags, or there is a loose closing tag, a pair, or an
open tag among them. -/
theorem pieces_induction {motive : List InlinePiece → Prop}
    (plain : ∀ pieces,
      (∀ piece ∈ pieces, InlinePiece.isOpening piece = false ∧ piece.isClosing = false) →
        motive pieces)
    (closing : ∀ before tag after, InlinePiece.isClosing tag = true → ¬ HasOpen before →
      motive before → motive after → motive (before ++ tag :: after))
    (pair : ∀ outer first inner last after, InlinePiece.isOpening first = true →
      InlinePiece.isClosing last = true → HasNoLooseEnd inner → ¬ HasOpen inner →
        motive inner → motive (outer ++ .inline (.underline (resolveUnderline inner)) :: after) →
          motive (outer ++ first :: inner ++ last :: after))
    (opening : ∀ before tag after, InlinePiece.isOpening tag = true → HasNoLooseEnd after →
      motive before → motive after → motive (before ++ tag :: after))
    (pieces : List InlinePiece) : motive pieces := by
  induction hn : pieces.length using Nat.strong_induction_on generalizing pieces with
  | _ n ih =>
  by_cases hclosing : ∃ tag ∈ pieces, InlinePiece.isClosing tag = true
  · obtain ⟨tag, hmem, htag⟩ := hclosing
    obtain ⟨before, after, rfl⟩ := List.append_of_mem hmem
    rw [List.length_append, List.length_cons] at hn
    by_cases hopen : HasOpen before
    · obtain ⟨outer, first, inner, rfl, hfirst, hloose, hinner⟩ := hopen.exists_latest
      rw [List.length_append, List.length_cons] at hn
      apply pair outer first inner tag after hfirst htag hloose hinner
      · exact ih _ (by omega) inner rfl
      · refine ih _ ?_ _ rfl
        rw [List.length_append, List.length_cons]
        omega
    · exact closing before tag after htag hopen (ih _ (by omega) before rfl)
        (ih _ (by omega) after rfl)
  · have hnone : ∀ tag ∈ pieces, InlinePiece.isClosing tag = false := by simpa using hclosing
    by_cases hopening : ∃ tag ∈ pieces, InlinePiece.isOpening tag = true
    · obtain ⟨tag, hmem, htag⟩ := hopening
      obtain ⟨before, after, rfl⟩ := List.append_of_mem hmem
      rw [List.length_append, List.length_cons] at hn
      -- without closing tags nothing is closed
      have hloose : HasNoLooseEnd after := hasNoLooseEnd_of_forall fun piece hpiece =>
        hnone piece (List.mem_append_right _ (List.mem_cons_of_mem _ hpiece))
      exact opening before tag after htag hloose (ih _ (by omega) before rfl)
        (ih _ (by omega) after rfl)
    · refine plain pieces fun piece hpiece => ⟨?_, hnone piece hpiece⟩
      simpa using fun htag => hopening ⟨piece, hpiece, htag⟩

end Markdown

end Interdoc
