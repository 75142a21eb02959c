import Interdoc.Proofs.Xml.Balance
import Interdoc.Proofs.Xml.Printing

/-!
# Trees built from events

A tree in linear form is a sequence of tokens: the start of an element with its attributes, its end,
and texts between them.  Events say the same in another form, in which an element may also be one
tag, and with comments and the like between.

The tree that is built from a sequence of events is that of its first element, and its tokens are
those of the events of this element.  The invariant is that balanced events put whole nodes into the
innermost open element (`Balanced.exists_fills`), and outside of all elements leave the first root
as it is (`Balanced.run_root`).  So a root is found if and only if the events are balanced and there
is an element, and everything else is a fault of its own (`ofEvents?_builds_first_element`).
-/

namespace Interdoc.Xml

/-! ### Tokens -/

/-- A token of a tree in linear form. -/
inductive Token where
  | start (name : String) (attributes : List (String × String))
  | finish (name : String)
  | text (s : String)
  deriving DecidableEq, Repr

mutual

/-- The tokens of a node. -/
def Node.tokens : Node → List Token
  | .text s => [.text s]
  | .element name attributes children =>
    .start name attributes :: (Node.tokensAmong children ++ [.finish name])

/-- The tokens of nodes, one after the other. -/
def Node.tokensAmong : List Node → List Token
  | [] => []
  | node :: rest => node.tokens ++ Node.tokensAmong rest

end

/-- A name without its prefix, as it stands in a tree. -/
def shortName (name : List Char) : String :=
  String.ofList (localName name)

/-- The tokens that an event says.  An empty element tag is the start and the end of an element. -/
def Event.tokens? : Event → Except Fault (List Token)
  | .start tag => tag.attributes?.map fun attributes => [.start (shortName tag.name) attributes]
  | .empty tag => tag.attributes?.map fun attributes =>
    [.start (shortName tag.name) attributes, .finish (shortName tag.name)]
  | .finish name => .ok [.finish (shortName name)]
  | .text raw => (unescape? raw).map fun s => [.text (String.ofList s)]
  | .data s => .ok [.text (String.ofList s)]
  | .other => .ok []

/-- The tokens that events say, one after the other. -/
def tokensAmong? : List Event → Except Fault (List Token)
  | [] => .ok []
  | e :: es =>
    match e.tokens?, tokensAmong? es with
    | .ok ts, .ok more => .ok (ts ++ more)
    | .error fault, _ => .error fault
    | .ok _, .error fault => .error fault

/-- The text or the attributes of an event can be read. -/
def Event.Decodes (e : Event) : Prop :=
  ∃ ts, e.tokens? = .ok ts

instance (e : Event) : Decidable e.Decodes :=
  match h : e.tokens? with
  | .ok ts => .isTrue ⟨ts, h⟩
  | .error _ => .isFalse fun ⟨_, hts⟩ => nomatch h.symm.trans hts

variable {e : Event} {es es' : List Event} {ts ts' : List Token} {tag : Tag}

theorem Node.tokensAmong_append (ns ns' : List Node) :
    Node.tokensAmong (ns ++ ns') = Node.tokensAmong ns ++ Node.tokensAmong ns' := by
  induction ns with
  | nil => rfl
  | cons n ns ih => rw [List.cons_append, tokensAmong, ih, tokensAmong, List.append_assoc]

theorem tokensAmong?_cons (h : e.tokens? = .ok ts) (h' : tokensAmong? es = .ok ts') :
    tokensAmong? (e :: es) = .ok (ts ++ ts') := by
  rw [tokensAmong?, h, h']

theorem tokensAmong?_append (h : tokensAmong? es = .ok ts) (h' : tokensAmong? es' = .ok ts') :
    tokensAmong? (es ++ es') = .ok (ts ++ ts') := by
  induction es generalizing ts with
  | nil =>
    obtain rfl := Except.ok.inj h
    exact h'
  | cons e es ih =>
    rw [tokensAmong?] at h
    split at h
    · next first more hfirst hmore =>
      obtain rfl := Except.ok.inj h
      rw [List.cons_append, tokensAmong?_cons hfirst (ih hmore), List.append_assoc]
    · cases h
    · cases h

theorem exists_of_map_eq_ok {α β : Type} {x : Except Fault α} {f : α → β} {b : β}
    (h : x.map f = .ok b) : ∃ a, x = .ok a ∧ f a = b := by
  cases x with
  | ok a => exact ⟨a, rfl, Except.ok.inj h⟩
  | error fault => cases h

/-! ### Balanced events put nodes into elements -/

theorem Fills.append {ns ns' : List Node} (h : Fills es ns) (h' : Fills es' ns') :
    Fills (es ++ es') (ns ++ ns') := fun p outer root more => by
  rw [List.append_assoc, h, h', List.reverse_append, List.append_assoc]

/-- What is no tag puts a text or nothing into an element. -/
theorem exists_fills_outside (he : e.isTag = false) (h : e.tokens? = .ok ts) :
    ∃ ns, Fills [e] ns ∧ Node.tokensAmong ns = ts := by
  cases e with
  | start | empty | finish => cases he
  | text raw =>
    rw [Event.tokens?] at h
    obtain ⟨s, hs, rfl⟩ := exists_of_map_eq_ok h
    refine ⟨[.text (String.ofList s)], fun p outer root more => ?_, rfl⟩
    simp only [List.singleton_append, Building.run, Building.step, hs]
    rfl
  | data s => exact ⟨[.text (String.ofList s)], fun _ _ _ _ => rfl, Except.ok.inj h⟩
  | other => exact ⟨[], fun _ _ _ _ => rfl, Except.ok.inj h⟩

mutual

/-- **The events of an element** put its tree where it belongs. -/
theorem OneElement.exists_puts : ∀ {es : List Event}, OneElement es → (∀ e ∈ es, e.Decodes) →
    ∃ n, Puts es n ∧ (EndsNamed es → tokensAmong? es = .ok n.tokens)
  | _, .empty tag, hdecode => by
    obtain ⟨ts, hts⟩ := List.forall_mem_singleton.mp hdecode
    obtain ⟨attributes, hattributes, -⟩ := exists_of_map_eq_ok hts
    refine ⟨_, puts_empty hattributes, fun _ => ?_⟩
    rw [tokensAmong?, Event.tokens?, hattributes]
    rfl
  | _, @OneElement.pair tag name inner hinner, hdecode => by
    rw [List.forall_mem_cons, List.forall_mem_append] at hdecode
    obtain ⟨ts, hstart⟩ := hdecode.1
    obtain ⟨attributes, hattributes, rfl⟩ := exists_of_map_eq_ok hstart
    obtain ⟨ns, hfills, htokens⟩ := hinner.exists_fills hdecode.2.1
    refine ⟨_, hfills.puts hattributes name, fun hnamed => ?_⟩
    have hname : name = tag.name := hnamed [] tag inner name [] rfl hinner
    have hinside : EndsNamed inner :=
      hnamed.of_part ⟨[.start tag], [.finish name], by simp⟩
    have hfinish : tokensAmong? [.finish name] = .ok [.finish (shortName tag.name)] := by
      rw [hname]
      rfl
    exact tokensAmong?_cons hstart (tokensAmong?_append (htokens hinside) hfinish)

/-- **Balanced events** put nodes into the innermost open element. -/
theorem Balanced.exists_fills : ∀ {es : List Event}, Balanced es → (∀ e ∈ es, e.Decodes) →
    ∃ ns, Fills es ns ∧ (EndsNamed es → tokensAmong? es = .ok (Node.tokensAmong ns))
  | _, .nil, _ => ⟨[], fills_nil, fun _ => rfl⟩
  | _, @Balanced.outside e es he h, hdecode => by
    rw [List.forall_mem_cons] at hdecode
    obtain ⟨⟨ts, hts⟩, hdecode⟩ := hdecode
    obtain ⟨ns, hfills, htokens⟩ := h.exists_fills hdecode
    obtain ⟨first, hfirst, rfl⟩ := exists_fills_outside he hts
    refine ⟨first ++ ns, hfirst.append hfills, fun hnamed => ?_⟩
    have hrest : EndsNamed es := hnamed.of_part (List.suffix_cons e es).isInfix
    rw [tokensAmong?_cons hts (htokens hrest), Node.tokensAmong_append]
  | _, @Balanced.element es rest he h, hdecode => by
    rw [List.forall_mem_append] at hdecode
    obtain ⟨n, hputs, hn⟩ := he.exists_puts hdecode.1
    obtain ⟨ns, hfills, htokens⟩ := h.exists_fills hdecode.2
    refine ⟨n :: ns, hputs.fills_cons hfills, fun hnamed => ?_⟩
    have hfirst : EndsNamed es := hnamed.of_part (List.prefix_append es rest).isInfix
    have hrest : EndsNamed rest := hnamed.of_part (List.suffix_append es rest).isInfix
    rw [tokensAmong?_append (hn hfirst) (htokens hrest), Node.tokensAmong]

end

/-! ### Runs -/

namespace Building

theorem run_append (b : Building) (es es' : List Event) :
    b.run (es ++ es') = (b.run es).bind (run · es') := by
  induction es generalizing b with
  | nil => rfl
  | cons e es ih =>
    rw [List.cons_append, run, run]
    cases b.step e with
    | error fault => rfl
    | ok b' => exact ih b'

theorem run_append_of_eq_ok {b b' : Building} (h : b.run es = .ok b') (es' : List Event) :
    b.run (es ++ es') = b'.run es' := by
  rw [run_append, h]
  rfl

/-- Outside of all elements nothing but tags counts. -/
theorem run_outside (h : ∀ e ∈ es, e.isTag = false) (root : Option Node) :
    run ⟨[], root⟩ es = .ok ⟨[], root⟩ := by
  induction es with
  | nil => rfl
  | cons e es ih =>
    rw [List.forall_mem_cons] at h
    have hstep : step ⟨[], root⟩ e = .ok ⟨[], root⟩ := by
      cases e with
      | start | empty | finish => cases h.1
      | text | data | other => rfl
    rw [run, hstep]
    exact ih h.2

end Building

theorem Puts.run_eq {n : Node} (h : Puts es n) (b : Building) : b.run es = .ok (b.attach n) := by
  have hrun := h b []
  rwa [List.append_nil] at hrun

theorem Fills.run_eq {ns : List Node} (h : Fills es ns) (p : Partial) (outer : List Partial)
    (root : Option Node) : Building.run ⟨p :: outer, root⟩ es =
      .ok ⟨{ p with reversed := ns.reverse ++ p.reversed } :: outer, root⟩ := by
  have hrun := h p outer root []
  rwa [List.append_nil] at hrun

/-- **The first root stays**, whatever elements come after it. -/
theorem Balanced.run_root (root : Node) : ∀ {es : List Event}, Balanced es →
    (∀ e ∈ es, e.Decodes) → Building.run ⟨[], some root⟩ es = .ok ⟨[], some root⟩
  | _, .nil, _ => rfl
  | _, @Balanced.outside e es he h, hdecode => by
    rw [List.forall_mem_cons] at hdecode
    have hskip : Building.run ⟨[], some root⟩ [e] = .ok ⟨[], some root⟩ :=
      Building.run_outside (List.forall_mem_singleton.mpr he) _
    rw [← List.singleton_append, Building.run_append_of_eq_ok hskip, h.run_root root hdecode.2]
  | _, .element he h, hdecode => by
    rw [List.forall_mem_append] at hdecode
    obtain ⟨n, hputs, -⟩ := he.exists_puts hdecode.1
    rw [Building.run_append_of_eq_ok (hputs.run_eq _)]
    exact h.run_root root hdecode.2

theorem Building.root_attach {b : Building} {root : Node} (h : b.root = some root) (n : Node) :
    (b.attach n).root = some root := by
  rw [Building.attach]
  split
  · exact h
  · rw [h]
    rfl

/-- No step changes a root. -/
theorem Building.root_step {b b' : Building} {root : Node} (h : b.step e = .ok b')
    (hroot : b.root = some root) : b'.root = some root := by
  have hattach (opened : List Partial) (n : Node) :
      (attach ⟨opened, b.root⟩ n).root = some root :=
    root_attach (b := ⟨opened, b.root⟩) hroot n
  unfold Building.step at h
  repeat' split at h
  all_goals cases h
  -- an event is left out, begins an element, or attaches a node
  all_goals first | exact hroot | exact hattach _ _

theorem Building.root_run {b b' : Building} {root : Node} (h : b.run es = .ok b')
    (hroot : b.root = some root) : b'.root = some root := by
  induction es generalizing b with
  | nil =>
    obtain rfl := Except.ok.inj h
    exact hroot
  | cons e es ih =>
    rw [run] at h
    split at h
    · cases h
    · next hstep => exact ih h (root_step hstep hroot)

/-- Balanced events leave nothing open, and they find a root if they have tags. -/
theorem Balanced.exists_run (h : Balanced es) (hdecode : ∀ e ∈ es, e.Decodes) :
    ∃ root, Building.empty.run es = .ok ⟨[], root⟩ ∧ (root = none → ∀ e ∈ es, e.isTag = false) := by
  rcases h.exists_first with hnone | ⟨before, element, after, rfl, hbefore, helement, hafter⟩
  · exact ⟨none, Building.run_outside hnone none, fun _ => hnone⟩
  · rw [List.forall_mem_append, List.forall_mem_append] at hdecode
    obtain ⟨n, hputs, -⟩ := helement.exists_puts hdecode.2.1
    refine ⟨some n, ?_, nofun⟩
    rw [Building.empty, Building.run_append_of_eq_ok (Building.run_outside hbefore none),
      Building.run_append_of_eq_ok (hputs.run_eq _)]
    exact hafter.run_root n hdecode.2.2

/-- A start tag and balanced events behind it leave one element more open. -/
theorem Balanced.exists_run_start (h : Balanced es) (htag : (Event.start tag).Decodes)
    (hdecode : ∀ e ∈ es, e.Decodes) (b : Building) : ∃ p : Partial,
      p.name = shortName tag.name ∧ b.run (.start tag :: es) = .ok ⟨p :: b.opened, b.root⟩ := by
  obtain ⟨ts, hts⟩ := htag
  obtain ⟨attributes, hattributes, -⟩ := exists_of_map_eq_ok hts
  obtain ⟨ns, hfills, -⟩ := h.exists_fills hdecode
  refine ⟨⟨shortName tag.name, attributes, ns.reverse ++ []⟩, rfl, ?_⟩
  rw [Building.run, Building.step, Building.ofTag, hattributes]
  exact hfills.run_eq _ _ _

/-- **Only a loose end tag stops the building.** -/
theorem Building.exists_run (h : ¬ HasLooseEnd es) (hdecode : ∀ e ∈ es, e.Decodes) :
    ∃ b, Building.empty.run es = .ok b := by
  induction hn : es.length using Nat.strong_induction_on generalizing es with
  | _ n ih =>
  rcases hasOutcome es with hbalanced | hloose | ⟨tag, before, after, rfl, hafter⟩
  · obtain ⟨root, hrun, -⟩ := hbalanced.exists_run hdecode
    exact ⟨_, hrun⟩
  · exact absurd hloose h
  · rw [List.forall_mem_append, List.forall_mem_cons] at hdecode
    obtain ⟨b, hb⟩ : ∃ b, Building.empty.run before = .ok b := by
      refine ih before.length ?_ (fun hloose => h (hloose.append_right _)) hdecode.1 rfl
      rw [← hn, List.length_append, List.length_cons]
      omega
    obtain ⟨p, -, hp⟩ := hafter.exists_run_start hdecode.2.1 hdecode.2.2 b
    exact ⟨_, (Building.run_append_of_eq_ok hb _).trans hp⟩

/-! ### Results -/

theorem ofEvents?_of_run {b : Building} (h : Building.empty.run es = .ok b) :
    Node.ofEvents? es = b.finish := by
  rw [Node.ofEvents?, h]

/-- Balanced events have a first element, or they have no tags at all. -/
theorem Balanced.exists_firstElement_or (h : Balanced es) :
    (∃ element, FirstElement element es) ∨ ∀ e ∈ es, e.isTag = false := by
  rcases h.exists_first with hnone | ⟨before, element, after, rfl, hbefore, helement, -⟩
  · exact .inr hnone
  · exact .inl ⟨element, before, after, rfl, hbefore, helement⟩

theorem Balanced.exists_ofEvents? (h : Balanced es) (hdecode : ∀ e ∈ es, e.Decodes)
    {element : List Event} (hfirst : FirstElement element es) :
    ∃ root, Node.ofEvents? es = .ok root := by
  obtain ⟨root, hrun, hnone⟩ := h.exists_run hdecode
  cases root with
  | none => exact absurd hfirst (not_firstElement (hnone rfl) element)
  | some root => exact ⟨root, ofEvents?_of_run hrun⟩

theorem Balanced.ofEvents?_eq_noElement (h : Balanced es)
    (hnone : ∀ element, ¬ FirstElement element es) : Node.ofEvents? es = .error .noElement := by
  rcases h.exists_firstElement_or with ⟨element, hfirst⟩ | houtside
  · exact absurd hfirst (hnone element)
  · exact ofEvents?_of_run (Building.run_outside houtside none)

theorem ofEvents?_of_hasLooseEnd (h : HasLooseEnd es) (hdecode : ∀ e ∈ es, e.Decodes) :
    Node.ofEvents? es = .error .unbalancedEnd := by
  obtain ⟨before, name, after, rfl, hbefore⟩ := h
  rw [List.forall_mem_append] at hdecode
  obtain ⟨root, hrun, -⟩ := hbefore.exists_run hdecode.1
  rw [Node.ofEvents?, Building.run_append_of_eq_ok hrun]
  rfl

theorem ofEvents?_of_leavesOpen (h : LeavesOpen tag es) (hloose : ¬ HasLooseEnd es)
    (hdecode : ∀ e ∈ es, e.Decodes) :
    Node.ofEvents? es = .error (.openElement (shortName tag.name)) := by
  obtain ⟨before, after, rfl, hafter⟩ := h
  rw [List.forall_mem_append, List.forall_mem_cons] at hdecode
  obtain ⟨b, hb⟩ := Building.exists_run (fun hbefore => hloose (hbefore.append_right _)) hdecode.1
  obtain ⟨p, hname, hp⟩ := hafter.exists_run_start hdecode.2.1 hdecode.2.2 b
  rw [ofEvents?_of_run ((Building.run_append_of_eq_ok hb _).trans hp), ← hname]
  rfl

/-- The root has the tokens of the first element. -/
theorem tokens_of_ofEvents? {element : List Event} {root : Node}
    (hroot : Node.ofEvents? es = .ok root) (hfirst : FirstElement element es)
    (hdecode : ∀ e ∈ es, e.Decodes) (hnamed : EndsNamed es) :
    tokensAmong? element = .ok root.tokens := by
  obtain ⟨before, after, rfl, hbefore, helement⟩ := hfirst
  rw [List.forall_mem_append, List.forall_mem_append] at hdecode
  obtain ⟨n, hputs, htokens⟩ := helement.exists_puts hdecode.2.1
  have hn : tokensAmong? element = .ok n.tokens :=
    htokens (hnamed.of_part ⟨before, after, by rw [List.append_assoc]⟩)
  rw [Node.ofEvents?, Building.empty,
    Building.run_append_of_eq_ok (Building.run_outside hbefore none),
    Building.run_append_of_eq_ok (hputs.run_eq _)] at hroot
  split at hroot
  · cases hroot
  · next b hb =>
    -- a root that was found once is not replaced
    have hfound : b.root = some n := Building.root_run hb rfl
    rw [Building.finish, hfound] at hroot
    cases hopened : b.opened with
    | cons p outer =>
      rw [hopened] at hroot
      cases hroot
    | nil =>
      rw [hopened] at hroot
      obtain rfl := Except.ok.inj hroot
      exact hn

/-- A root, or one of three faults: one of them is the result. -/
theorem ofEvents?_cases (hdecode : ∀ e ∈ es, e.Decodes) :
    (Balanced es ∧ (∃ element, FirstElement element es) ∧ ∃ root, Node.ofEvents? es = .ok root) ∨
      (Balanced es ∧ (∀ element, ¬ FirstElement element es) ∧
        Node.ofEvents? es = .error .noElement) ∨
      (∃ tag, LeavesOpen tag es ∧ ¬ HasLooseEnd es ∧
        Node.ofEvents? es = .error (.openElement (shortName tag.name))) ∨
      (HasLooseEnd es ∧ Node.ofEvents? es = .error .unbalancedEnd) := by
  by_cases hloose : HasLooseEnd es
  · exact .inr (.inr (.inr ⟨hloose, ofEvents?_of_hasLooseEnd hloose hdecode⟩))
  rcases hasOutcome es with hbalanced | hloose' | ⟨tag, hopen⟩
  · rcases hbalanced.exists_firstElement_or with ⟨element, hfirst⟩ | houtside
    · exact .inl ⟨hbalanced, ⟨element, hfirst⟩, hbalanced.exists_ofEvents? hdecode hfirst⟩
    · have hnone := not_firstElement houtside
      exact .inr (.inl ⟨hbalanced, hnone, hbalanced.ofEvents?_eq_noElement hnone⟩)
  · exact absurd hloose' hloose
  · exact .inr (.inr (.inl ⟨tag, hopen, hloose, ofEvents?_of_leavesOpen hopen hloose hdecode⟩))

/-- **The tree of events is that of their first element.**  Let the texts and attributes of the
events be readable.  A root is found if and only if the events are balanced and have an element
outside of all others, and if the end tags have the names of their start tags, then the tokens of
the root are those of the first of these elements.  Otherwise there is one fault: that no element is
there, or the innermost element left open, or that an end tag is loose. -/
theorem ofEvents?_builds_first_element {es : List Event} (hdecode : ∀ e ∈ es, e.Decodes) :
    ((∃ root, Node.ofEvents? es = .ok root) ↔
      Balanced es ∧ ∃ element, FirstElement element es) ∧
    (∀ root element, Node.ofEvents? es = .ok root → FirstElement element es → EndsNamed es →
      tokensAmong? element = .ok root.tokens) ∧
    ∀ fault, Node.ofEvents? es = .error fault ↔
      (fault = .noElement ∧ Balanced es ∧ ∀ element, ¬ FirstElement element es) ∨
      (∃ tag, fault = .openElement (shortName tag.name) ∧ LeavesOpen tag es ∧ ¬ HasLooseEnd es) ∨
      (fault = .unbalancedEnd ∧ HasLooseEnd es) := by
  refine ⟨⟨?_, ?_⟩, fun root element hroot hfirst hnamed => ?_, fun fault => ⟨?_, ?_⟩⟩
  · rintro ⟨root, hroot⟩
    rcases ofEvents?_cases hdecode with ⟨hbalanced, hfirst, -⟩ | hfault | ⟨tag, hfault⟩ | hfault
    · exact ⟨hbalanced, hfirst⟩
    · exact nomatch hroot.symm.trans hfault.2.2
    · exact nomatch hroot.symm.trans hfault.2.2
    · exact nomatch hroot.symm.trans hfault.2
  · rintro ⟨hbalanced, element, hfirst⟩
    exact hbalanced.exists_ofEvents? hdecode hfirst
  · exact tokens_of_ofEvents? hroot hfirst hdecode hnamed
  · intro hfault
    rcases ofEvents?_cases hdecode with
      ⟨-, -, root, hroot⟩ | ⟨hbalanced, hnone, h⟩ | ⟨tag, hopen, hloose, h⟩ | ⟨hloose, h⟩
    · exact nomatch hroot.symm.trans hfault
    · exact .inl ⟨Except.error.inj (hfault.symm.trans h), hbalanced, hnone⟩
    · exact .inr (.inl ⟨tag, Except.error.inj (hfault.symm.trans h), hopen, hloose⟩)
    · exact .inr (.inr ⟨Except.error.inj (hfault.symm.trans h), hloose⟩)
  · rintro (⟨rfl, hbalanced, hnone⟩ | ⟨tag, rfl, hopen, hloose⟩ | ⟨rfl, hloose⟩)
    · exact hbalanced.ofEvents?_eq_noElement hnone
    · exact ofEvents?_of_leavesOpen hopen hloose hdecode
    · exact ofEvents?_of_hasLooseEnd hloose hdecode

/-- The events of an element with a prefix, a reference, an element without content, a comment and
character data. -/
def mixedElement : List Event :=
  [.start ⟨"w:p a='1 &amp; 2'".toList⟩, .text "x &lt; y".toList, .empty ⟨"w:b".toList⟩, .other,
    .data "<&".toList, .finish "w:p".toList]

/-- The events of a text with this element, and with another one behind it. -/
def twoElements : List Event :=
  (events ("<?xml version='1.0'?>\n<w:p a='1 &amp; 2'>x &lt; y<w:b/><!-- c --><![CDATA[<&]]>" ++
    "</w:p><q></q>\n").toList).1

theorem ofEvents?_builds_first_element_twoElements :
    (∀ e ∈ twoElements, e.Decodes) ∧ EndsNamed twoElements ∧
      FirstElement mixedElement twoElements ∧
      ∃ root, Node.ofEvents? twoElements = .ok root ∧
        root.tokens = [.start "p" [("a", "1 & 2")], .text "x < y", .start "b" [], .finish "b",
          .text "<&", .finish "p"] := by
  have hnamed : EndsNamed twoElements := endsNamed_events _
  have hall : twoElements = [.other, .text ['\n']] ++ (mixedElement ++
      [.start ⟨['q']⟩, .finish ['q'], .text ['\n']]) := by
    decide +kernel
  have hdecode : ∀ e ∈ twoElements, e.Decodes := by
    rw [hall]
    decide +kernel
  have hinner : Balanced (.text "x &lt; y".toList :: ([.empty ⟨"w:b".toList⟩] ++
      [.other, .data "<&".toList])) :=
    .outside rfl (.element (.empty _) (.outside rfl (.outside rfl .nil)))
  have helement : OneElement mixedElement := .pair ⟨"w:p a='1 &amp; 2'".toList⟩ "w:p".toList hinner
  have hlast : OneElement [.start ⟨['q']⟩, .finish ['q']] := .pair ⟨['q']⟩ ['q'] .nil
  have hfirst : FirstElement mixedElement twoElements := ⟨_, _, hall, by decide, helement⟩
  have hbalanced : Balanced twoElements := by
    have hbehind : Balanced ([.start ⟨['q']⟩, .finish ['q']] ++ [.text ['\n']]) :=
      .element hlast (.outside rfl .nil)
    have helements : Balanced (mixedElement ++ _) := .element helement hbehind
    rw [hall]
    exact .outside rfl (.outside rfl helements)
  obtain ⟨hroot, htokens, -⟩ := ofEvents?_builds_first_element hdecode
  obtain ⟨root, h⟩ := hroot.mpr ⟨hbalanced, mixedElement, hfirst⟩
  refine ⟨hdecode, hnamed, hfirst, root, h, ?_⟩
  exact Except.ok.inj ((htokens root mixedElement h hfirst hnamed).symm.trans (by decide +kernel))

end Interdoc.Xml
