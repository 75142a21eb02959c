import Interdoc.Proofs.Xml.Meaning
import Interdoc.Proofs.Xml.Tags
import Interdoc.Xml.Tree

/-!
# Printed documents

A printed document is parsed as the tree that its markup means (`parse?_printDocument`), provided
that the markup is `Writable`: the content of each element is either one text or a sequence of
elements.

The induction is on the markup, with any text behind it: an element `Yields` its events in front of
those of what follows, and these events put its tree into whatever is being built (`Puts`).
-/

namespace Interdoc.Xml

/-! ### Single events -/

section

variable (opened : List (List Char)) {name : String} {attributes : List (String × List Char)}

/-- The events of a text and the markup behind it. -/
theorem eventsFrom_text {s : List Char} (hs : '<' ∉ s) (markup : List Char) :
    eventsFrom opened (s ++ '<' :: markup) =
      match readMarkup opened markup with
      | .error fault => (textEvent s, some fault)
      | .ok r => (textEvent s ++ r.1 :: (eventsFrom (r.1.openAfter opened) r.2).1,
          (eventsFrom (r.1.openAfter opened) r.2).2) := by
  have hpass : ∀ c ∈ s, (c != '<') = true := fun c hc => bne_iff_ne.mpr fun h => hs (h ▸ hc)
  have htake : (s ++ '<' :: markup).takeWhile (· != '<') = s := by
    rw [List.takeWhile_append_of_pos hpass, List.takeWhile_cons_of_neg (by decide),
      List.append_nil]
  have hdrop : (s ++ '<' :: markup).dropWhile (· != '<') = '<' :: markup := by
    rw [List.dropWhile_append_of_pos hpass, List.dropWhile_cons_of_neg (by decide)]
  rw [eventsFrom, htake]
  split
  · next hnil => rw [hdrop] at hnil; cases hnil
  · next c m hcons =>
    rw [hdrop] at hcons
    obtain ⟨rfl, rfl⟩ := List.cons.inj hcons
    split
    · next hm => rw [hm]
    · next hm => rw [hm]

theorem eventsFrom_markup {s markup rest : List Char} {e : Event} (hs : '<' ∉ s)
    (h : readMarkup opened markup = .ok (e, rest)) :
    eventsFrom opened (s ++ '<' :: markup) =
      (textEvent s ++ e :: (eventsFrom (e.openAfter opened) rest).1,
        (eventsFrom (e.openAfter opened) rest).2) := by
  rw [eventsFrom_text opened hs, h]

theorem eventsFrom_nil : eventsFrom opened [] = ([], none) := by
  rw [eventsFrom]
  rfl

theorem readMarkup_tag (hname : IsName name) (rest : List Char) :
    readMarkup opened (tagContent name attributes ++ rest) =
      readStart (tagContent name attributes ++ rest) := by
  obtain ⟨c, w, hw, hc⟩ := hname.exists_cons
  have hne (d : Char) (hd : isNameChar d = false) : c ≠ d := ne_of_isNameChar hc hd
  rw [tagContent, hw, List.cons_append, List.cons_append, readMarkup]
  simp only [if_neg (hne '!' (by decide)), if_neg (hne '/' (by decide)),
    if_neg (hne '?' (by decide))]

theorem eventsFrom_start (hname : IsName name) (h : AreWritable attributes) (rest : List Char) :
    eventsFrom opened ('<' :: (tagContent name attributes ++ '>' :: rest)) =
      (.start ⟨tagContent name attributes⟩ :: (eventsFrom (name.toList :: opened) rest).1,
        (eventsFrom (name.toList :: opened) rest).2) := by
  have hread := (readMarkup_tag opened hname ('>' :: rest)).trans (readStart_printed hname h rest)
  have hevents := eventsFrom_markup opened (s := []) List.not_mem_nil hread
  rwa [Event.openAfter, name_tagContent attributes hname] at hevents

theorem eventsFrom_empty (hname : IsName name) (h : AreWritable attributes) (rest : List Char) :
    eventsFrom opened ('<' :: (tagContent name attributes ++ (" />".toList ++ rest))) =
      (.empty ⟨tagContent name attributes ++ [' ']⟩ :: (eventsFrom opened rest).1,
        (eventsFrom opened rest).2) := by
  have hstart := readStart_printed_empty hname h rest
  rw [List.append_assoc] at hstart
  exact eventsFrom_markup opened (s := []) List.not_mem_nil
    ((readMarkup_tag opened hname _).trans hstart)

theorem eventsFrom_finish {s : List Char} (hs : '<' ∉ s) (hname : IsName name)
    (rest : List Char) :
    eventsFrom (name.toList :: opened) (s ++ '<' :: '/' :: (name.toList ++ '>' :: rest)) =
      (textEvent s ++ .finish name.toList :: (eventsFrom opened rest).1,
        (eventsFrom opened rest).2) :=
  eventsFrom_markup _ hs (readFinish_printed hname opened rest)

end

/-! ### Trees in the making -/

/-- Events that put a finished node where it belongs. -/
def Puts (es : List Event) (n : Node) : Prop :=
  ∀ b more, Building.run b (es ++ more) = (b.attach n).run more

/-- Events that put nodes into the innermost open element. -/
def Fills (es : List Event) (ns : List Node) : Prop :=
  ∀ p outer root more, Building.run ⟨p :: outer, root⟩ (es ++ more) =
    Building.run ⟨{ p with reversed := ns.reverse ++ p.reversed } :: outer, root⟩ more

theorem fills_nil : Fills [] [] := fun _ _ _ _ => rfl

theorem Puts.fills_cons {es es' : List Event} {n : Node} {ns : List Node} (h : Puts es n)
    (h' : Fills es' ns) : Fills (es ++ es') (n :: ns) := fun p outer root more => by
  rw [List.append_assoc, h, Building.attach, h']
  simp only [Partial.push, List.reverse_cons, List.append_assoc, List.singleton_append]

theorem unescape?_ne_nil {s : List Char} (hs : s ≠ []) : unescape? s ≠ .ok [] := by
  obtain ⟨c, s, rfl⟩ := List.exists_cons_of_ne_nil hs
  intro h
  have hcons : ∀ (a : Char) (r : Except Fault (List Char)), r.map (a :: ·) ≠ .ok [] := by
    rintro a (_ | _) ⟨⟩
  rw [unescape?, unescapeFrom] at h
  split at h
  · dsimp only at h
    split at h
    · split at h
      · cases h
      · exact hcons _ _ h
    · cases h
  · exact hcons _ _ h

/-- A text fills an element with the nodes that it means. -/
theorem fills_textEvent {s : List Char} {ns : List Node}
    (h : Markup.nodes? [.text s] = .ok ns) : Fills (textEvent s) ns := by
  rw [Markup.nodes?, Markup.node?] at h
  cases hs : unescape? s with
  | error e => rw [hs] at h; cases h
  | ok t =>
    rw [hs] at h
    obtain rfl := Except.ok.inj h
    cases s with
    | nil =>
      obtain rfl := Except.ok.inj hs
      exact fills_nil
    | cons c s =>
      have ht : String.ofList t ≠ "" := fun hnil => unescape?_ne_nil (List.cons_ne_nil c s)
        (hs.trans (congrArg Except.ok (String.ofList_eq_empty_iff.mp hnil)))
      intro p outer root more
      simp only [Node.cons, if_neg ht, textEvent, List.isEmpty_cons, Bool.false_eq_true, if_false,
        List.singleton_append, Building.run, Building.step, hs, Building.attach, Partial.push,
        List.reverse_singleton]

theorem puts_empty {tag : Tag} {attributes : List (String × String)}
    (h : tag.attributes? = .ok attributes) :
    Puts [.empty tag] (.element (String.ofList (localName tag.name)) attributes []) :=
  fun b more => by
    simp only [List.singleton_append, Building.run, Building.step, Building.ofTag, h]
    rfl

theorem Fills.puts {tag : Tag} {attributes : List (String × String)} {es : List Event}
    {ns : List Node} (h : tag.attributes? = .ok attributes) (hes : Fills es ns)
    (name : List Char) :
    Puts (.start tag :: (es ++ [.finish name]))
      (.element (String.ofList (localName tag.name)) attributes ns) := fun b more => by
  simp only [List.cons_append, List.append_assoc, Building.run, Building.step, Building.ofTag, h]
  rw [hes]
  simp only [List.nil_append, Building.run, Building.step, Partial.close, List.append_nil,
    List.reverse_reverse]

/-! ### Markup -/

/-- Markup that is read as it is printed. -/
inductive Writable : Markup → Prop
  | text {name : String} {attributes : List (String × List Char)} {s : List Char}
      (hname : IsName name) (hattributes : AreWritable attributes) (hs : '<' ∉ s) :
      Writable (.element name attributes [.text s])
  | element {name : String} {attributes : List (String × List Char)} {children : List Markup}
      (hname : IsName name) (hattributes : AreWritable attributes)
      (hchildren : ∀ m ∈ children, Writable m) : Writable (.element name attributes children)

/-- The names in a tag can be written. -/
def AreNames (name : String) (names : List String) : Prop :=
  IsName name ∧ (∀ n ∈ names, IsName n) ∧ names.Nodup

instance (name : String) (names : List String) : Decidable (AreNames name names) :=
  inferInstanceAs (Decidable (_ ∧ _ ∧ _))

theorem not_mem_escape {c : Char} (h : c = '"' ∨ c = '<') (s : List Char) : c ∉ escape s := by
  intro hmem
  obtain ⟨d, -, hd⟩ := List.mem_flatMap.mp hmem
  revert hd
  unfold escapeChar
  split
  case h_8 hlt _ hquot _ _ _ =>
    rw [List.mem_singleton]
    rintro rfl
    exact h.elim hquot hlt
  all_goals obtain rfl | rfl := h <;> decide

theorem areWritable_of_names {name : String} {attributes : List (String × List Char)}
    (hnames : AreNames name (attributes.map Prod.fst)) (hvalues : ∀ a ∈ attributes, '"' ∉ a.2) :
    AreWritable attributes :=
  ⟨fun _ ha => hnames.2.1 _ (List.mem_map_of_mem ha), hnames.2.2, hvalues⟩

section

variable {name : String}

theorem writable_leaf (names : List String) (h : AreNames name names)
    {attributes : List (String × String)} (hattributes : attributes.map Prod.fst = names) :
    Writable (.leaf name attributes) := by
  have hnames : (attributes.map fun a => (a.1, escape a.2.toList)).map Prod.fst = names := by
    rw [List.map_map, ← hattributes]
    rfl
  refine .element h.1 (areWritable_of_names (hnames ▸ h) fun a ha => ?_) (List.forall_mem_nil _)
  obtain ⟨b, -, rfl⟩ := List.mem_map.mp ha
  exact not_mem_escape (.inl rfl) _

theorem writable_group {children : List Markup} (h : AreNames name [])
    (hchildren : ∀ m ∈ children, Writable m) : Writable (.group name children) :=
  .element h.1 (areWritable_of_names h (List.forall_mem_nil _)) hchildren

theorem writable_textElement {attributes : List (String × List Char)}
    (h : AreNames name (attributes.map Prod.fst)) (hvalues : ∀ a ∈ attributes, '"' ∉ a.2)
    (s : List Char) : Writable (.element name attributes [.text (escape s)]) :=
  .text h.1 (areWritable_of_names h hvalues) (not_mem_escape (.inr rfl) s)

end

/-- A text yields events in front of those of what follows. -/
def Yields (w : List Char) (es : List Event) : Prop :=
  ∀ opened rest, eventsFrom opened (w ++ rest) =
    (es ++ (eventsFrom opened rest).1, (eventsFrom opened rest).2)

theorem yields_nil : Yields [] [] := fun _ _ => rfl

theorem Yields.append {v w : List Char} {es es' : List Event} (h : Yields v es)
    (h' : Yields w es') : Yields (v ++ w) (es ++ es') := fun opened rest => by
  rw [List.append_assoc, h, h', List.append_assoc]

namespace Markup

variable {name : String} {attributes : List (String × List Char)}

theorem print_empty (name : String) (attributes : List (String × List Char)) :
    print (.element name attributes []) =
      '<' :: (tagContent name attributes ++ " />".toList) := by
  rw [print, tagContent, List.cons_append, List.cons_append]

theorem print_element {children : List Markup} (h : children ≠ []) :
    print (.element name attributes children) =
      '<' :: (tagContent name attributes ++ '>' :: (printAll children ++
        '<' :: '/' :: (name.toList ++ ['>']))) := by
  obtain ⟨m, rest, rfl⟩ := List.exists_cons_of_ne_nil h
  rw [print, printAll, tagContent]
  simp

/-- The parts of an element that means something. -/
theorem exists_of_node?_element {children : List Markup} {n : Node}
    (h : node? (.element name attributes children) = .ok n) :
    ∃ values ns, attributes.mapM value? = .ok values ∧ nodes? children = .ok ns ∧
      n = .element (String.ofList (localName name.toList)) values ns := by
  rw [node?] at h
  split at h
  · next values ns hvalues hns =>
    exact ⟨values, ns, hvalues, hns, (Except.ok.inj h).symm⟩
  · cases h
  · cases h

theorem exists_of_nodes?_cons {m : Markup} {ms : List Markup} {ns : List Node}
    (h : nodes? (m :: ms) = .ok ns) :
    ∃ n rest, m.node? = .ok n ∧ nodes? ms = .ok rest ∧ ns = n.cons rest := by
  rw [nodes?] at h
  split at h
  · next n rest hn hrest => exact ⟨n, rest, hn, hrest, (Except.ok.inj h).symm⟩
  · cases h
  · cases h

theorem isElement_of_writable {m : Markup} (h : Writable m) {n : Node} (hn : m.node? = .ok n) :
    n.IsElement := by
  cases h <;>
  · obtain ⟨values, ns, -, -, rfl⟩ := exists_of_node?_element hn
    trivial

/-- The start tag of an element, its content, and its end tag. -/
theorem exists_events_element (hname : IsName name) (h : AreWritable attributes)
    {values : List (String × String)} (hvalues : attributes.mapM value? = .ok values)
    {content : List Char} {es : List Event} {ns : List Node} (hfills : Fills es ns)
    (hcontent : ∀ opened rest,
      eventsFrom (name.toList :: opened) (content ++ '<' :: '/' :: (name.toList ++ '>' :: rest)) =
        (es ++ .finish name.toList :: (eventsFrom opened rest).1, (eventsFrom opened rest).2)) :
    ∃ es', Yields ('<' :: (tagContent name attributes ++ '>' :: (content ++
        '<' :: '/' :: (name.toList ++ ['>'])))) es' ∧
      Puts es' (.element (String.ofList (localName name.toList)) values ns) := by
  have htag := (attributes?_tagContent hname h).trans hvalues
  have hputs := hfills.puts htag name.toList
  rw [name_tagContent attributes hname] at hputs
  refine ⟨_, fun opened rest => ?_, hputs⟩
  have hstart := eventsFrom_start opened hname h
    (content ++ '<' :: '/' :: (name.toList ++ '>' :: rest))
  rw [hcontent] at hstart
  simpa using hstart

/-- The events of a sequence of elements, if each has events that put its tree where it belongs. -/
theorem exists_fills {ms : List Markup} {ns : List Node} (h : nodes? ms = .ok ns)
    (hms : ∀ m ∈ ms, ∀ n, m.node? = .ok n →
      n.IsElement ∧ ∃ es, Yields m.print es ∧ Puts es n) :
    ∃ es, Yields (printAll ms) es ∧ Fills es ns := by
  induction ms generalizing ns with
  | nil =>
    obtain rfl := Except.ok.inj h
    exact ⟨[], yields_nil, fills_nil⟩
  | cons m ms ih =>
    obtain ⟨n, rest, hm, hrest, rfl⟩ := exists_of_nodes?_cons h
    rw [List.forall_mem_cons] at hms
    obtain ⟨helement, es, hes, hputs⟩ := hms.1 n hm
    obtain ⟨es', hes', hfills⟩ := ih hrest hms.2
    rw [printAll, Node.cons_of_isElement helement]
    exact ⟨es ++ es', hes.append hes', hputs.fills_cons hfills⟩

/-- **The events of printed markup** put its tree where it belongs. -/
theorem exists_events {m : Markup} (h : Writable m) {n : Node} (hn : m.node? = .ok n) :
    ∃ es, Yields m.print es ∧ Puts es n := by
  induction h generalizing n with
  | text hname hattributes hs =>
    obtain ⟨values, ns, hvalues, hns, rfl⟩ := exists_of_node?_element hn
    rw [print_element (List.cons_ne_nil _ _)]
    refine exists_events_element hname hattributes hvalues (fills_textEvent hns) ?_
    intro opened rest
    rw [printAll, printAll, List.append_nil, print, eventsFrom_finish opened hs hname]
  | @element name attributes children hname hattributes hchildren ih =>
    obtain ⟨values, ns, hvalues, hns, rfl⟩ := exists_of_node?_element hn
    -- an element without children is a single tag, and has a single event
    by_cases hnil : children = []
    · subst hnil
      obtain rfl := Except.ok.inj hns
      have hblank : ∀ c ∈ [' '], isSpace c = true := by decide
      have hlocal := name_printed attributes hname hblank
      have hputs := puts_empty ((attributes?_printed hname hattributes hblank).trans hvalues)
      rw [hlocal] at hputs
      refine ⟨_, fun opened rest => ?_, hputs⟩
      rw [print_empty, List.cons_append, List.append_assoc, eventsFrom_empty opened hname hattributes]
      rfl
    · obtain ⟨es, hes, hfills⟩ := exists_fills hns fun m hm n hn =>
        ⟨isElement_of_writable (hchildren m hm) hn, ih m hm hn⟩
      rw [print_element hnil]
      refine exists_events_element hname hattributes hvalues hfills fun opened rest => ?_
      have hfinish := eventsFrom_finish opened (s := []) List.not_mem_nil hname rest
      rw [List.nil_append] at hfinish
      rw [hes, hfinish]
      rfl

end Markup

/-! ### Documents -/

theorem splitAtBracket_append {test : List Char → Bool} {w : List Char} (h : '>' ∉ w)
    (seen rest : List Char) (hw : test (w.reverse ++ seen) = true) :
    splitAtBracket test seen (w ++ '>' :: rest) = some ((w.reverse ++ seen).reverse, rest) := by
  induction w generalizing seen with
  | nil =>
    rw [List.reverse_nil, List.nil_append] at hw ⊢
    rw [List.nil_append, splitAtBracket, hw]
    rfl
  | cons c w ih =>
    rw [List.mem_cons, not_or] at h
    rw [List.reverse_cons, List.append_assoc, List.singleton_append] at hw ⊢
    rw [List.cons_append, splitAtBracket, ih h.2 _ hw]
    simp [Ne.symm h.1]

/-- What stands between the brackets of the declaration. -/
def declaration : List Char :=
  "?xml version=\"1.0\" encoding=\"UTF-8\"?".toList

theorem readMarkup_declaration (opened : List (List Char)) (rest : List Char) :
    readMarkup opened (declaration ++ '>' :: rest) = .ok (.other, rest) := by
  have hsplit : splitAtBracket endsInstruction [] (declaration ++ '>' :: rest) =
      some (declaration, rest) := by
    have hends : endsInstruction (declaration.reverse ++ []) = true := by decide
    rw [splitAtBracket_append (by decide) [] rest hends, List.append_nil,
      List.reverse_reverse]
  have hhead : declaration ++ '>' :: rest = '?' :: (declaration.tail ++ '>' :: rest) := by
    rw [← List.cons_append]
    exact congrArg (· ++ '>' :: rest) (by decide : declaration = '?' :: declaration.tail)
  have hlength : ¬ declaration.length < 2 := by decide
  rw [hhead, readMarkup, ← hhead]
  simp only [if_neg (show '?' ≠ '!' by decide), if_neg (show '?' ≠ '/' by decide), if_true,
    readInstruction, hsplit, if_neg hlength]

theorem printDocument_eq (m : Markup) :
    m.printDocument = '<' :: (declaration ++ '>' :: '\n' :: m.print) := by
  have hline : "<?xml version=\"1.0\" encoding=\"UTF-8\"?>\n".toList =
      ['<'] ++ declaration ++ ['>', '\n'] := by decide
  unfold Markup.printDocument
  rw [hline]
  simp only [List.append_assoc, List.cons_append, List.nil_append]

theorem Writable.exists_print {m : Markup} (h : Writable m) :
    ∃ markup, m.print = '<' :: markup := by
  cases h with
  | text => exact ⟨_, Markup.print_element (List.cons_ne_nil _ _)⟩
  | @element _ _ children =>
    cases children with
    | nil => exact ⟨_, Markup.print_empty _ _⟩
    | cons m ms => exact ⟨_, Markup.print_element (List.cons_ne_nil _ _)⟩

/-- A document is the events of its root behind a declaration and the end of a line. -/
theorem events_printDocument {m : Markup} (h : Writable m) {es : List Event}
    (hes : Yields m.print es) :
    events m.printDocument = (.other :: .text ['\n'] :: es, none) := by
  obtain ⟨markup, hmarkup⟩ := h.exists_print
  have hroot := hes [] []
  rw [List.append_nil, hmarkup, eventsFrom_nil, List.append_nil,
    ← List.nil_append ('<' :: markup), eventsFrom_text [] List.not_mem_nil] at hroot
  -- the line feed in front of the root is a text, and changes nothing else
  have hline : eventsFrom [] ('\n' :: '<' :: markup) = (.text ['\n'] :: es, none) := by
    rw [← List.singleton_append, eventsFrom_text [] (by decide)]
    cases hread : readMarkup [] markup with
    | error fault =>
      rw [hread] at hroot
      cases hroot
    | ok r =>
      rw [hread] at hroot
      obtain ⟨hfirst, hsecond⟩ := Prod.ext_iff.mp hroot
      simp only [textEvent, List.isEmpty_nil, if_true, List.nil_append] at hfirst hsecond
      simp only [hfirst, hsecond]
      rfl
  have hevents := eventsFrom_markup [] (s := []) List.not_mem_nil
    (readMarkup_declaration [] ('\n' :: '<' :: markup))
  simp only [Event.openAfter, hline] at hevents
  rw [printDocument_eq, hmarkup, events, List.head?_cons, if_neg (by decide)]
  exact hevents

/-- **A printed document is parsed as the tree that its markup means.** -/
theorem parse?_printDocument {m : Markup} (h : Writable m) {n : Node} (hn : m.node? = .ok n) :
    parse? m.printDocument = .ok n := by
  obtain ⟨es, hes, hputs⟩ := Markup.exists_events h hn
  have hrun := hputs Building.empty []
  rw [List.append_nil] at hrun
  rw [parse?, events_printDocument h hes]
  simp only [Node.ofEvents?, Building.run, Building.step, Building.empty, List.isEmpty_nil,
    if_true]
  rw [← Building.empty, hrun]
  rfl

end Interdoc.Xml
