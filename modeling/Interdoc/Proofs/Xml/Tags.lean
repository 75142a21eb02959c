import Interdoc.Proofs.Text.Trim
import Interdoc.Xml.Markup

/-!
# Printed tags

The tags of printed markup are read as what they say: the tag ends at its own bracket, since every
other bracket in it stands in quotes (`Passes.splitTag_eq`), the name is the name, and the attributes
are the attributes (`attributes?_printed`).  Names are made of letters, digits and colons, and
values hold no quotation marks.
-/

namespace Interdoc.Xml

/-! ### Names -/

/-- A character of a name. -/
def isNameChar (c : Char) : Bool :=
  c.isAlphanum || c == ':'

/-- A text is a name: there is something in it, and nothing but characters of names. -/
def IsName (s : String) : Prop :=
  s.toList ≠ [] ∧ ∀ c ∈ s.toList, isNameChar c = true

instance (s : String) : Decidable (IsName s) :=
  inferInstanceAs (Decidable (_ ∧ _))

theorem ne_of_isNameChar {c d : Char} (hc : isNameChar c = true) (hd : isNameChar d = false) :
    c ≠ d := by
  rintro rfl
  rw [hc] at hd
  cases hd

theorem isSpace_of_isNameChar {c : Char} (hc : isNameChar c = true) : isSpace c = false := by
  have hne (d : Char) (hd : isNameChar d = false) : (c == d) = false :=
    beq_eq_false_iff_ne.mpr (ne_of_isNameChar hc hd)
  rw [isSpace, hne ' ' (by decide), hne '\r' (by decide), hne '\n' (by decide),
    hne '\t' (by decide)]
  rfl

theorem IsName.exists_cons {s : String} (h : IsName s) :
    ∃ c w, s.toList = c :: w ∧ isNameChar c = true := by
  obtain ⟨c, w, hs⟩ := List.exists_cons_of_ne_nil h.1
  exact ⟨c, w, hs, h.2 c (hs ▸ List.mem_cons_self)⟩

/-! ### Ends of tags -/

/-- A part of a tag that is passed over in the search for its end. -/
def Passes (w : List Char) : Prop :=
  ∀ s, splitTag none (w ++ s) = (splitTag none s).map fun r => (w ++ r.1, r.2)

theorem passes_nil : Passes [] := fun s => by
  rw [List.nil_append]
  cases splitTag none s <;> rfl

theorem Passes.append {v w : List Char} (hv : Passes v) (hw : Passes w) : Passes (v ++ w) :=
  fun s => by
    rw [List.append_assoc, hv, hw, Option.map_map]
    simp only [Function.comp_def, List.append_assoc]

theorem passes_char {c : Char} (h : c ∉ ['>', '"', '\x27']) : Passes [c] := fun s => by
  simp only [List.mem_cons, List.not_mem_nil, or_false, not_or] at h
  rw [List.singleton_append, splitTag, if_neg h.1]
  simp [h.2.1, h.2.2]

theorem passes_of_forall {w : List Char} (h : ∀ c ∈ w, c ∉ ['>', '"', '\x27']) : Passes w := by
  induction w with
  | nil => exact passes_nil
  | cons c w ih =>
    rw [List.forall_mem_cons] at h
    exact (passes_char h.1).append (ih h.2)

theorem passes_name {s : String} (h : IsName s) : Passes s.toList :=
  passes_of_forall fun c hc => by
    have hnone : ∀ d ∈ ['>', '"', '\x27'], isNameChar d = false := by decide
    exact fun hmem => ne_of_isNameChar (h.2 c hc) (hnone c hmem) rfl

/-- A value in quotes may hold anything but quotation marks. -/
theorem passes_quoted {v : List Char} (h : '"' ∉ v) : Passes ('"' :: v ++ ['"']) := fun s => by
  have hinside : ∀ v : List Char, '"' ∉ v → splitTag (some '"') (v ++ '"' :: s) =
      (splitTag none s).map fun r => (v ++ '"' :: r.1, r.2) := by
    intro v
    induction v with
    | nil =>
      intro _
      rw [List.nil_append, splitTag, if_pos rfl]
      rfl
    | cons c v ih =>
      intro h
      rw [List.mem_cons, not_or] at h
      rw [List.cons_append, splitTag, if_neg (Ne.symm h.1), ih h.2, Option.map_map]
      rfl
  rw [List.cons_append, List.cons_append, List.append_assoc, List.singleton_append, splitTag,
    if_neg (by decide), if_pos (by decide), hinside v h, Option.map_map]
  simp only [Function.comp_def, List.append_assoc, List.cons_append, List.nil_append]

theorem Passes.splitTag_eq {w : List Char} (h : Passes w) (rest : List Char) :
    splitTag none (w ++ '>' :: rest) = some (w, rest) := by
  rw [h, splitTag, if_pos rfl, Option.map_some]
  simp only [List.append_nil]

/-! ### Attributes -/

/-- Attributes that are read as they are written. -/
structure AreWritable (attributes : List (String × List Char)) : Prop where
  names : ∀ a ∈ attributes, IsName a.1
  distinct : (attributes.map Prod.fst).Nodup
  values : ∀ a ∈ attributes, '"' ∉ a.2

theorem passes_attributes {attributes : List (String × List Char)} (h : AreWritable attributes) :
    Passes (attributes.flatMap Markup.printAttribute) := by
  have hall : ∀ a ∈ attributes, Passes (Markup.printAttribute a) := by
    intro a ha
    have hprint : Markup.printAttribute a =
        [' '] ++ a.1.toList ++ ['='] ++ ('"' :: a.2 ++ ['"']) := by
      simp [Markup.printAttribute]
    rw [hprint]
    exact (((passes_char (by decide)).append (passes_name (h.names a ha))).append
      (passes_char (by decide))).append (passes_quoted (h.values a ha))
  clear h
  induction attributes with
  | nil => exact passes_nil
  | cons a attributes ih =>
    rw [List.forall_mem_cons] at hall
    exact hall.1.append (ih hall.2)

/-- One attribute. -/
theorem attribute?_printed (position : Nat) {name : String} {v : List Char} (hname : IsName name)
    (hv : '"' ∉ v) {earlier : List RawAttribute} (hnew : ∀ a ∈ earlier, a.name ≠ name.toList)
    (rest : List Char) :
    attribute? position (name.toList ++ '=' :: '"' :: (v ++ '"' :: rest)) earlier =
      .ok (⟨name.toList, position, v⟩, rest) := by
  obtain ⟨c, w, hw, hc⟩ := hname.exists_cons
  have hchars : ∀ d ∈ w, (d != '=' && !isSpace d) = true := by
    intro d hd
    have hd' := hname.2 d (hw ▸ List.mem_cons_of_mem _ hd)
    rw [isSpace_of_isNameChar hd', Bool.not_false, Bool.and_true, bne_iff_ne]
    exact ne_of_isNameChar hd' (by decide)
  have htake : ∀ t : List Char,
      (w ++ '=' :: t).takeWhile (fun d => d != '=' && !isSpace d) = w := by
    intro t
    rw [List.takeWhile_append_of_pos hchars, List.takeWhile_cons_of_neg (by decide),
      List.append_nil]
  have hearlier : earlier.find? (fun a => a.name == c :: w) = none := by
    rw [List.find?_eq_none]
    intro a ha
    rw [beq_iff_eq, ← hw]
    exact hnew a ha
  -- the value has no quotation mark, so it ends at the next one
  have hquoted : ∀ position, quoted? position ('"' :: (v ++ '"' :: rest)) = .ok (v, rest) := by
    intro position
    have hv' : ∀ d ∈ v, (d != '"') = true := fun d hd =>
      bne_iff_ne.mpr fun h => hv (h ▸ hd)
    rw [quoted?, if_pos (by decide), List.dropWhile_append_of_pos hv',
      List.takeWhile_append_of_pos hv', List.dropWhile_cons_of_neg (by decide),
      List.takeWhile_cons_of_neg (by decide), List.append_nil]
  rw [hw, attribute?]
  have hdrop : (c :: w ++ '=' :: '"' :: (v ++ '"' :: rest)).drop (c :: w).length =
      '=' :: '"' :: (v ++ '"' :: rest) := List.drop_left' rfl
  simp only [List.cons_append, List.drop_succ_cons, List.drop_zero, List.take_succ_cons,
    List.take_zero, htake, List.nil_append] at hdrop ⊢
  rw [hdrop, List.dropWhile_cons_of_neg (by decide)]
  simp only [hearlier, List.dropWhile_cons_of_neg (show ¬ isSpace '"' = true by decide), hquoted]

/-- One attribute, and then those behind it. -/
theorem attributesFrom_cons (bound position : Nat) {name : String} {v : List Char}
    (hname : IsName name) (hv : '"' ∉ v) {earlier : List RawAttribute}
    (hnew : ∀ a ∈ earlier, a.name ≠ name.toList) (after : List Char) :
    ∃ start next, attributesFrom (bound + 1) position
        (Markup.printAttribute (name, v) ++ after) earlier =
      (⟨name.toList, start, v⟩ ::
          (attributesFrom bound next after (earlier ++ [⟨name.toList, start, v⟩])).1,
        (attributesFrom bound next after (earlier ++ [⟨name.toList, start, v⟩])).2) := by
  have htext : Markup.printAttribute (name, v) ++ after =
      ' ' :: (name.toList ++ '=' :: '"' :: (v ++ '"' :: after)) := by
    simp [Markup.printAttribute]
  obtain ⟨c, w, hw, hc⟩ := hname.exists_cons
  have hblank : (' ' :: (name.toList ++ '=' :: '"' :: (v ++ '"' :: after))).dropWhile isSpace =
      name.toList ++ '=' :: '"' :: (v ++ '"' :: after) := by
    rw [List.dropWhile_cons_of_pos (by decide), hw, List.cons_append,
      List.dropWhile_cons_of_neg (by rw [isSpace_of_isNameChar hc]; decide)]
  have hne : (name.toList ++ '=' :: '"' :: (v ++ '"' :: after)).isEmpty = false := by
    rw [hw]
    rfl
  rw [htext, attributesFrom, hblank, hne, if_neg Bool.false_ne_true]
  simp only [attribute?_printed _ hname hv hnew after]
  exact ⟨_, _, rfl⟩

/-- **Attributes are read as they are written**, also with blanks behind them. -/
theorem attributesFrom_printed {attributes : List (String × List Char)}
    (h : AreWritable attributes) {trailing : List Char}
    (htrailing : ∀ c ∈ trailing, isSpace c = true) {bound : Nat} (position : Nat)
    (hbound : (attributes.flatMap Markup.printAttribute ++ trailing).length ≤ bound)
    {earlier : List RawAttribute}
    (hnew : ∀ a ∈ earlier, ∀ b ∈ attributes, a.name ≠ b.1.toList) :
    ∃ raw, attributesFrom bound position (attributes.flatMap Markup.printAttribute ++ trailing)
        earlier = (raw, none) ∧
      raw.mapM Tag.decode? = attributes.mapM Markup.value? := by
  induction attributes generalizing bound position earlier with
  | nil =>
    have hblank : trailing.dropWhile isSpace = [] := List.dropWhile_eq_nil_iff.mpr htrailing
    refine ⟨[], ?_, rfl⟩
    cases bound with
    | zero => rfl
    | succ bound =>
      rw [List.flatMap_nil, List.nil_append, attributesFrom, hblank]
      rfl
  | cons a attributes ih =>
    obtain ⟨name, v⟩ := a
    obtain ⟨hnames, hdistinct, hvalues⟩ := h
    rw [List.forall_mem_cons] at hnames hvalues
    rw [List.map_cons, List.nodup_cons] at hdistinct
    have hlength : 0 < (Markup.printAttribute (name, v)).length := Nat.succ_pos _
    rw [List.flatMap_cons, List.append_assoc] at hbound ⊢
    rw [List.length_append] at hbound
    cases bound with
    | zero => omega
    | succ bound =>
      obtain ⟨start, next, hstep⟩ := attributesFrom_cons bound position hnames.1 hvalues.1
        (fun a ha => hnew a ha _ List.mem_cons_self)
        (attributes.flatMap Markup.printAttribute ++ trailing)
      -- the name of this attribute is none of those behind it
      have hlater : ∀ a ∈ earlier ++ [⟨name.toList, start, v⟩], ∀ b ∈ attributes,
          a.name ≠ b.1.toList := by
        rw [List.forall_mem_append, List.forall_mem_singleton]
        refine ⟨fun a ha b hb => hnew a ha b (List.mem_cons_of_mem _ hb), fun b hb heq => ?_⟩
        refine hdistinct.1 ?_
        exact List.mem_map.mpr ⟨b, hb, (String.toList_inj.mp heq).symm⟩
      obtain ⟨raw, hraw, hdecode⟩ :=
        ih ⟨hnames.2, hdistinct.2, hvalues.2⟩ next (show _ ≤ bound by omega) hlater
      refine ⟨⟨name.toList, start, v⟩ :: raw, ?_, ?_⟩
      · rw [hstep, hraw]
      · rw [List.mapM_cons, List.mapM_cons, hdecode]
        rfl

/-! ### Tags -/

/-- The content of a printed tag. -/
def tagContent (name : String) (attributes : List (String × List Char)) : List Char :=
  name.toList ++ attributes.flatMap Markup.printAttribute

section

variable {name : String} {attributes : List (String × List Char)} (hname : IsName name)
  (h : AreWritable attributes)

include hname

variable (attributes) in
theorem name_printed {trailing : List Char} (htrailing : ∀ c ∈ trailing, isSpace c = true) :
    Tag.name ⟨tagContent name attributes ++ trailing⟩ = name.toList := by
  have hchars : ∀ c ∈ name.toList, (!isSpace c) = true := fun c hc => by
    rw [isSpace_of_isNameChar (hname.2 c hc)]
    rfl
  rw [Tag.name, tagContent, List.append_assoc, List.takeWhile_append_of_pos hchars]
  cases attributes with
  | nil =>
    cases trailing with
    | nil => exact List.append_nil _
    | cons c trailing =>
      have hc := htrailing c List.mem_cons_self
      rw [List.flatMap_nil, List.nil_append, List.takeWhile_cons_of_neg (by simp [hc]),
        List.append_nil]
  | cons a attributes =>
    rw [List.flatMap_cons, Markup.printAttribute]
    simp only [List.cons_append]
    rw [List.takeWhile_cons_of_neg (by decide), List.append_nil]

variable (attributes) in
theorem name_tagContent : Tag.name ⟨tagContent name attributes⟩ = name.toList := by
  simpa using name_printed attributes hname (List.forall_mem_nil _)

include h

theorem attributes?_printed {trailing : List Char} (htrailing : ∀ c ∈ trailing, isSpace c = true) :
    Tag.attributes? ⟨tagContent name attributes ++ trailing⟩ = attributes.mapM Markup.value? := by
  have hdrop : (tagContent name attributes ++ trailing).drop name.toList.length =
      attributes.flatMap Markup.printAttribute ++ trailing := by
    rw [tagContent, List.append_assoc, List.drop_left' rfl]
  have hbound : (attributes.flatMap Markup.printAttribute ++ trailing).length ≤
      (tagContent name attributes ++ trailing).length := by
    rw [← hdrop, List.length_drop]
    exact Nat.sub_le _ _
  obtain ⟨raw, hraw, hdecode⟩ := attributesFrom_printed h htrailing (Utf8.size name.toList) hbound
    (fun a ha => absurd ha List.not_mem_nil)
  rw [Tag.attributes?, name_printed attributes hname htrailing]
  simp only [hdrop, hraw, hdecode]
  cases attributes.mapM Markup.value? <;> rfl

theorem attributes?_tagContent :
    Tag.attributes? ⟨tagContent name attributes⟩ = attributes.mapM Markup.value? := by
  simpa using attributes?_printed hname h (List.forall_mem_nil _)

theorem passes_tagContent : Passes (tagContent name attributes) :=
  (passes_name hname).append (passes_attributes h)

theorem getLast?_tagContent : (tagContent name attributes).getLast? ≠ some '/' := by
  intro hlast
  rw [tagContent] at hlast
  obtain rfl | ⟨init, a, rfl⟩ := List.eq_nil_or_concat attributes
  · rw [List.flatMap_nil, List.append_nil] at hlast
    exact ne_of_isNameChar (hname.2 '/' (List.mem_of_getLast? hlast)) (by decide) rfl
  · have hprint : Markup.printAttribute a = (' ' :: a.1.toList ++ '=' :: '"' :: a.2) ++ ['"'] := by
      simp [Markup.printAttribute]
    rw [List.concat_eq_append, List.flatMap_append, List.flatMap_singleton, hprint,
      ← List.append_assoc, ← List.append_assoc, List.getLast?_concat] at hlast
    exact absurd (Option.some.inj hlast) (by decide)

/-- The tag of an element with content. -/
theorem readStart_printed (rest : List Char) :
    readStart (tagContent name attributes ++ '>' :: rest) =
      .ok (.start ⟨tagContent name attributes⟩, rest) := by
  rw [readStart, (passes_tagContent hname h).splitTag_eq]
  simp only [Text.stripSuffix?_eq_none (getLast?_tagContent hname h)]

/-- The tag of an element without content. -/
theorem readStart_printed_empty (rest : List Char) :
    readStart (tagContent name attributes ++ " />".toList ++ rest) =
      .ok (.empty ⟨tagContent name attributes ++ [' ']⟩, rest) := by
  have hpasses : Passes (tagContent name attributes ++ [' '] ++ ['/']) :=
    ((passes_tagContent hname h).append (passes_char (by decide))).append (passes_char (by decide))
  have htext : tagContent name attributes ++ " />".toList ++ rest =
      (tagContent name attributes ++ [' '] ++ ['/']) ++ '>' :: rest := by
    simp
  rw [htext, readStart, hpasses.splitTag_eq]
  simp only [Text.stripSuffix?_append]

end

/-- An end tag. -/
theorem readFinish_printed {name : String} (hname : IsName name) (opened : List (List Char))
    (rest : List Char) :
    readFinish (name.toList :: opened) ('/' :: name.toList ++ '>' :: rest) =
      .ok (.finish name.toList, rest) := by
  have hpasses : Passes ('/' :: name.toList) :=
    (passes_char (show '/' ∉ ['>', '"', '\x27'] by decide)).append (passes_name hname)
  have hlast : Text.dropRightWhile isSpace name.toList = name.toList := by
    obtain ⟨init, c, hc⟩ := List.eq_nil_or_concat name.toList |>.resolve_left hname.1
    rw [List.concat_eq_append] at hc
    have hspace := isSpace_of_isNameChar (hname.2 c (by rw [hc]; simp))
    rw [Text.dropRightWhile, hc, List.reverse_append, List.reverse_singleton,
      List.singleton_append, List.dropWhile_cons_of_neg (by rw [hspace]; decide),
      List.reverse_cons, List.reverse_reverse]
  have hend : endName ('/' :: name.toList) = name.toList := by
    rw [endName, List.drop_succ_cons, List.drop_zero, hlast]
    exact ite_self _
  rw [readFinish, hpasses.splitTag_eq]
  simp only [hend, if_true]

end Interdoc.Xml
