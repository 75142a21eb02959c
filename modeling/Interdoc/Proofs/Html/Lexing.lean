import Interdoc.Html.Piece
import Interdoc.Html.Reference
import Interdoc.Html.Token
import Interdoc.Proofs.Text.Trim

/-!
# Tokens of rendered pieces

Every tag that is rendered is read as one token, with the name and the attributes that it was
rendered with (`next_start`, `next_finish`), and every character of a text as a token of its own,
also if it is written as a reference (`next_escapeChar`).

`escape` writes four characters as references.  A reader takes such a reference for the character
again, whatever follows it (`reference?_reserved`): the name ends with a semicolon, no other name in
the table of entities is a beginning of it, and no name holds a semicolon.  So a text that was
escaped is what is left when its references are replaced (`resolve_escape`).

Names are of lower case letters and digits, since a reader takes them in lower case.  The values of
attributes may be anything without null characters, which a reader replaces.
-/

namespace Interdoc.Html

/-! ### Names of entities -/

/-- The names of the references that `escape` writes, with the characters that they stand for. -/
def reservedNames : List (List Char × Char) :=
  [("amp".toList, '&'), ("gt".toList, '>'), ("lt".toList, '<'), ("quot".toList, '"')]

/-- The entity with a reserved name. -/
def reservedEntity (r : List Char × Char) : Entity :=
  ⟨r.1, true, [r.2]⟩

deriving instance DecidableEq for Entity

/-- Whether the name of an entity is a beginning of a reserved name. -/
def Entity.beginsReserved (e : Entity) : Bool :=
  reservedNames.any fun r => Text.startsWith e.name r.1

/-- The entities in a part of the table that begin a reserved name. -/
def reservedAmong (part : String) : List Entity :=
  ((Text.words part.toList).map Entity.ofWord).filter Entity.beginsReserved

-- A part of the table can be evaluated once it is a list of characters, which `h` makes of it.

set_option maxRecDepth 20000 in
theorem reservedAmong_AD :
    [entityWordsA, entityWordsB, entityWordsC, entityWordsD].flatMap reservedAmong =
      [reservedEntity ("amp".toList, '&')] := by
  have hA : reservedAmong entityWordsA = [] := by
    have h : entityWordsA.toList = _ := String.toList_ofList
    rw [reservedAmong, h]
    decide +kernel
  have hB : reservedAmong entityWordsB = [] := by
    have h : entityWordsB.toList = _ := String.toList_ofList
    rw [reservedAmong, h]
    decide +kernel
  have hC : reservedAmong entityWordsC = [reservedEntity ("amp".toList, '&')] := by
    have h : entityWordsC.toList = _ := String.toList_ofList
    rw [reservedAmong, h]
    decide +kernel
  have hD : reservedAmong entityWordsD = [] := by
    have h : entityWordsD.toList = _ := String.toList_ofList
    rw [reservedAmong, h]
    decide +kernel
  simp only [List.flatMap_cons, List.flatMap_nil, hA, hB, hC, hD]
  rfl

set_option maxRecDepth 20000 in
theorem reservedAmong_EH :
    [entityWordsE, entityWordsF, entityWordsG, entityWordsH].flatMap reservedAmong =
      [("gt".toList, '>'), ("lt".toList, '<'), ("quot".toList, '"')].map reservedEntity := by
  have hE : reservedAmong entityWordsE = [reservedEntity ("gt".toList, '>')] := by
    have h : entityWordsE.toList = _ := String.toList_ofList
    rw [reservedAmong, h]
    decide +kernel
  have hF : reservedAmong entityWordsF = [reservedEntity ("lt".toList, '<')] := by
    have h : entityWordsF.toList = _ := String.toList_ofList
    rw [reservedAmong, h]
    decide +kernel
  have hG : reservedAmong entityWordsG = [reservedEntity ("quot".toList, '"')] := by
    have h : entityWordsG.toList = _ := String.toList_ofList
    rw [reservedAmong, h]
    decide +kernel
  have hH : reservedAmong entityWordsH = [] := by
    have h : entityWordsH.toList = _ := String.toList_ofList
    rw [reservedAmong, h]
    decide +kernel
  simp only [List.flatMap_cons, List.flatMap_nil, hE, hF, hG, hH]
  rfl

/-- **Only the reserved names themselves begin a reserved name.** -/
theorem filter_entities : entities.filter Entity.beginsReserved =
    reservedNames.map reservedEntity := by
  have hsplit : entities =
      ([entityWordsA, entityWordsB, entityWordsC, entityWordsD] ++
        [entityWordsE, entityWordsF, entityWordsG, entityWordsH]).flatMap
          fun part => (Text.words part.toList).map Entity.ofWord := rfl
  rw [hsplit, List.filter_flatMap]
  change List.flatMap reservedAmong _ = _
  rw [List.flatMap_append, reservedAmong_AD, reservedAmong_EH]
  rfl

theorem not_mem_name_of_mem_entities {e : Entity} (h : e ∈ entities) : ';' ∉ e.name := by
  obtain ⟨part, -, hpart⟩ := List.mem_flatMap.mp h
  obtain ⟨word, -, rfl⟩ := List.mem_map.mp hpart
  intro hmem
  exact absurd (List.mem_takeWhile_imp hmem) (by decide)

/-! ### References -/

/-- The reference that an entity makes at the start of a text, as in `entitiesAt`. -/
def Entity.at? (s : List Char) (e : Entity) : Option (List Char × Nat) :=
  match Text.stripPrefix? e.name s with
  | none => none
  | some after =>
    if after.head? = some ';' then some (e.characters, e.name.length + 1)
    else if e.isOld then some (e.characters, e.name.length)
    else none

/-- An entity that fits where a reserved name and a semicolon stand begins that name. -/
theorem beginsReserved_of_stripPrefix? {e : Entity} (he : e ∈ entities) {r : List Char × Char}
    (hr : r ∈ reservedNames) {rest after : List Char}
    (h : Text.stripPrefix? e.name (r.1 ++ ';' :: rest) = some after) :
    e.beginsReserved = true := by
  refine List.any_eq_true.mpr ⟨r, hr, Text.startsWith_iff.mpr ?_⟩
  rcases List.append_eq_append_iff.mp (Text.stripPrefix?_eq_some_iff.mp h) with
    ⟨more, hname, hmore⟩ | ⟨more, hname, -⟩
  · cases more with
    | nil => exact ⟨[], by rw [hname, List.append_nil, List.append_nil]⟩
    | cons c more =>
      -- the name would go on behind the semicolon
      obtain rfl : ';' = c := (List.cons.inj hmore).1
      exact absurd (by rw [hname]; simp) (not_mem_name_of_mem_entities he)
  · exact ⟨more, hname.symm⟩

theorem entitiesAt_reserved {r : List Char × Char} (hr : r ∈ reservedNames) (rest : List Char) :
    entitiesAt (r.1 ++ ';' :: rest) = [([r.2], r.1.length + 1)] := by
  have hfilter : entities.filterMap (Entity.at? (r.1 ++ ';' :: rest)) =
      (entities.filter Entity.beginsReserved).filterMap (Entity.at? (r.1 ++ ';' :: rest)) := by
    rw [List.filterMap_filter]
    refine List.filterMap_congr fun e he => ?_
    split
    · rfl
    · next hbegins =>
      cases hprefix : Text.stripPrefix? e.name (r.1 ++ ';' :: rest) with
      | none => rw [Entity.at?, hprefix]
      | some after => exact absurd (beginsReserved_of_stripPrefix? he hr hprefix) hbegins
  have hat : entitiesAt (r.1 ++ ';' :: rest) =
      entities.filterMap (Entity.at? (r.1 ++ ';' :: rest)) := rfl
  rw [hat, hfilter, filter_entities]
  simp only [reservedNames, List.mem_cons, List.not_mem_nil, or_false] at hr
  rcases hr with rfl | rfl | rfl | rfl <;> rfl

/-- **A reference that `escape` writes is read as what it stands for.** -/
theorem reference?_reserved (inAttribute : Bool) {r : List Char × Char} (hr : r ∈ reservedNames)
    (rest : List Char) :
    reference? inAttribute (r.1 ++ ';' :: rest) = some ([r.2], r.1.length + 1) := by
  have hname : nameReference? (r.1 ++ ';' :: rest) = some ([r.2], r.1.length + 1) := by
    rw [nameReference?, entitiesAt_reserved hr]
    rfl
  have hletter : ∀ s, r.1 ++ ';' :: rest ≠ '#' :: s := by
    simp only [reservedNames, List.mem_cons, List.not_mem_nil, or_false] at hr
    rcases hr with rfl | rfl | rfl | rfl <;> simp
  unfold reference?
  split
  · next s hs => exact absurd hs (hletter s)
  · simp [hname]

/-- A character is escaped as a reference to it, or not at all. -/
theorem escapeChar_cases (c : Char) : (∃ name, (name, c) ∈ reservedNames ∧
    escapeChar c = '&' :: name ++ [';']) ∨ (c ≠ '&' ∧ c ≠ '<' ∧ escapeChar c = [c]) := by
  unfold escapeChar
  split
  · exact .inl ⟨"amp".toList, by decide, rfl⟩
  · exact .inl ⟨"lt".toList, by decide, rfl⟩
  · exact .inl ⟨"gt".toList, by decide, rfl⟩
  · exact .inl ⟨"quot".toList, by decide, rfl⟩
  · next hamp hlt _ _ => exact .inr ⟨hamp, hlt, rfl⟩

/-- What is escaped has the characters of the text that are not replaced, and those of references. -/
theorem mem_escape_cases {c : Char} {s : List Char} (h : c ∈ escape s) :
    (c ∈ s ∧ escapeChar c = [c]) ∨ ∃ r ∈ reservedNames, c ∈ '&' :: r.1 ++ [';'] := by
  obtain ⟨d, hd, hchar⟩ := List.mem_flatMap.mp h
  rcases escapeChar_cases d with ⟨name, hname, heq⟩ | ⟨-, -, heq⟩
  · rw [heq] at hchar
    exact .inr ⟨_, hname, hchar⟩
  · rw [heq, List.mem_singleton] at hchar
    subst hchar
    exact .inl ⟨hd, heq⟩

theorem null_not_mem_escape {s : List Char} (h : '\x00' ∉ s) : '\x00' ∉ escape s := by
  intro hmem
  rcases mem_escape_cases hmem with ⟨hs, -⟩ | hreference
  · exact h hs
  · exact absurd hreference (by decide)

theorem quote_not_mem_escape {s : List Char} : '"' ∉ escape s := by
  intro hmem
  rcases mem_escape_cases hmem with ⟨-, heq⟩ | hreference
  · exact absurd heq (by decide)
  · exact absurd hreference (by decide)

theorem resolveAux_skip (inAttribute : Bool) (skipped s : List Char) :
    resolveAux inAttribute skipped.length (skipped ++ s) = resolveAux inAttribute 0 s := by
  induction skipped with
  | nil => rfl
  | cons c skipped ih => exact ih

/-- **An escaped text is what is left when its references are replaced.** -/
theorem resolve_escape (inAttribute : Bool) (s : List Char) :
    resolve inAttribute (escape s) = s := by
  rw [resolve]
  induction s with
  | nil => rfl
  | cons c s ih =>
    rw [escape, List.flatMap_cons]
    rcases escapeChar_cases c with ⟨name, hname, hchar⟩ | ⟨hamp, -, hchar⟩
    · have href : reference? inAttribute (name ++ [';'] ++ escape s) =
          some ([c], (name ++ [';']).length) := by
        rw [List.append_assoc, List.length_append]
        exact reference?_reserved inAttribute hname (escape s)
      rw [hchar, List.cons_append, List.cons_append, resolveAux, if_pos rfl, ← escape, href]
      simp only
      rw [resolveAux_skip, ih]
      rfl
    · rw [hchar, List.singleton_append, resolveAux, if_neg hamp, ← escape, ih]

/-! ### Names -/

/-- Whether a character may stand in a plain name: a lower case letter or a digit. -/
def isNameChar (c : Char) : Bool :=
  c.isLower || c.isDigit

/-- Whether a text is the plain name of an element or attribute. -/
def isPlainName (name : List Char) : Bool :=
  name.head?.any Char.isLower && name.all isNameChar

variable {c : Char} {name rest : List Char}

theorem ne_of_isNameChar {d : Char} (h : isNameChar c = true) (hd : isNameChar d = false) :
    c ≠ d := by
  rintro rfl
  rw [h] at hd
  cases hd

theorem toLower_of_isNameChar (h : isNameChar c = true) : c.toLower = c := by
  rw [isNameChar, Bool.or_eq_true] at h
  delta Char.isLower Char.isDigit at h
  simp only [Bool.and_eq_true, decide_eq_true_eq, UInt32.le_iff_toNat_le] at h
  delta Char.toLower
  rw [dif_neg]
  rintro ⟨hmin, hmax⟩
  rw [ge_iff_le, UInt32.le_iff_toNat_le] at hmin
  rw [UInt32.le_iff_toNat_le] at hmax
  have hmax' : c.val.toNat ≤ 90 := hmax
  have hmin' : 65 ≤ c.val.toNat := hmin
  rcases h with ⟨h, -⟩ | ⟨-, h⟩
  · have h' : 97 ≤ c.val.toNat := h
    omega
  · have h' : c.val.toNat ≤ 57 := h
    omega

theorem isAsciiBlank_of_isNameChar (h : isNameChar c = true) : Text.isAsciiBlank c = false := by
  have hblank : c ≠ ' ' ∧ c ≠ '\t' ∧ c ≠ '\n' ∧ c ≠ '\x0c' ∧ c ≠ '\r' :=
    ⟨ne_of_isNameChar h rfl, ne_of_isNameChar h rfl, ne_of_isNameChar h rfl,
      ne_of_isNameChar h rfl, ne_of_isNameChar h rfl⟩
  simp [Text.isAsciiBlank, hblank]

theorem endsTagName_of_isNameChar (h : isNameChar c = true) : endsTagName c = false := by
  have hslash : c ≠ '/' := ne_of_isNameChar h rfl
  have hend : c ≠ '>' := ne_of_isNameChar h rfl
  simp [endsTagName, isAsciiBlank_of_isNameChar h, hslash, hend]

theorem isPlainName_spec (h : isPlainName name = true) :
    ∃ c s, name = c :: s ∧ c.isLower = true ∧ ∀ c ∈ name, isNameChar c = true := by
  rw [isPlainName, Bool.and_eq_true, List.all_eq_true] at h
  cases name with
  | nil => cases h.1
  | cons c s => exact ⟨c, s, rfl, h.1, h.2⟩

theorem replaceNulls_eq_self {s : List Char} (h : '\x00' ∉ s) : replaceNulls s = s := by
  rw [replaceNulls]
  refine List.map_congr_left (g := id) (fun c hc => if_neg ?_) |>.trans (List.map_id s)
  rintro rfl
  exact h hc

theorem nameOf_of_isNameChar (h : ∀ c ∈ name, isNameChar c = true) :
    nameOf name = String.ofList name := by
  have hnull : '\x00' ∉ name := fun hmem => absurd (h _ hmem) (by decide)
  rw [nameOf, replaceNulls_eq_self hnull, Text.toLower]
  exact congrArg _ (List.map_congr_left (g := id) (fun c hc => toLower_of_isNameChar (h c hc))
    |>.trans (List.map_id name))

/-! ### Attributes -/

/-- A text up to the first character outside of a class, and what is left. -/
theorem span_append_cons {p : Char → Bool} {s : List Char} (h : ∀ c ∈ s, p c = true)
    (hc : p c = false) (rest : List Char) :
    (s ++ c :: rest).takeWhile p = s ∧ (s ++ c :: rest).dropWhile p = c :: rest := by
  have hneg : ¬ p c = true := by
    rw [hc]
    exact Bool.false_ne_true
  constructor
  · rw [List.takeWhile_append_of_pos h, List.takeWhile_cons_of_neg hneg, List.append_nil]
  · rw [List.dropWhile_append_of_pos h, List.dropWhile_cons_of_neg hneg]

theorem attributeValue?_render {value : String} (h : '\x00' ∉ value.toList) (rest : List Char) :
    attributeValue? ('"' :: escape value.toList ++ '"' :: rest) = some (value, rest) := by
  have hquoted : ∀ c ∈ escape value.toList, (c != '"') = true := by
    intro c hc
    rw [bne_iff_ne]
    rintro rfl
    exact quote_not_mem_escape hc
  obtain ⟨htake, hdrop⟩ := span_append_cons hquoted (bne_self_eq_false '"') rest
  have hblank : ('"' :: escape value.toList ++ '"' :: rest).dropWhile Text.isAsciiBlank =
      '"' :: escape value.toList ++ '"' :: rest := rfl
  rw [attributeValue?, hblank]
  simp only [List.cons_append, decide_true, Bool.true_or, if_true, hdrop, htake,
    replaceNulls_eq_self (null_not_mem_escape h), resolve_escape, String.ofList_toList]

/-- **An attribute is read with the name and the value that it was rendered with.** -/
theorem attribute?_render {a : String × String} (hname : isPlainName a.1.toList = true)
    (hvalue : '\x00' ∉ a.2.toList) (rest : List Char) :
    attribute? (a.1.toList ++ '=' :: '"' :: escape a.2.toList ++ '"' :: rest) =
      some (a, rest) := by
  obtain ⟨c, s, hs, -, hchars⟩ := isPlainName_spec hname
  have hinside : ∀ d ∈ s, (!endsTagName d && d != '=') = true := by
    intro d hd
    have hd := hchars d (hs ▸ List.mem_cons_of_mem c hd)
    simp [endsTagName_of_isNameChar hd, ne_of_isNameChar hd (d := '=') rfl]
  obtain ⟨htake, hdrop⟩ := span_append_cons hinside (c := '=') rfl
    ('"' :: escape a.2.toList ++ '"' :: rest)
  have hblank : ('=' :: ('"' :: escape a.2.toList ++ '"' :: rest)).dropWhile Text.isAsciiBlank =
      '=' :: ('"' :: escape a.2.toList ++ '"' :: rest) := rfl
  have happend : a.1.toList ++ '=' :: '"' :: escape a.2.toList ++ '"' :: rest =
      c :: (s ++ '=' :: ('"' :: escape a.2.toList ++ '"' :: rest)) := by
    rw [hs]
    simp
  rw [happend, attribute?]
  simp only [htake, hdrop, hblank, attributeValue?_render hvalue]
  rw [← hs, nameOf_of_isNameChar hchars, String.ofList_toList]

/-- An attribute is read and added to those before it, and what follows it is read on. -/
theorem attributes?_renderAttribute {a : String × String} (hname : isPlainName a.1.toList = true)
    (hvalue : '\x00' ∉ a.2.toList) (fuel : Nat) (before : List (String × String))
    (rest : List Char) :
    attributes? (fuel + 1) before (renderAttribute a ++ rest) =
      attributes? fuel (addAttribute before a) rest := by
  obtain ⟨c, s, hs, -, hchars⟩ := isPlainName_spec hname
  have hc : isNameChar c = true := hchars c (hs ▸ List.mem_cons_self)
  have hread := attribute?_render hname hvalue rest
  have hsplit : renderAttribute a ++ rest =
      ' ' :: (a.1.toList ++ '=' :: '"' :: escape a.2.toList ++ '"' :: rest) := by
    simp [renderAttribute]
  have hblank : (renderAttribute a ++ rest).dropWhile Text.isAsciiBlank =
      a.1.toList ++ '=' :: '"' :: escape a.2.toList ++ '"' :: rest := by
    rw [hsplit, List.dropWhile_cons_of_pos rfl, hs, List.cons_append, List.cons_append,
      List.dropWhile_cons_of_neg (by simp [isAsciiBlank_of_isNameChar hc])]
  -- the name starts with none of the characters that end the attributes
  have hstart {d : Char} {t : List Char}
      (heq : a.1.toList ++ '=' :: '"' :: escape a.2.toList ++ '"' :: rest = d :: t)
      (hd : isNameChar d = false) : False := by
    rw [hs, List.cons_append, List.cons_append, List.cons.injEq] at heq
    exact ne_of_isNameChar hc hd heq.1
  rw [attributes?, hblank]
  split
  · next hnil => simp at hnil
  · next hgt => exact (hstart hgt rfl).elim
  · next hslash => exact (hstart hslash rfl).elim
  · next hslash => exact (hstart hslash rfl).elim
  · rw [hread]

/-- Attributes that a reader takes as they are: their names are plain and all different, and there
are no null characters in their values. -/
structure ArePlain (attributes : List (String × String)) : Prop where
  names : ∀ a ∈ attributes, isPlainName a.1.toList = true
  nodup : (attributes.map Prod.fst).Nodup
  values : ∀ a ∈ attributes, '\x00' ∉ a.2.toList

theorem ArePlain.addAttribute {before attributes : List (String × String)} {a : String × String}
    (h : ArePlain (before ++ a :: attributes)) : addAttribute before a = before ++ [a] := by
  have hnodup := h.nodup
  rw [List.map_append, List.map_cons, List.nodup_append] at hnodup
  have hnew : before.any (fun b => b.1 == a.1) = false := by
    rw [List.any_eq_false]
    intro b hb heq
    exact hnodup.2.2 b.1 (List.mem_map_of_mem hb) a.1 List.mem_cons_self (by simpa using heq)
  rw [Html.addAttribute, hnew, if_neg Bool.false_ne_true]

theorem attributes?_render {before attributes : List (String × String)}
    (h : ArePlain (before ++ attributes)) {fuel : Nat} (hfuel : attributes.length < fuel)
    (rest : List Char) :
    attributes? fuel before (attributes.flatMap renderAttribute ++ '>' :: rest) =
      some (before ++ attributes, false, rest) := by
  obtain ⟨fuel, rfl⟩ : ∃ n, fuel = n + 1 := ⟨fuel - 1, by omega⟩
  induction attributes generalizing before fuel with
  | nil =>
    rw [List.flatMap_nil, List.nil_append, List.append_nil]
    rfl
  | cons a attributes ih =>
    have ha : a ∈ before ++ a :: attributes := by simp
    rw [List.length_cons] at hfuel
    obtain ⟨fuel, rfl⟩ : ∃ n, fuel = n + 1 := ⟨fuel - 1, by omega⟩
    have happend : before ++ a :: attributes = before ++ [a] ++ attributes := by simp
    rw [List.flatMap_cons, List.append_assoc,
      attributes?_renderAttribute (h.names a ha) (h.values a ha), h.addAttribute,
      ih (happend ▸ h) fuel (by omega), happend]

/-! ### Tags -/

theorem length_le_renderAttributes (attributes : List (String × String)) :
    attributes.length ≤ (attributes.flatMap renderAttribute).length := by
  induction attributes with
  | nil => exact Nat.le_refl 0
  | cons a attributes ih =>
    rw [List.flatMap_cons, List.length_append, renderAttribute]
    simp only [List.length_cons, List.length_append]
    omega

/-- Attributes and the end of a tag start with a character that ends the name of the tag. -/
theorem exists_cons_endsTagName (attributes : List (String × String)) (rest : List Char) :
    ∃ c s, attributes.flatMap renderAttribute ++ '>' :: rest = c :: s ∧ endsTagName c = true := by
  cases attributes with
  | nil => exact ⟨'>', rest, rfl, rfl⟩
  | cons a attributes => exact ⟨' ', _, rfl, rfl⟩

/-- **A tag is read with its name and its attributes.** -/
theorem tag?_render {tag : String} (htag : isPlainName tag.toList = true)
    {attributes : List (String × String)} (h : ArePlain attributes) (rest : List Char) :
    tag? (tag.toList ++ (attributes.flatMap renderAttribute ++ '>' :: rest)) =
      some (⟨tag, attributes, false⟩, rest) := by
  obtain ⟨-, -, -, -, hchars⟩ := isPlainName_spec htag
  obtain ⟨c, s, hcons, hc⟩ := exists_cons_endsTagName attributes rest
  have hinside : ∀ c ∈ tag.toList, (!endsTagName c) = true := fun c hc => by
    rw [endsTagName_of_isNameChar (hchars c hc), Bool.not_false]
  obtain ⟨htake, hdrop⟩ := span_append_cons (p := fun c => !endsTagName c) hinside
    (c := c) (by rw [hc, Bool.not_true]) s
  have hfuel : attributes.length < (c :: s).length + 1 := by
    have hlength := length_le_renderAttributes attributes
    rw [← hcons, List.length_append]
    omega
  have hread := attributes?_render (show ArePlain ([] ++ attributes) from h) hfuel rest
  rw [hcons] at hread ⊢
  rw [tag?]
  simp only [htake, hdrop, hread, nameOf_of_isNameChar hchars, String.ofList_toList,
    List.nil_append]

variable {tag : String} {attributes : List (String × String)}

/-- A letter after a less-than sign starts the name of a start tag. -/
theorem afterLess_letter (hc : c.isAlpha = true) (allowsCdata : Bool) (s : List Char) :
    afterLess allowsCdata (c :: s) =
      match tag? (c :: s) with
      | none => ([], [])
      | some (tag, rest) => ([.start tag], rest) := by
  have hne {d : Char} (hd : d.isAlpha = false) : c ≠ d := by
    rintro rfl
    rw [hc] at hd
    cases hd
  unfold afterLess
  split
  · next heq => exact absurd (List.cons.inj heq).1 (hne rfl)
  · next heq => exact absurd (List.cons.inj heq).1 (hne rfl)
  · next heq => exact absurd (List.cons.inj heq).1 (hne rfl)
  · next heq => exact absurd (List.cons.inj heq).1 (hne rfl)
  · next heq => exact absurd (List.cons.inj heq).1 (hne rfl)
  · next heq =>
    obtain ⟨rfl, rfl⟩ := List.cons.inj heq
    exact if_pos hc
  · next heq => cases heq

/-- A letter after a slash starts the name of an end tag. -/
theorem afterLess_slash (hc : c.isAlpha = true) (allowsCdata : Bool) (s : List Char) :
    afterLess allowsCdata ('/' :: c :: s) =
      match tag? (c :: s) with
      | none => ([], [])
      | some (tag, rest) => ([.finish tag.name], rest) := by
  have hgt : c ≠ '>' := by
    rintro rfl
    cases hc
  -- of the rules for what follows the sign, only that for an end tag fits
  unfold afterLess
  split
  · next heq => exact absurd (List.cons.inj heq).1 (by decide)
  · next heq => exact absurd (List.cons.inj heq).1 (by decide)
  · next heq => cases heq
  · next heq => exact absurd (List.cons.inj (List.cons.inj heq).2).1 hgt
  · next heq =>
    obtain ⟨rfl, rfl⟩ := List.cons.inj (List.cons.inj heq).2
    exact if_pos hc
  · next hslash heq =>
    obtain ⟨rfl, rfl⟩ := List.cons.inj heq
    exact (hslash c s rfl rfl).elim
  · next heq => cases heq

theorem isAlpha_of_isLower (h : c.isLower = true) : c.isAlpha = true := by
  delta Char.isAlpha
  rw [h, Bool.or_true]

/-- **A start tag is one token.** -/
theorem next_start (htag : isPlainName tag.toList = true) (h : ArePlain attributes)
    (allowsCdata : Bool) (rest : List Char) :
    Token.next allowsCdata (renderStart tag attributes ++ rest) =
      ([.start ⟨tag, attributes, false⟩], rest) := by
  obtain ⟨c, s, hs, hlower, -⟩ := isPlainName_spec htag
  have hread := tag?_render htag h rest
  have hsplit : renderStart tag attributes ++ rest =
      '<' :: (tag.toList ++ (attributes.flatMap renderAttribute ++ '>' :: rest)) := by
    simp [renderStart]
  rw [hs, List.cons_append] at hread
  rw [hsplit, hs, List.cons_append, Token.next, afterLess_letter (isAlpha_of_isLower hlower), hread]

/-- **An end tag is one token.** -/
theorem next_finish (htag : isPlainName tag.toList = true) (allowsCdata : Bool)
    (rest : List Char) :
    Token.next allowsCdata ((Piece.finish tag).render ++ rest) = ([.finish tag], rest) := by
  obtain ⟨c, s, hs, hlower, -⟩ := isPlainName_spec htag
  have hplain : ArePlain [] := ⟨List.forall_mem_nil _, List.nodup_nil, List.forall_mem_nil _⟩
  have hread := tag?_render htag hplain rest
  have hsplit : (Piece.finish tag).render ++ rest = '<' :: '/' :: (tag.toList ++ '>' :: rest) := by
    simp [Piece.render]
  rw [List.flatMap_nil, List.nil_append, hs, List.cons_append] at hread
  rw [hsplit, hs, List.cons_append, Token.next, afterLess_slash (isAlpha_of_isLower hlower), hread]

/-! ### Characters -/

/-- **A character of a text is one token**, also if it is written as a reference. -/
theorem next_escapeChar (allowsCdata : Bool) (c : Char) (rest : List Char) :
    Token.next allowsCdata (escapeChar c ++ rest) = ([.char c], rest) := by
  rcases escapeChar_cases c with ⟨name, hname, heq⟩ | ⟨hamp, hlt, heq⟩
  · have hsplit : escapeChar c ++ rest = '&' :: (name ++ ';' :: rest) := by
      rw [heq]
      simp
    have hread := reference?_reserved false hname rest
    rw [hsplit, Token.next]
    simp only [hread]
    have hdrop : (name ++ ';' :: rest).drop (name.length + 1) = rest := by
      rw [← List.drop_drop, List.drop_left, List.drop_one, List.tail_cons]
    rw [hdrop]
    rfl
  · rw [heq, List.singleton_append, Token.next]
    · exact fun h => hlt h
    · exact fun h => hamp h

end Interdoc.Html
