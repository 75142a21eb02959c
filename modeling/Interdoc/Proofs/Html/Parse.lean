import Interdoc.Proofs.Html.Lexing
import Interdoc.Proofs.Html.TableSteps

/-!
# Rendered pieces are parsed as what they denote

Pieces that stand where they may (`Fits`) are read one by one, and each takes the reader on as it
takes the state of reading on.  `Leads` says this of a sequence of pieces between open elements, and
`bodyOf_parse_render` of a whole text: its body is what the pieces denote.

Only a table is not read piece by piece: the row group that its rows stand in is open in the reader
before the pieces know of it (`Leads.table`).
-/

namespace Interdoc.Html

open Builder

variable {b b' : Builder} {n m k : Nesting} {s t rest : List Char} {token : Token}

/-! ### Reading on -/

namespace Builder

/-- A reader takes the start of a text and becomes another one, which goes on with the rest. -/
def Continues (b : Builder) (s : List Char) (b' : Builder) (rest : List Char) : Prop :=
  ∃ steps, steps + rest.length ≤ s.length ∧
    ∀ fuel, readWithin (fuel + steps + 1) b s = readWithin (fuel + 1) b' rest

theorem Continues.trans {between : Builder} {u : List Char} (h : b.Continues s between u)
    (h' : between.Continues u b' rest) : b.Continues s b' rest := by
  obtain ⟨i, hi, hread⟩ := h
  obtain ⟨j, hj, hread'⟩ := h'
  refine ⟨i + j, by omega, fun fuel => ?_⟩
  rw [Nat.add_comm i j, ← Nat.add_assoc, hread, hread']

/-- A reader before a token other than a line feed that it drops. -/
def ready (b : Builder) : Builder :=
  { b with skipsLineFeed := false }

theorem ready_of_skips (h : b.skipsLineFeed = false) : b.ready = b := by
  rw [ready, ← h]

theorem Represents.ready (h : b.Represents n) : b.ready.Represents n :=
  ⟨⟨h.draft, h.stack, h.templates, h.templateModes, h.fosters⟩, h.formatting, h.mode, nofun⟩

theorem receive_of_takes (h : b.ready.Takes token b')
    (hfeed : token = .char '\n' → b.skipsLineFeed = false) : b.receive token = (b', .done) := by
  rw [receive.eq_def]
  dsimp only
  split
  · next hskips =>
    rw [hfeed rfl] at hskips
    cases hskips
  · exact h (4 * b.stack.length + 30)

theorem readWithin_of_next (hs : s ≠ []) (hnext : Token.next b.isInForeign s = ([token], rest))
    (hreceive : b.receive token = (b', .done)) (fuel : Nat) :
    readWithin (fuel + 1) b s = readWithin fuel b' rest := by
  obtain ⟨c, s, rfl⟩ := List.exists_cons_of_ne_nil hs
  rw [readWithin.eq_def]
  simp only [hnext, receiveAll, hreceive]

/-- Readers that make the same of the first token go on in the same way. -/
theorem Continues.of_receive_eq {other : Builder} (h : other.Continues s b' rest) (hs : s ≠ [])
    (hnext : ∀ allowsCdata, Token.next allowsCdata s = ([token], t)) {between : Builder}
    (hreceive : b.receive token = (between, .done))
    (hother : other.receive token = (between, .done)) : b.Continues s b' rest := by
  obtain ⟨steps, hsteps, hread⟩ := h
  refine ⟨steps, hsteps, fun fuel => ?_⟩
  rw [← hread, readWithin_of_next hs (hnext _) hreceive, readWithin_of_next hs (hnext _) hother]

end Builder

/-- Every reader that is as a state of reading says is as another one says after a text. -/
def Parses (s : List Char) (n m : Nesting) : Prop :=
  ∀ (b : Builder) (rest : List Char), b.Represents n →
    ∃ b' : Builder, b'.Represents m ∧ b.Continues (s ++ rest) b' rest

theorem Parses.nil (n : Nesting) : Parses [] n n :=
  fun b _ h => ⟨b, h, 0, by simp, fun _ => rfl⟩

theorem Parses.append (h : Parses s n k) (h' : Parses t k m) : Parses (s ++ t) n m := by
  intro b rest hb
  obtain ⟨between, hbetween, hs⟩ := h b (t ++ rest) hb
  obtain ⟨b', hb', ht⟩ := h' between rest hbetween
  rw [List.append_assoc]
  exact ⟨b', hb', hs.trans ht⟩

theorem Parses.of_token (hs : s ≠ [])
    (hnext : ∀ allowsCdata rest, Token.next allowsCdata (s ++ rest) = ([token], rest))
    (hadvances : ∀ b : Builder, b.Represents n → b.skipsLineFeed = false → b.Advances token m)
    (hfeed : token = .char '\n' → n.tags.head? ≠ some "pre") : Parses s n m := by
  intro b rest hb
  obtain ⟨b', htakes, hb'⟩ := hadvances b.ready hb.ready rfl
  have hreceive : b.receive token = (b', .done) := by
    refine receive_of_takes htakes fun htoken => ?_
    by_contra hskips
    exact hfeed htoken (hb.skips (by simpa using hskips))
  have hlength : 0 < s.length := List.length_pos_of_ne_nil hs
  refine ⟨b', hb', 1, by rw [List.length_append]; omega, fun fuel => ?_⟩
  exact readWithin_of_next (List.append_ne_nil_of_left_ne_nil hs rest) (hnext _ rest) hreceive _

/-- A text is read character by character. -/
theorem parses_text {s : List Char} (htext : AllowsText n.tags) (htags : n.tags ≠ [])
    (hpre : n.tags.head? ≠ some "pre") (hnull : '\x00' ∉ s) :
    Parses (escape s) n { n with reversed := pushText (String.ofList s) n.reversed } := by
  induction s generalizing n with
  | nil =>
    rw [String.ofList_nil, pushText_empty]
    exact .nil n
  | cons c s ih =>
    rw [List.mem_cons, not_or] at hnull
    have hopened : n.opened ≠ [] := fun heq => htags (by rw [Nesting.tags, heq, List.map_nil])
    -- one character is one token, whether it is written as itself or by a name
    have hchar : Parses (escapeChar c) n
        { n with reversed := pushText (String.singleton c) n.reversed } := by
      refine .of_token ?_ (fun allowsCdata rest => next_escapeChar allowsCdata c rest)
        (fun b hb _ => hb.takes_char htext hopened (Ne.symm hnull.1)) (fun _ => hpre)
      rcases escapeChar_cases c with ⟨name, -, heq⟩ | ⟨-, -, heq⟩
      all_goals rw [heq]; exact List.cons_ne_nil _ _
    have hall := hchar.append (ih (n := { n with
      reversed := pushText (String.singleton c) n.reversed }) htext htags hpre hnull.2)
    rw [pushText_pushText] at hall
    have hjoin : String.singleton c ++ String.ofList s = String.ofList (c :: s) := by
      apply String.toList_inj.mp
      simp
    rwa [hjoin] at hall

/-! ### Pieces in their places -/

/-- The names of attributes are plain, and no two are the same. -/
def HavePlainNames (attributes : List (String × String)) : Prop :=
  (∀ a ∈ attributes, isPlainName a.1.toList = true) ∧ (attributes.map Prod.fst).Nodup

/-- A piece may stand in elements of the given names, the innermost first. -/
inductive Fits : List String → Piece → Prop
  | block {tags : List String} {tag : String} {attributes : List (String × String)}
    (htext : AllowsText tags) (hp : "p" ∉ tags)
    (htag : tag ∈ ["p", "blockquote", "ul", "ol", "pre", "table"])
    (h : HavePlainNames attributes) : Fits tags (.start tag attributes)
  | heading {top tag : String} {outer : List String} {attributes : List (String × String)}
    (htext : AllowsText (top :: outer)) (hp : "p" ∉ top :: outer) (htop : top ∉ headingTags)
    (htag : tag ∈ headingTags) (h : HavePlainNames attributes) :
    Fits (top :: outer) (.start tag attributes)
  | item {top : String} {outer : List String} {attributes : List (String × String)}
    (htext : AllowsText (top :: outer)) (hp : "p" ∉ top :: outer) (htop : top = "ul" ∨ top = "ol")
    (h : HavePlainNames attributes) : Fits (top :: outer) (.start "li" attributes)
  | formatting {tags : List String} {tag : String} {attributes : List (String × String)}
    (htext : AllowsText tags) (hnew : tag ∉ tags) (htag : tag ∈ phraseTags)
    (h : HavePlainNames attributes) : Fits tags (.start tag attributes)
  /-- A row in a row group that the text may leave out. -/
  | row {outer : List String} {attributes : List (String × String)}
    (h : HavePlainNames attributes) : Fits ("tbody" :: outer) (.start "tr" attributes)
  | cell {outer : List String} {tag : String} {attributes : List (String × String)}
    (htag : tag ∈ cellTags) (h : HavePlainNames attributes) :
    Fits ("tr" :: outer) (.start tag attributes)
  | rule {tags : List String} {attributes : List (String × String)}
    (htext : AllowsText tags) (hp : "p" ∉ tags) (h : HavePlainNames attributes) :
    Fits tags (.void "hr" attributes)
  | void {tags : List String} {tag : String} {attributes : List (String × String)}
    (htext : AllowsText tags) (htag : tag = "br" ∨ tag = "img") (h : HavePlainNames attributes) :
    Fits tags (.void tag attributes)
  | text {top : String} {outer : List String} (s : String) (htext : AllowsText (top :: outer))
    (htop : top ≠ "pre" ∧ top ≠ "body") : Fits (top :: outer) (.text s)
  | blockEnd {outer : List String} {tag : String} (htext : AllowsText (tag :: outer))
    (htag : tag ∈ flowTags) : Fits (tag :: outer) (.finish tag)
  | formattingEnd {outer : List String} {tag : String} (htext : AllowsText (tag :: outer))
    (htag : tag ∈ phraseTags) : Fits (tag :: outer) (.finish tag)
  | rowEnd {outer : List String} (houter : modeOf outer = .inTableBody) :
    Fits ("tr" :: outer) (.finish "tr")
  | cellEnd {outer : List String} {tag : String} (houter : modeOf outer = .inRow)
    (htag : tag ∈ cellTags) : Fits (tag :: outer) (.finish tag)

/-- The token of a tag. -/
def Piece.token? : Piece → Option Token
  | .start tag attributes | .void tag attributes => some (.start ⟨tag, attributes, false⟩)
  | .finish tag => some (.finish tag)
  | .text _ => none

/-- The name and the attributes of a tag are plain. -/
theorem Fits.plain {tags : List String} {piece : Piece} (h : Fits tags piece) :
    match piece with
    | .start tag attributes | .void tag attributes =>
      isPlainName tag.toList = true ∧ HavePlainNames attributes
    | .finish tag => isPlainName tag.toList = true
    | .text _ => True := by
  have hopening : ∀ tag ∈ ["p", "blockquote", "ul", "ol", "pre", "table"],
      isPlainName tag.toList = true := by
    decide
  have hblock : ∀ tag ∈ flowTags, isPlainName tag.toList = true := by decide
  have hheading : ∀ tag ∈ headingTags, isPlainName tag.toList = true := by decide
  have hphrase : ∀ tag ∈ phraseTags, isPlainName tag.toList = true := by decide
  have hcell : ∀ tag ∈ cellTags, isPlainName tag.toList = true := by decide
  cases h with
  | block _ _ htag h => exact ⟨hopening _ htag, h⟩
  | heading _ _ _ htag h => exact ⟨hheading _ htag, h⟩
  | item _ _ _ h => exact ⟨by decide, h⟩
  | formatting _ _ htag h => exact ⟨hphrase _ htag, h⟩
  | row h => exact ⟨by decide, h⟩
  | cell htag h => exact ⟨hcell _ htag, h⟩
  | rule _ _ h => exact ⟨by decide, h⟩
  | void _ htag h =>
    refine ⟨?_, h⟩
    rcases htag with rfl | rfl <;> decide
  | text => trivial
  | blockEnd _ htag => exact hblock _ htag
  | formattingEnd _ htag => exact hphrase _ htag
  | rowEnd => exact (by decide : isPlainName "tr".toList = true)
  | cellEnd _ htag => exact hcell _ htag

/-- **The tag of a piece is one token**, if nothing in it is a null character. -/
theorem Fits.next {tags : List String} {piece : Piece} (h : Fits tags piece)
    (hnull : '\x00' ∉ piece.render) (htoken : piece.token? = some token) (allowsCdata : Bool)
    (rest : List Char) : Token.next allowsCdata (piece.render ++ rest) = ([token], rest) := by
  have hplain := h.plain
  -- a null character in a value would stand in the tag
  have hattributes {tag : String} {attributes : List (String × String)}
      (hnames : HavePlainNames attributes) (hnull : '\x00' ∉ renderStart tag attributes) :
      ArePlain attributes := by
    refine ⟨hnames.1, hnames.2, fun a ha hmem => hnull ?_⟩
    have hvalue : '\x00' ∈ escape a.2.toList :=
      List.mem_flatMap.mpr ⟨'\x00', hmem, List.mem_singleton_self _⟩
    have hrendered : '\x00' ∈ attributes.flatMap renderAttribute :=
      List.mem_flatMap.mpr ⟨a, ha, by simp [renderAttribute, hvalue]⟩
    simp [renderStart, hrendered]
  cases piece with
  | start tag attributes | void tag attributes =>
    obtain rfl := Option.some.inj htoken
    exact next_start hplain.1 (hattributes hplain.2 hnull) allowsCdata rest
  | finish tag =>
    obtain rfl := Option.some.inj htoken
    exact next_finish hplain allowsCdata rest
  | text s => cases htoken

/-- **A tag in its place takes a reader on as it takes the state of reading on**, but the tags that
end tables do. -/
theorem Fits.advances {piece : Piece} (h : Fits n.tags piece) (htoken : piece.token? = some token)
    (hb : b.Represents n) (hskips : b.skipsLineFeed = false) : b.Advances token (n.step piece) := by
  obtain ⟨opened, reversed⟩ := n
  generalize htags : Nesting.tags ⟨opened, reversed⟩ = tags at h
  -- one lemma for each place that a tag has, with what is open in that place
  cases h with
  | @block _ tag _ htext hp htag _ =>
    obtain rfl := Option.some.inj htoken
    subst htags
    have hsplit : tag ∈ ["p", "blockquote", "ul", "ol"] ∨ tag = "pre" ∨ tag = "table" := by
      simpa [or_assoc] using htag
    rcases hsplit with hblock | rfl | rfl
    · exact hb.takes_block hskips htext hp hblock
    · exact hb.takes_pre hskips htext hp
    · exact hb.takes_table hskips htext hp
  | heading htext hp htop htag =>
    obtain rfl := Option.some.inj htoken
    obtain ⟨e, outer, rfl, rfl, rfl⟩ := List.map_eq_cons_iff.mp htags
    exact hb.takes_heading hskips htext hp htop htag
  | item htext hp htop =>
    obtain rfl := Option.some.inj htoken
    obtain ⟨e, outer, rfl, rfl, rfl⟩ := List.map_eq_cons_iff.mp htags
    exact hb.takes_item hskips htext hp htop
  | formatting htext hnew htag =>
    obtain rfl := Option.some.inj htoken
    subst htags
    rcases List.mem_cons.mp htag with rfl | htag
    · exact hb.takes_link hskips htext hnew
    · exact hb.takes_formatting hskips htext htag hnew
  | row =>
    obtain rfl := Option.some.inj htoken
    obtain ⟨e, outer, rfl, htop, rfl⟩ := List.map_eq_cons_iff.mp htags
    exact hb.takes_row hskips htop
  | cell htag =>
    obtain rfl := Option.some.inj htoken
    obtain ⟨e, outer, rfl, htop, rfl⟩ := List.map_eq_cons_iff.mp htags
    exact hb.takes_cell hskips htop htag
  | rule htext hp =>
    obtain rfl := Option.some.inj htoken
    subst htags
    exact hb.takes_rule htext hp
  | void htext htag =>
    obtain rfl := Option.some.inj htoken
    subst htags
    exact hb.takes_void htext htag
  | text => cases htoken
  | blockEnd htext htag =>
    obtain rfl := Option.some.inj htoken
    obtain ⟨e, outer, rfl, rfl, rfl⟩ := List.map_eq_cons_iff.mp htags
    exact hb.takes_block_end hskips htext htag
  | formattingEnd htext htag =>
    obtain rfl := Option.some.inj htoken
    obtain ⟨e, outer, rfl, rfl, rfl⟩ := List.map_eq_cons_iff.mp htags
    exact hb.takes_formatting_end hskips htext htag
  | rowEnd houter =>
    obtain rfl := Option.some.inj htoken
    obtain ⟨e, outer, rfl, htop, rfl⟩ := List.map_eq_cons_iff.mp htags
    exact hb.takes_row_end hskips htop houter
  | cellEnd houter htag =>
    obtain rfl := Option.some.inj htoken
    obtain ⟨e, outer, rfl, rfl, rfl⟩ := List.map_eq_cons_iff.mp htags
    exact hb.takes_cell_end hskips htag houter

/-- **A piece in its place is read as it says.** -/
theorem Fits.parses {piece : Piece} (h : Fits n.tags piece) (hnull : '\x00' ∉ piece.render) :
    Parses piece.render n (n.step piece) := by
  have htag {token : Token} (htoken : piece.token? = some token) (hs : piece.render ≠ [])
      (hfeed : token ≠ .char '\n') : Parses piece.render n (n.step piece) :=
    .of_token hs (h.next hnull htoken) (fun _ hb hskips => h.advances htoken hb hskips)
      fun heq => absurd heq hfeed
  cases piece with
  | start tag attributes | void tag attributes => exact htag rfl (List.cons_ne_nil _ _) nofun
  | finish tag => exact htag rfl (List.cons_ne_nil _ _) nofun
  | text s =>
    have hplace : AllowsText n.tags ∧ n.tags ≠ [] ∧ n.tags.head? ≠ some "pre" := by
      generalize n.tags = tags at h
      cases h with
      | text s htext htop => exact ⟨htext, List.cons_ne_nil _ _, by simpa using htop.1⟩
    have hparses := parses_text hplace.1 hplace.2.1 hplace.2.2
      (fun hmem => hnull (List.mem_flatMap.mpr ⟨'\x00', hmem, List.mem_singleton_self _⟩))
    rwa [String.ofList_toList] at hparses

/-! ### Sequences of pieces -/

/-- Pieces lead from open elements to open elements inside of others, the innermost first.  They are
read as they say, unless there is a null character in them. -/
structure Leads (base : List String) (pieces : List Piece) (before after : List String) :
    Prop where
  first : ∀ piece ∈ pieces.head?, Fits (before ++ base) piece
  run : ∀ n : Nesting, n.tags = before → ∃ m : Nesting, m.tags = after ∧
    ∀ outer, Nesting.run ⟨n.opened ++ outer, n.reversed⟩ pieces = ⟨m.opened ++ outer, m.reversed⟩
  parses : ∀ n : Nesting, n.tags = before ++ base → '\x00' ∉ render pieces →
    Parses (render pieces) n (n.run pieces)

namespace Leads

variable {base before between after : List String} {ps qs content : List Piece} {tag : String}
  {attributes : List (String × String)}

theorem nil : Leads base [] before before :=
  ⟨nofun, fun n h => ⟨n, h, fun _ => rfl⟩, fun n _ _ => .nil n⟩

theorem append (hp : Leads base ps before between) (hq : Leads base qs between after) :
    Leads base (ps ++ qs) before after := by
  refine ⟨?_, ?_, ?_⟩
  · cases ps with
    | nil =>
      -- nothing leads from open elements to the same
      let n : Nesting := ⟨before.map (⟨·, [], []⟩), []⟩
      have htags : n.tags = before := by simp [n, Nesting.tags, Function.comp_def]
      obtain ⟨m, hm, hrun⟩ := hp.run n htags
      have hopened : n.opened = m.opened := by
        have hempty := congrArg Nesting.opened (hrun [])
        simpa [Nesting.run] using hempty
      have heq : before = between := by rw [← htags, ← hm, Nesting.tags, Nesting.tags, hopened]
      rw [heq]
      exact hq.first
    | cons p ps => exact hp.first
  · intro n hn
    obtain ⟨k, hk, hrun⟩ := hp.run n hn
    obtain ⟨m, hm, hrun'⟩ := hq.run k hk
    exact ⟨m, hm, fun outer => by rw [Nesting.run_append, hrun, hrun']⟩
  · intro n hn hnull
    rw [render, List.flatMap_append, List.mem_append, not_or] at hnull
    rw [Nesting.run_append, render, List.flatMap_append]
    obtain ⟨opened, reversed⟩ := n
    obtain ⟨inner, outer, rfl, hinner, houter⟩ := List.map_eq_append_iff.mp hn
    obtain ⟨k, hk, hrun⟩ := hp.run ⟨inner, reversed⟩ hinner
    refine (hp.parses _ hn hnull.1).append (hq.parses _ ?_ hnull.2)
    rw [hrun, Nesting.tags, List.map_append, houter]
    exact congrArg (· ++ base) hk

/-- Elements around that are open as well. -/
theorem inside {mid : List String} (h : Leads (mid ++ base) ps before after) :
    Leads base ps (before ++ mid) (after ++ mid) := by
  refine ⟨?_, ?_, ?_⟩
  · rw [List.append_assoc]
    exact h.first
  · intro n hn
    obtain ⟨opened, reversed⟩ := n
    obtain ⟨inner, outer, rfl, hinner, houter⟩ := List.map_eq_append_iff.mp hn
    obtain ⟨m, hm, hrun⟩ := h.run ⟨inner, reversed⟩ hinner
    refine ⟨⟨m.opened ++ outer, m.reversed⟩, ?_, fun around => ?_⟩
    · rw [Nesting.tags, List.map_append, houter]
      exact congrArg (· ++ mid) hm
    · rw [List.append_assoc, List.append_assoc]
      exact hrun (outer ++ around)
  · intro n hn
    rw [List.append_assoc] at hn
    exact h.parses n hn

/-! #### Single pieces -/

theorem of_fits {piece : Piece} (h : Fits (before ++ base) piece)
    (hstep : ∀ n : Nesting, n.tags = before → ∃ m : Nesting, m.tags = after ∧ ∀ outer,
      Nesting.step ⟨n.opened ++ outer, n.reversed⟩ piece = ⟨m.opened ++ outer, m.reversed⟩) :
    Leads base [piece] before after := by
  refine ⟨fun q hq => Option.some.inj hq ▸ h, hstep, fun n hn hnull => ?_⟩
  rw [render, List.flatMap_singleton] at hnull ⊢
  rw [← hn] at h
  exact h.parses hnull

theorem start (h : Fits (before ++ base) (.start tag attributes)) :
    Leads base [.start tag attributes] before (tag :: before) :=
  of_fits h fun n hn =>
    ⟨n.step (.start tag attributes), congrArg (tag :: ·) hn, fun _ => rfl⟩

theorem finish (h : Fits (tag :: after ++ base) (.finish tag)) :
    Leads base [.finish tag] (tag :: after) after := by
  refine of_fits h fun n hn => ?_
  obtain ⟨opened, reversed⟩ := n
  obtain ⟨e, outer, rfl, -, houter⟩ := List.map_eq_cons_iff.mp hn
  exact ⟨Nesting.step ⟨e :: outer, reversed⟩ (.finish tag), houter, fun _ => rfl⟩

theorem void (h : Fits (before ++ base) (.void tag attributes)) :
    Leads base [.void tag attributes] before before :=
  of_fits h fun n hn => ⟨n.step (.void tag attributes), hn, fun _ => rfl⟩

theorem text {s : String} (h : Fits (before ++ base) (.text s)) :
    Leads base [.text s] before before :=
  of_fits h fun n hn => ⟨n.step (.text s), hn, fun _ => rfl⟩

/-! #### Elements -/

theorem element (hstart : Fits base (.start tag attributes))
    (hcontent : Leads (tag :: base) content [] [])
    (hend : Fits (tag :: base) (.finish tag)) :
    Leads base (.start tag attributes :: content ++ [.finish tag]) [] [] := by
  have hopen : Leads base [.start tag attributes] [] [tag] := start hstart
  have hinside : Leads base content [tag] [tag] :=
    inside (show Leads ([tag] ++ base) content [] [] from hcontent)
  have hclose : Leads base [.finish tag] [tag] [] := finish hend
  exact hopen.append (hinside.append hclose)

theorem flatMap {ι : Type} {f : ι → List Piece} {is : List ι}
    (h : ∀ i ∈ is, Leads base (f i) [] []) : Leads base (is.flatMap f) [] [] := by
  induction is with
  | nil => exact nil
  | cons i is ih =>
    rw [List.forall_mem_cons] at h
    exact h.1.append (ih h.2)

/-- Pieces that open and close the same elements fill one with nodes. -/
theorem exists_fills (h : Leads base ps [] []) : ∃ nodes, Fills ps nodes := by
  obtain ⟨m, hm, hrun⟩ := h.run ⟨[], []⟩ rfl
  have hopened : m.opened = [] := List.map_eq_nil_iff.mp hm
  refine ⟨m.reversed.reverse, fun outer => ?_⟩
  rw [List.reverse_reverse]
  have hall := hrun outer
  rwa [hopened] at hall

/-- What pieces fill an element with is read into it. -/
theorem parses_fills (h : Leads base ps [] []) {nodes : List Node} (hfills : Fills ps nodes)
    {opened : List OpenElement} (htags : opened.map (·.tag) = base)
    (hnull : '\x00' ∉ render ps) :
    Parses (render ps) ⟨opened, []⟩ ⟨opened, nodes.reverse⟩ := by
  rw [← hfills opened]
  exact h.parses _ htags hnull

end Leads

/-! ### Tables -/

/-- The names of the elements around a row in the body of a document. -/
def groupTags : List String := ["tbody", "table"] ++ bodyTags

namespace Leads

variable {ι : Type} {cells : ι → List Piece} {rows : List ι}

/-- A row with its cells. -/
theorem row {content : List Piece} (h : Leads ("tr" :: groupTags) content [] []) :
    Leads groupTags (Html.element "tr" content) [] [] :=
  element (.row ⟨List.forall_mem_nil _, .nil⟩) h (.rowEnd rfl)

/-- Rows denote as many nodes. -/
theorem exists_denotes_rows (h : ∀ row ∈ rows, Leads ("tr" :: groupTags) (cells row) [] []) :
    ∃ nodes, Denotes (rows.flatMap fun row => Html.element "tr" (cells row)) nodes ∧
      nodes.length = rows.length := by
  induction rows with
  | nil => exact ⟨[], denotes_nil, rfl⟩
  | cons row rows ih =>
    rw [List.forall_mem_cons] at h
    obtain ⟨children, hchildren⟩ := h.1.exists_fills
    obtain ⟨nodes, hnodes, hlength⟩ := ih h.2
    have hrow : Denotes (Html.element "tr" (cells row)) _ := denotes_element hchildren
    rw [List.flatMap_cons]
    exact ⟨_, denotes_append hrow hnodes, by simp [hlength]⟩

/-- The rows of a table are read into a row group, which the first row opens. -/
theorem parses_rows {row : ι} (h : ∀ r ∈ row :: rows, Leads ("tr" :: groupTags) (cells r) [] [])
    {nodes : List Node}
    (hfills : Fills ((row :: rows).flatMap fun row => Html.element "tr" (cells row)) nodes)
    (hnull : '\x00' ∉ render ((row :: rows).flatMap fun row => Html.element "tr" (cells row)))
    {e : OpenElement} {outer : List OpenElement} (htop : e.tag = "table")
    (houter : outer.map (·.tag) = bodyTags) :
    Parses (render ((row :: rows).flatMap fun row => Html.element "tr" (cells row)))
      ⟨e :: outer, []⟩ ⟨⟨"tbody", [], []⟩ :: e :: outer, nodes.reverse⟩ := by
  intro b rest hb
  have hrows : Leads groupTags ((row :: rows).flatMap fun row => Html.element "tr" (cells row))
      [] [] := flatMap fun r hr => (h r hr).row
  -- a row group that is open already reads the same
  obtain ⟨group, hgroup, hskips, hfirst⟩ := hb.ready.takes_firstRow rfl htop
  obtain ⟨between, htakes, hb'⟩ := hfirst []
  have htags : (⟨"tbody", [], []⟩ :: e :: outer).map OpenElement.tag = groupTags := by
    rw [List.map_cons, List.map_cons, htop, houter]
    rfl
  obtain ⟨b', hparsed, hcontinues⟩ := hrows.parses_fills hfills htags hnull group rest hgroup
  refine ⟨b', hparsed, ?_⟩
  obtain ⟨text, htext⟩ : ∃ text,
      render ((row :: rows).flatMap fun row => Html.element "tr" (cells row)) ++ rest =
        renderStart "tr" [] ++ text :=
    ⟨_, by rw [List.flatMap_cons, Html.element, List.cons_append, List.cons_append, render,
      List.flatMap_cons, List.append_assoc]; rfl⟩
  have hplain : ArePlain [] := ⟨List.forall_mem_nil _, List.nodup_nil, List.forall_mem_nil _⟩
  rw [htext] at hcontinues ⊢
  exact hcontinues.of_receive_eq (List.cons_ne_nil _ _)
    (fun allowsCdata => next_start (by decide) hplain allowsCdata text)
    (receive_of_takes hb' nofun)
    (receive_of_takes (by rwa [ready_of_skips hskips]) nofun)

/-- **A table directly in the body**, with or without rows. -/
theorem table (h : ∀ row ∈ rows, Leads ("tr" :: groupTags) (cells row) [] []) :
    Leads bodyTags (Html.element "table" (rows.flatMap fun row => Html.element "tr" (cells row)))
      [] [] := by
  have hstart : Fits bodyTags (.start "table" []) :=
    .block (.inl rfl) (by decide) (by decide) ⟨List.forall_mem_nil _, .nil⟩
  obtain ⟨nodes, hnodes, hlength⟩ := exists_denotes_rows h
  have helement : Denotes
      (Html.element "table" (rows.flatMap fun row => Html.element "tr" (cells row)))
      [.element "table" [] (childrenOf "table" nodes)] :=
    denotes_element hnodes.fills
  refine ⟨fun p hp => Option.some.inj hp ▸ hstart, fun n hn => ⟨⟨n.opened,
    .element "table" [] (childrenOf "table" nodes) :: n.reversed⟩, hn, fun outer => helement _⟩,
    fun n hn hnull => ?_⟩
  rw [helement]
  have hname : isPlainName "table".toList = true := by decide
  have hfits : Fits n.tags (.start "table" []) := by
    rw [hn]
    exact hstart
  have hopen : Parses (renderStart "table" []) n ⟨⟨"table", [], n.reversed⟩ :: n.opened, []⟩ :=
    hfits.parses (by decide)
  have hsplit : render (Html.element "table" (rows.flatMap fun row => Html.element "tr" (cells row)))
      = renderStart "table" [] ++
        (render (rows.flatMap fun row => Html.element "tr" (cells row)) ++
          (Piece.finish "table").render) := by
    simp [render, Html.element, Piece.render]
  rw [hsplit] at hnull ⊢
  simp only [List.mem_append, not_or] at hnull
  refine hopen.append ?_
  have hend {m k : Nesting} (hadvances : ∀ b : Builder, b.Represents m → b.skipsLineFeed = false →
      b.Advances (.finish "table") k) : Parses (Piece.finish "table").render m k :=
    .of_token (List.cons_ne_nil _ _) (next_finish hname) hadvances (by rintro ⟨⟩)
  -- without rows no row group is open, and the end of the table closes the table alone
  cases rows with
  | nil =>
    obtain rfl : nodes = [] := List.length_eq_zero_iff.mp hlength
    exact hend fun b hb hskips => hb.takes_emptyTable_end hskips rfl hn
  | cons row rows =>
    have hrows := parses_rows (e := ⟨"table", [], n.reversed⟩) h hnodes.fills hnull.2.1 rfl hn
    -- the group that the tags do not mention is closed with the table
    have hchildren : childrenOf "table" nodes = [.element "tbody" [] nodes] := by
      cases nodes with
      | nil => cases hlength
      | cons node nodes => rfl
    refine hrows.append (hend fun b hb hskips => ?_)
    have hadvances := hb.takes_table_end hskips rfl rfl hn
    rw [hchildren]
    simpa using hadvances

end Leads

/-! ### The start of a document -/

namespace Builder

/-- The names of tags that have a meaning of their own before the body. -/
def outerNames : List String :=
  ["html", "head", "body", "frameset", "noscript"] ++ metadataNames

/-- What is around the content of a document: the elements that no tag mentions. -/
def emptyBody : Nesting :=
  ⟨[⟨"body", [], [.element "head" [] []]⟩, ⟨"html", [], []⟩], []⟩

theorem represents_new : Draft.new.Represents ⟨[], []⟩ :=
  ⟨rfl, ⟨⟨none, rfl⟩, trivial⟩, trivial⟩

/-- A token that belongs into the body: the start tag of an element in it, or the end. -/
def IsForBody : Token → Prop
  | .start tag => tag.name ∉ outerNames
  | .eof => True
  | _ => False

/-- **The first token of a document opens what is around its content**, and is then read as in the
body. -/
theorem exists_receiveWithin_new : ∃ inBody : Builder, inBody.Represents emptyBody ∧
    inBody.skipsLineFeed = false ∧ ∀ token, IsForBody token → ∀ fuel,
      new.receiveWithin (fuel + 5) token = inBody.receiveWithin fuel token := by
  -- one reader for each mode on the way
  let first := ({ new with isOld := true } : Builder).goTo .beforeHtml
  let second := (first.insertImplied "html").goTo .beforeHead
  let third := (second.openHead ⟨"head", [], false⟩).goTo .inHead
  let fourth := third.pop.goTo .afterHead
  let fifth := (fourth.insertImplied "body").goTo .inBody
  have hnew : new.Holds ⟨[], []⟩ := ⟨represents_new, rfl, rfl, rfl, rfl⟩
  have hfirst : first.Holds ⟨[], []⟩ := ⟨represents_new, rfl, rfl, rfl, rfl⟩
  have hsecond : second.Holds ⟨[⟨"html", [], []⟩], []⟩ :=
    (hfirst.holds_insert ⟨"html", [], false⟩ (by decide)).goTo .beforeHead
  have hthird : third.Holds ⟨[⟨"head", [], []⟩, ⟨"html", [], []⟩], []⟩ :=
    have h := hsecond.holds_insert ⟨"head", [], false⟩ (by decide)
    ⟨h.draft, h.stack, h.templates, h.templateModes, h.fosters⟩
  have hfourth : fourth.Holds ⟨[⟨"html", [], []⟩], [.element "head" [] []]⟩ :=
    hthird.holds_pop.goTo .afterHead
  have hfifth : fifth.Holds emptyBody :=
    (hfourth.holds_insert ⟨"body", [], false⟩ (by decide)).goTo .inBody
  refine ⟨fifth, ⟨hfifth, rfl, rfl, nofun⟩, rfl, fun token htoken fuel => ?_⟩
  -- what each of them makes of the token: it only hands it on
  have hsteps : new.step .initial token =
        ({ new with isOld := true } : Builder).again .beforeHtml ∧
      first.step .beforeHtml token = (first.insertImplied "html").again .beforeHead ∧
      second.step .beforeHead token = (second.openHead ⟨"head", [], false⟩).again .inHead ∧
      third.step .inHead token = third.pop.again .afterHead ∧
      fourth.step .afterHead token = (fourth.insertImplied "body").again .inBody := by
    cases token with
    | eof => exact ⟨rfl, rfl, rfl, rfl, rfl⟩
    | start tag =>
      simp only [IsForBody, outerNames, List.cons_append, List.nil_append, List.mem_cons,
        not_or] at htoken
      obtain ⟨hhtml, hhead, hbody, hframeset, hnoscript, hmetadata⟩ := htoken
      refine ⟨rfl, ?_, ?_, ?_, ?_⟩
      · simp only [step, beforeHtml, hhtml, if_false]
      · simp only [step, beforeHead, hhtml, hhead, if_false]
      · simp [step, inHead, hhtml, hhead, hmetadata, hnoscript]
      · simp [step, afterHead, hhtml, hhead, hbody, hframeset, hmetadata]
    | doctype | finish | comment | char => exact htoken.elim
  obtain ⟨hstep₁, hstep₂, hstep₃, hstep₄, hstep₅⟩ := hsteps
  rw [hnew.receiveWithin_succ, show new.mode = .initial from rfl, hstep₁]
  refine (hfirst.receiveWithin_succ (fuel + 3) _).trans ?_
  rw [show first.mode = .beforeHtml from rfl, hstep₂]
  refine (hsecond.receiveWithin_succ (fuel + 2) _).trans ?_
  rw [show second.mode = .beforeHead from rfl, hstep₃]
  refine (hthird.receiveWithin_succ (fuel + 1) _).trans ?_
  rw [show third.mode = .inHead from rfl, hstep₄]
  refine (hfourth.receiveWithin_succ fuel _).trans ?_
  rw [show fourth.mode = .afterHead from rfl, hstep₅]
  rfl

end Builder

/-! ### Whole texts -/

/-- A piece directly in the body is the start tag of an element that belongs there. -/
theorem Fits.exists_start {piece : Piece} (h : Fits bodyTags piece) :
    ∃ tag : Tag, piece.token? = some (.start tag) ∧ tag.name ∉ outerNames ∧
      ∃ s, piece.render = '<' :: s := by
  have hopening : ∀ tag ∈ ["p", "blockquote", "ul", "ol", "pre", "table"], tag ∉ outerNames := by
    decide
  have hheading : ∀ tag ∈ headingTags, tag ∉ outerNames := by decide
  have hphrase : ∀ tag ∈ phraseTags, tag ∉ outerNames := by decide
  have hvoid : ∀ tag, tag = "br" ∨ tag = "img" → tag ∉ outerNames := by
    rintro tag (rfl | rfl) <;> decide
  have htop {top : String} {outer : List String} (htags : bodyTags = top :: outer) :
      top = "body" := (List.cons_eq_cons.mp htags).1.symm
  -- what belongs into lists, rows and cells only does not stand in the body
  generalize htags : bodyTags = tags at h
  cases h with
  | block _ _ htag => exact ⟨_, rfl, hopening _ htag, _, rfl⟩
  | heading _ _ _ htag => exact ⟨_, rfl, hheading _ htag, _, rfl⟩
  | item _ _ hlist => exact absurd hlist (htop htags ▸ by decide)
  | formatting _ _ htag => exact ⟨_, rfl, hphrase _ htag, _, rfl⟩
  | row => exact absurd (htop htags) (by decide)
  | cell => exact absurd (htop htags) (by decide)
  | rule => exact ⟨_, rfl, (by decide : "hr" ∉ outerNames), _, rfl⟩
  | void _ htag => exact ⟨_, rfl, hvoid _ htag, _, rfl⟩
  | text _ _ hbody => exact absurd (htop htags) hbody.2
  | blockEnd _ htag => exact absurd htag (htop htags ▸ by decide)
  | formattingEnd _ htag => exact absurd htag (htop htags ▸ by decide)
  | rowEnd => exact absurd (htop htags) (by decide)
  | cellEnd _ htag => exact absurd htag (htop htags ▸ by decide)

/-- A text that starts with a tag and has no carriage return is ready to be read. -/
theorem prepare_eq_self {s : List Char} (h : '\r' ∉ '<' :: s) : prepare ('<' :: s) = '<' :: s := by
  have hprefix : Text.stripPrefix? ['\ufeff'] ('<' :: s) = none := rfl
  rw [prepare, hprefix, Option.getD_none]
  generalize '<' :: s = t at h
  induction t with
  | nil => rfl
  | cons c t ih =>
    rw [List.mem_cons, not_or] at h
    rw [unifyLineEndings, if_neg (Ne.symm h.1), ih h.2]
    intro _ hc
    exact absurd hc.symm h.1

/-- The end of the text in the body leaves everything as it is. -/
theorem Builder.Represents.takes_eof (h : b.Represents n) (htags : n.tags = bodyTags) :
    b.Takes .eof b := by
  have hmode : b.mode = .inBody := by
    rw [h.mode, htags]
    rfl
  refine .of_step h.toHolds ?_
  rw [hmode, step, inBody]
  simp only [endInBody, h.templateModes, List.isEmpty_nil, if_true]
  rfl

/-- **Pieces are read from the start of a document on.** -/
theorem Leads.readWithin_new {pieces : List Piece} {nodes : List Node}
    (h : Leads bodyTags pieces [] []) (hfills : Fills pieces nodes)
    (hnull : '\x00' ∉ render pieces) :
    ∃ b : Builder, b.Represents ⟨emptyBody.opened, nodes.reverse⟩ ∧
      readWithin ((render pieces).length + 1) new (render pieces) = (b.receive .eof).1 := by
  obtain ⟨inBody, hbody, hskips, hnew⟩ := exists_receiveWithin_new
  cases pieces with
  | nil =>
    have hnodes : emptyBody = ⟨emptyBody.opened, nodes.reverse⟩ := hfills emptyBody.opened
    refine ⟨inBody, hnodes ▸ hbody, ?_⟩
    -- nothing is read but the end, which opens the body all the same
    have heof : inBody.Takes .eof inBody := hbody.takes_eof rfl
    have hreceive : new.receive .eof = (inBody, .done) := (hnew .eof trivial 27).trans (heof 25)
    have hother : inBody.receive .eof = (inBody, .done) :=
      receive_of_takes (by rwa [ready_of_skips hskips]) nofun
    exact congrArg Prod.fst (hreceive.trans hother.symm)
  | cons piece pieces =>
    have hfits : Fits emptyBody.tags piece := h.first piece rfl
    obtain ⟨tag, htoken, hname, s, hs⟩ := Fits.exists_start hfits
    obtain ⟨b, hb, hcontinues⟩ := h.parses_fills hfills rfl hnull inBody [] hbody
    -- the new reader and the one in the body make the same of the first tag, and go on alike
    obtain ⟨between, htakes, -⟩ := hfits.advances htoken hbody hskips
    have hreceive : new.receive (.start tag) = (between, .done) :=
      (hnew (.start tag) hname 27).trans (htakes 25)
    have hother : inBody.receive (.start tag) = (between, .done) :=
      receive_of_takes (by rwa [ready_of_skips hskips]) nofun
    have hnext (allowsCdata : Bool) : Token.next allowsCdata (render (piece :: pieces)) =
        ([.start tag], render pieces) := by
      rw [render, List.flatMap_cons, List.mem_append, not_or] at hnull
      exact hfits.next hnull.1 htoken allowsCdata _
    have hne : render (piece :: pieces) ≠ [] := by
      rw [render, List.flatMap_cons, hs]
      exact List.cons_ne_nil _ _
    rw [List.append_nil] at hcontinues
    obtain ⟨steps, hsteps, hread⟩ := hcontinues.of_receive_eq hne hnext hreceive hother
    rw [List.length_nil] at hsteps
    have hend := hread ((render (piece :: pieces)).length - steps)
    rw [Nat.sub_add_cancel (by omega)] at hend
    refine ⟨b, hb, ?_⟩
    rw [hend, readWithin]
    exact Nat.succ_ne_zero _

/-- The body of a document that has been read to its end. -/
theorem Draft.Represents.bodyOf_toNode {d : Draft} {nodes : List Node}
    (h : d.Represents ⟨emptyBody.opened, nodes.reverse⟩) :
    bodyOf (d.toNode Draft.document) = nodes := by
  have hclosed : d.Represents ⟨[], [.element "html" []
      [.element "head" [] [], .element "body" [] nodes]].reverse⟩ := by
    have hclose := h.close.close
    rwa [List.reverse_reverse] at hclose
  rw [hclosed.toNode]
  simp [bodyOf, bodyIn?, bodyAmong?]

/-- **A rendered text is parsed as the document that its pieces denote**: a reader finds in its body
what the pieces denote, with nothing moved, dropped or put in but what no tag mentions.  A carriage
return would be read as a line feed, and a null character as none. -/
theorem bodyOf_parse_render {pieces : List Piece} (h : Leads bodyTags pieces [] [])
    (hnull : '\x00' ∉ render pieces) (hreturn : '\r' ∉ render pieces) :
    bodyOf (parse (render pieces)) = nodesOf pieces := by
  obtain ⟨nodes, hfills⟩ := h.exists_fills
  obtain ⟨b, hb, hread⟩ := h.readWithin_new hfills hnull
  have hprepare : prepare (render pieces) = render pieces := by
    cases pieces with
    | nil => rfl
    | cons piece pieces =>
      obtain ⟨-, -, -, s, hs⟩ := Fits.exists_start (h.first piece rfl)
      rw [render, List.flatMap_cons, hs] at hreturn ⊢
      exact prepare_eq_self hreturn
  rw [parse]
  simp only [hprepare, hread, receive_of_takes (hb.ready.takes_eof rfl) nofun, hfills.nodesOf_eq]
  exact hb.draft.bodyOf_toNode

end Interdoc.Html
