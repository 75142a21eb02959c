import Interdoc.Document.Validation
import Interdoc.Proofs.Text.Decimal
import Interdoc.Proofs.Text.Lines
import Interdoc.Proofs.Text.Occurrences

/-!
# Parts of JSON values

A path leads to a part of a value (`Json.at?`), and the part can be replaced (`Json.replaceAt`).
Then the path leads to what was put there, and the members beside it stay as they are.

The text of a path is a JSON pointer: names and indices with a slash before each.  A pointer is read
without the value (`pointerTokens?`) and then followed (`follow`), where the same token is a name in
an object and an index in an array.  The text of a path leads to the same part as the path, if the
names in it have no slash and no tilde (`pointer?_pathText`).
-/

namespace Interdoc

/-- A step in writing. -/
def Step.text : Step → String
  | .member name => name
  | .item index => toString index

namespace Json

variable {v w x : Json} {name other : String} {path front : List Step}

/-! ### Parts -/

/-- The item of an array with an index. -/
def item? (index : Nat) : Json → Option Json
  | .array items => items[index]?
  | _ => none

/-- The part of a value at the end of a path. -/
def at? (v : Json) : List Step → Option Json
  | [] => some v
  | .member name :: path => (v.get? name).bind fun w => at? w path
  | .item index :: path => (v.item? index).bind fun w => at? w path

/-- Members in which the value of the first one of a name is changed. -/
def modifyMember (name : String) (f : Json → Json) :
    List (String × Json) → List (String × Json)
  | [] => []
  | (n, v) :: rest => if n = name then (n, f v) :: rest else (n, v) :: modifyMember name f rest

/-- The value with another one in place of the part at the end of a path. -/
def replaceAt (v : Json) (path : List Step) (x : Json) : Json :=
  match path, v with
  | [], _ => x
  | .member name :: path, .object members =>
    .object (modifyMember name (fun w => replaceAt w path x) members)
  | .item index :: path, .array items => .array (items.modify index fun w => replaceAt w path x)
  | _ :: _, v => v

@[simp] theorem at?_nil (v : Json) : v.at? [] = some v := rfl

theorem at?_member (v : Json) (name : String) (path : List Step) :
    v.at? (.member name :: path) = (v.get? name).bind fun w => w.at? path := rfl

theorem at?_item (v : Json) (index : Nat) (path : List Step) :
    v.at? (.item index :: path) = (v.item? index).bind fun w => w.at? path := rfl

theorem at?_append (v : Json) (front path : List Step) :
    v.at? (front ++ path) = (v.at? front).bind fun w => w.at? path := by
  induction front generalizing v with
  | nil => rfl
  | cons step front ih =>
    cases step with
    | member name => simp only [List.cons_append, at?_member, ih, Option.bind_assoc]
    | item index => simp only [List.cons_append, at?_item, ih, Option.bind_assoc]

@[simp] theorem replaceAt_nil (v x : Json) : v.replaceAt [] x = x := by
  cases v <;> rfl

/-- A part is smaller than the value. -/
theorem sizeOf_at? (hpath : path ≠ []) (h : v.at? path = some w) : sizeOf w < sizeOf v := by
  induction path generalizing v with
  | nil => exact absurd rfl hpath
  | cons step path ih =>
    -- the first step leads to a smaller value, and the others do not lead to a greater one
    have hstep : ∃ u : Json, sizeOf u < sizeOf v ∧ u.at? path = some w := by
      cases step with
      | member name =>
        obtain ⟨u, hu, hw⟩ := Option.bind_eq_some_iff.mp h
        exact ⟨u, sizeOf_get? hu, hw⟩
      | item index =>
        obtain ⟨u, hu, hw⟩ := Option.bind_eq_some_iff.mp h
        refine ⟨u, ?_, hw⟩
        unfold item? at hu
        split at hu
        · have := List.sizeOf_lt_of_mem (List.mem_of_getElem? hu)
          simp
          omega
        · cases hu
    obtain ⟨u, hu, hw⟩ := hstep
    rcases eq_or_ne path [] with rfl | hne
    · rw [at?_nil, Option.some_inj] at hw
      rwa [← hw]
    · exact (ih hne hw).trans hu

/-! ### Replacing a part -/

theorem member?_modifyMember (name other : String) (f : Json → Json)
    (members : List (String × Json)) :
    member? other (modifyMember name f members) =
      if other = name then (member? name members).map f else member? other members := by
  induction members with
  | nil => simp [modifyMember, member?]
  | cons p rest ih =>
    obtain ⟨n, v⟩ := p
    rw [modifyMember]
    by_cases hn : n = name
    · subst hn
      by_cases ho : other = n
      · simp [member?, ho]
      · simp [member?, ho, Ne.symm ho]
    · rw [if_neg hn, member?, ih]
      by_cases ho : other = name
      · subst ho
        simp [member?, hn]
      · simp [member?, ho]

/-- The member on the way is changed. -/
theorem get?_replaceAt_self (v : Json) (name : String) (path : List Step) (x : Json) :
    (v.replaceAt (.member name :: path) x).get? name =
      (v.get? name).map fun w => w.replaceAt path x := by
  cases v with
  | object members => simp [replaceAt, get?, member?_modifyMember]
  | _ => rfl

/-- All other members stay. -/
theorem get?_replaceAt_of_ne (v : Json) (h : other ≠ name) (path : List Step) (x : Json) :
    (v.replaceAt (.member name :: path) x).get? other = v.get? other := by
  cases v with
  | object members => simp [replaceAt, get?, member?_modifyMember, h]
  | _ => rfl

theorem item?_replaceAt (v : Json) (index : Nat) (path : List Step) (x : Json) :
    (v.replaceAt (.item index :: path) x).item? index =
      (v.item? index).map fun w => w.replaceAt path x := by
  cases v with
  | array items => simp [replaceAt, item?]
  | _ => rfl

/-- **The path leads to what was put at its end.** -/
theorem at?_replaceAt (h : v.at? path = some w) (x : Json) :
    (v.replaceAt path x).at? path = some x := by
  induction path generalizing v with
  | nil => rw [replaceAt_nil, at?_nil]
  | cons step path ih =>
    cases step with
    | member name =>
      obtain ⟨u, hu, hw⟩ := Option.bind_eq_some_iff.mp h
      rw [at?_member, get?_replaceAt_self, hu, Option.map_some, Option.bind_some, ih hw]
    | item index =>
      obtain ⟨u, hu, hw⟩ := Option.bind_eq_some_iff.mp h
      rw [at?_item, item?_replaceAt, hu, Option.map_some, Option.bind_some, ih hw]

/-- Only the value of the first member of the name is changed. -/
theorem modifyMember_congr {f g : Json → Json} {members : List (String × Json)}
    (h : ∀ w, member? name members = some w → f w = g w) :
    modifyMember name f members = modifyMember name g members := by
  induction members with
  | nil => rfl
  | cons p rest ih =>
    obtain ⟨n, v⟩ := p
    rw [modifyMember, modifyMember]
    by_cases hn : n = name
    · rw [if_pos hn, if_pos hn, h v (by rw [member?, if_pos hn])]
    · rw [if_neg hn, if_neg hn, ih fun w hw => h w (by rwa [member?, if_neg hn])]

theorem modifyMember_id (name : String) (members : List (String × Json)) :
    modifyMember name id members = members := by
  induction members with
  | nil => rfl
  | cons p rest ih => simp [modifyMember, ih]

theorem modify_congr {f g : Json → Json} {items : List Json} {index : Nat}
    (h : ∀ w, items[index]? = some w → f w = g w) :
    items.modify index f = items.modify index g := by
  refine List.ext_getElem? fun k => ?_
  rw [List.getElem?_modify, List.getElem?_modify]
  cases hw : items[k]? with
  | none => rfl
  | some w =>
    by_cases hk : index = k
    · subst hk
      simp [h w hw]
    · simp [hk]

/-- To replace a part of a part is to replace the part. -/
theorem replaceAt_append (h : v.at? front = some w) (path : List Step) (x : Json) :
    v.replaceAt (front ++ path) x = v.replaceAt front (w.replaceAt path x) := by
  induction front generalizing v with
  | nil =>
    rw [at?_nil, Option.some_inj] at h
    rw [List.nil_append, replaceAt_nil, h]
  | cons step front ih =>
    cases step with
    | member name =>
      cases v with
      | object members =>
        refine congrArg object (modifyMember_congr fun u hu => ih ?_)
        rwa [at?_member, get?, hu, Option.bind_some] at h
      | _ => rfl
    | item index =>
      cases v with
      | array items =>
        refine congrArg array (modify_congr fun u hu => ih ?_)
        rwa [at?_item, item?, hu, Option.bind_some] at h
      | _ => rfl

/-- A part in its own place changes nothing. -/
theorem replaceAt_self (h : v.at? path = some w) : v.replaceAt path w = v := by
  induction path generalizing v with
  | nil =>
    rw [at?_nil, Option.some_inj] at h
    rw [replaceAt_nil, h]
  | cons step path ih =>
    cases step with
    | member name =>
      cases v with
      | object members =>
        have hsame : modifyMember name (fun u => u.replaceAt path w) members =
            modifyMember name id members := by
          refine modifyMember_congr fun u hu => ih ?_
          rwa [at?_member, get?, hu, Option.bind_some] at h
        rw [replaceAt, hsame, modifyMember_id]
      | _ => rfl
    | item index =>
      cases v with
      | array items =>
        have hsame : items.modify index (fun u => u.replaceAt path w) = items.modify index id := by
          refine modify_congr fun u hu => ih ?_
          rwa [at?_item, item?, hu, Option.bind_some] at h
        rw [replaceAt, hsame, List.modify_id]
      | _ => rfl

/-! ### Pointers -/

/-- The index that a token stands for: digits, the first of which is no zero unless it is the only
one. -/
def index? (token : List Char) : Option Nat :=
  if token.all Char.isDigit && !token.isEmpty && (token.head? != some '0' || token.length == 1) then
    some (Nat.ofDigitChars 10 token 0)
  else none

/-- The tokens of a pointer.  A pointer is empty or begins with a slash; in a token a slash is
written as `~1` and a tilde as `~0`. -/
def pointerTokens? (text : String) : Option (List (List Char)) :=
  match text.toList with
  | [] => some []
  | '/' :: rest =>
    some ((Text.splitOn '/' rest).map fun token =>
      Text.replace ['~', '0'] ['~'] (Text.replace ['~', '1'] ['/'] token))
  | _ => none

/-- The part of a value that tokens lead to: each is a name in an object and an index in an
array. -/
def follow (v : Json) : List (List Char) → Option Json
  | [] => some v
  | token :: tokens =>
    match v with
    | .object members => (member? (String.ofList token) members).bind fun w => follow w tokens
    | .array items => ((index? token).bind fun k => items[k]?).bind fun w => follow w tokens
    | _ => none

/-- The part of a value that a JSON pointer leads to. -/
def pointer? (v : Json) (text : String) : Option Json :=
  (pointerTokens? text).bind v.follow

theorem head?_toDigits {k : Nat} (hk : 0 < k) : (Nat.toDigits 10 k).head? ≠ some '0' := by
  induction k using Nat.base_induction 10 (by decide) with
  | single m hm =>
    rw [Nat.toDigits_of_lt_base hm, List.head?_cons, ne_eq, Option.some_inj]
    have hdigits : ∀ m < 10, 0 < m → Nat.digitChar m ≠ '0' := by decide
    exact hdigits m hm hk
  | digit m k hk' hm ih =>
    -- the first digit is that of the number without its last digit
    rw [← Nat.toDigits_append_toDigits (by decide) hm hk', List.head?_append_of_ne_nil _
      Nat.toDigits_ne_nil]
    exact ih hm

/-- An index is read as it is written. -/
theorem index?_toString (k : Nat) : index? (toString k).toList = some k := by
  have hdigits : (toString k).toList = Nat.toDigits 10 k := Nat.toList_repr
  have hall : (Nat.toDigits 10 k).all Char.isDigit = true :=
    List.all_eq_true.mpr fun c hc => isDigit_of_mem_toString (hdigits ▸ hc)
  have hne : (Nat.toDigits 10 k).isEmpty = false :=
    List.isEmpty_eq_false_iff.mpr Nat.toDigits_ne_nil
  have hzero : ((Nat.toDigits 10 k).head? != some '0' ||
      (Nat.toDigits 10 k).length == 1) = true := by
    rcases Nat.eq_zero_or_pos k with rfl | hk
    · rfl
    · rw [bne_iff_ne.mpr (head?_toDigits hk), Bool.true_or]
  rw [hdigits, index?, hall, hne, hzero, Nat.ofDigitChars_ten_toDigits]
  rfl

/-- The path has no name with a character that is written otherwise in a pointer. -/
def HasPlainNames (path : List Step) : Prop :=
  ∀ step ∈ path, '/' ∉ step.text.toList ∧ '~' ∉ step.text.toList

theorem hasPlainNames_append (hfront : HasPlainNames front) (hpath : HasPlainNames path) :
    HasPlainNames (front ++ path) :=
  List.forall_mem_append.mpr ⟨hfront, hpath⟩

theorem follow_text (h : v.at? path = some w) :
    v.follow (path.map fun step => step.text.toList) = some w := by
  induction path generalizing v with
  | nil => exact h
  | cons step path ih =>
    cases step with
    | member name =>
      obtain ⟨u, hu, hw⟩ := Option.bind_eq_some_iff.mp h
      cases v with
      | object members =>
        rw [List.map_cons, follow, Step.text, String.ofList_toList]
        rw [get?] at hu
        rw [hu, Option.bind_some, ih hw]
      | _ => cases hu
    | item index =>
      obtain ⟨u, hu, hw⟩ := Option.bind_eq_some_iff.mp h
      cases v with
      | array items =>
        rw [List.map_cons, follow, Step.text, index?_toString, Option.bind_some]
        rw [item?] at hu
        rw [hu, Option.bind_some, ih hw]
      | _ => cases hu

theorem toList_pathText (path : List Step) :
    (Violation.pathText path).toList = path.flatMap fun step => '/' :: step.text.toList := by
  induction path with
  | nil => rfl
  | cons step path ih =>
    cases step <;>
      simp [Violation.pathText, String.toList_append, ih, Step.text]

/-- The tokens of a text that goes on with a path. -/
theorem splitOn_flatMap {token : List Char} (htoken : '/' ∉ token) (h : HasPlainNames path) :
    Text.splitOn '/' (token ++ path.flatMap fun step => '/' :: step.text.toList) =
      token :: path.map fun step => step.text.toList := by
  induction path generalizing token with
  | nil => rw [List.flatMap_nil, List.append_nil, Text.splitOn_of_not_mem htoken, List.map_nil]
  | cons step path ih =>
    rw [HasPlainNames, List.forall_mem_cons] at h
    rw [List.flatMap_cons, List.cons_append, Text.splitOn_append_sep,
      Text.splitOn_of_not_mem htoken, ih h.1.1 h.2, List.map_cons, List.singleton_append]

theorem pointerTokens?_pathText (h : HasPlainNames path) :
    pointerTokens? (Violation.pathText path) = some (path.map fun step => step.text.toList) := by
  have hsame : ∀ p q token : List Char, '~' ∉ token → Text.replace ('~' :: p) q token = token := by
    intro p q token htoken
    have happend := Text.replaceAux_append_of_avoids (q := q)
      (Text.avoids_of_not_mem (p := p) htoken) []
    rwa [List.append_nil, Text.replaceAux, List.append_nil] at happend
  rw [pointerTokens?, toList_pathText]
  cases path with
  | nil => rfl
  | cons step path =>
    -- a plain name has nothing to unescape
    have hunescaped : ∀ token ∈ (step :: path).map (fun step => step.text.toList),
        Text.replace ['~', '0'] ['~'] (Text.replace ['~', '1'] ['/'] token) = token := by
      intro token htoken
      obtain ⟨step', hstep, rfl⟩ := List.mem_map.mp htoken
      have htilde := (h step' hstep).2
      rw [hsame _ _ _ htilde, hsame _ _ _ htilde]
    rw [HasPlainNames, List.forall_mem_cons] at h
    rw [List.flatMap_cons, List.cons_append]
    refine congrArg some ?_
    rw [splitOn_flatMap h.1.1 h.2]
    exact (List.map_congr_left hunescaped).trans (List.map_id _)

/-- **The text of a path is a pointer to the part** at the end of the path. -/
theorem pointer?_pathText (hplain : HasPlainNames path) (h : v.at? path = some w) :
    v.pointer? (Violation.pathText path) = some w := by
  rw [pointer?, pointerTokens?_pathText hplain, Option.bind_some, follow_text h]

end Json

end Interdoc
