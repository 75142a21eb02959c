import Interdoc.Format
import Interdoc.Text.Blank

/-!
# Registries of formats

A registry holds at most one format of each name.  Its formats are kept in strictly increasing order
of their names, so that it is determined by the last format registered under each name: neither the
order of registrations nor formats that were replaced can be seen (`Registry.get?_register`).

A format is found by its name or by a file extension.  Of several formats that claim an extension
the one with the least name is found.
-/

namespace Interdoc

/-- A collection of formats with different names. -/
structure Registry where
  /-- The formats in increasing order of their names. -/
  formats : List Format
  sorted : formats.Pairwise fun f g => f.name < g.name

namespace Registry

/-! ### Registration -/

/-- The registry without formats. -/
def empty : Registry := ⟨[], .nil⟩

/-- Formats in increasing order of their names after one of them is added or replaced. -/
def insert (f : Format) : List Format → List Format
  | [] => [f]
  | g :: gs =>
    if f.name = g.name then f :: gs
    else if f.name < g.name then f :: g :: gs
    else g :: insert f gs

theorem eq_or_mem_of_mem_insert {f x : Format} {gs : List Format} (h : x ∈ insert f gs) :
    x = f ∨ x ∈ gs := by
  induction gs with
  | nil => exact .inl (List.mem_singleton.1 h)
  | cons g gs ih =>
    rw [insert] at h
    split at h
    · rcases List.mem_cons.1 h with h | h
      · exact .inl h
      · exact .inr (List.mem_cons_of_mem g h)
    · split at h
      · exact List.mem_cons.1 h
      · rcases List.mem_cons.1 h with h | h
        · exact .inr (h ▸ List.mem_cons_self)
        · exact (ih h).imp_right (List.mem_cons_of_mem g)

theorem pairwise_insert (f : Format) {gs : List Format}
    (h : gs.Pairwise fun f g => f.name < g.name) :
    (insert f gs).Pairwise fun f g => f.name < g.name := by
  induction gs with
  | nil => exact List.pairwise_singleton _ f
  | cons g gs ih =>
    obtain ⟨hg, hgs⟩ := List.pairwise_cons.1 h
    rw [insert]
    split
    · next heq => exact List.pairwise_cons.2 ⟨fun x hx => heq ▸ hg x hx, hgs⟩
    · next hne =>
      split
      · next hlt =>
        refine List.pairwise_cons.2 ⟨fun x hx => ?_, h⟩
        rcases List.mem_cons.1 hx with rfl | hx
        · exact hlt
        · exact String.lt_trans hlt (hg x hx)
      · next hnlt =>
        refine List.pairwise_cons.2 ⟨fun x hx => ?_, ih hgs⟩
        rcases eq_or_mem_of_mem_insert hx with rfl | hx
        · exact Std.lt_of_le_of_ne hnlt (Ne.symm hne)
        · exact hg x hx

/-- The registry after a format is registered.  A format of the same name is replaced. -/
def register (r : Registry) (f : Format) : Registry :=
  ⟨insert f r.formats, pairwise_insert f r.sorted⟩

/-- The registry in which some formats are registered one after another. -/
def ofList (formats : List Format) : Registry :=
  formats.foldl register empty

/-! ### Look-up -/

/-- The format of a name, if there is one. -/
def get? (r : Registry) (name : String) : Option Format :=
  r.formats.find? fun f => f.name = name

theorem find?_insert (f : Format) (gs : List Format) (name : String) :
    (insert f gs).find? (fun g => g.name = name) =
      if f.name = name then some f else gs.find? fun g => g.name = name := by
  induction gs with
  | nil => by_cases h : f.name = name <;> simp [insert, h]
  | cons g gs ih =>
    rw [insert]
    split
    · next heq => by_cases h : g.name = name <;> simp [heq, h]
    · next hne =>
      split
      · by_cases h : f.name = name <;> simp [List.find?_cons, h]
      · rw [List.find?_cons, List.find?_cons, ih]
        by_cases h : f.name = name
        · simp [show g.name ≠ name from fun hg => hne (h.trans hg.symm), h]
        · simp [h]

/-- The last format registered under a name is found under it, and no other name is affected. -/
@[simp] theorem get?_register (r : Registry) (f : Format) (name : String) :
    (r.register f).get? name = if f.name = name then some f else r.get? name :=
  find?_insert f r.formats name

/-- The format of a name. -/
def get (r : Registry) (name : String) : Except Error Format :=
  match r.get? name with
  | some f => .ok f
  | none => .error (.formatNotFound name)

/-- Whether there is a format of a name. -/
def has (r : Registry) (name : String) : Bool :=
  (r.get? name).isSome

/-- The names of the formats in increasing order. -/
def names (r : Registry) : List String :=
  r.formats.map Format.name

/-- An extension in the form in which extensions are looked up: without dots in front, in lower
case. -/
def normalizeExtension (extension : String) : String :=
  String.ofList (Text.toLower (extension.toList.dropWhile (· == '.')))

/-- The format of the least name that claims an extension. -/
def forExtension? (r : Registry) (extension : String) : Option Format :=
  r.formats.find? fun f => f.extensions.contains (normalizeExtension extension)

/-! ### Conversion -/

/-- The document that octets stand for in a format. -/
def parse (r : Registry) (bytes : List UInt8) (name : String) : Except Error Document := do
  (← r.get name).read bytes

/-- The octets that stand for a document in a format. -/
def serialize (r : Registry) (d : Document) (name : String) : Except Error (List UInt8) := do
  (← r.get name).write d

/-- Octets of one format converted to another.  Both formats are looked up before anything is read.
-/
def convert (r : Registry) (bytes : List UInt8) (source target : String) :
    Except Error (List UInt8) := do
  let f ← r.get source
  let g ← r.get target
  g.write (← f.read bytes)

end Registry

end Interdoc
