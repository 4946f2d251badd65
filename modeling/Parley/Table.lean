/-
  Parley.Table

  A table from names to entries, kept strictly ascending by name. Names are compared
  by code point, which is also the order of their UTF-8 bytes. Variable scopes,
  inventories, script metadata and the sprites of a view are tables, so each of them
  has one written form.
-/

namespace Parley

variable {α : Type}

namespace Table

/-- Sorted insertion that replaces an entry of the same name. -/
def put (name : String) (a : α) : List (String × α) → List (String × α)
  | [] => [(name, a)]
  | (k, b) :: rest =>
    if name < k then (name, a) :: (k, b) :: rest
    else if name = k then (name, a) :: rest
    else (k, b) :: put name a rest

/-- The first entry under a name. -/
def find (name : String) : List (String × α) → Option α
  | [] => none
  | (k, b) :: rest => if k = name then some b else find name rest

/-- Strictly ascending by name; in particular no name occurs twice. -/
abbrev Ordered (l : List (String × α)) : Prop := l.Pairwise (fun x y => x.1 < y.1)

theorem mem_put {name : String} {a : α} {x : String × α} {l : List (String × α)}
    (h : x ∈ put name a l) : x = (name, a) ∨ x ∈ l := by
  induction l with
  | nil => simpa [put] using h
  | cons e rest ih =>
    obtain ⟨k, b⟩ := e
    rw [put] at h
    split at h
    · simpa using h
    · split at h <;> simp only [List.mem_cons] at h ⊢
      · rcases h with h | h <;> simp [h]
      · rcases h with h | h
        · simp [h]
        · rcases ih h with h | h <;> simp [h]

theorem ordered_put (name : String) (a : α) {l : List (String × α)} (h : Ordered l) :
    Ordered (put name a l) := by
  induction l with
  | nil => simp [put]
  | cons e rest ih =>
    obtain ⟨k, b⟩ := e
    obtain ⟨hk, hrest⟩ := List.pairwise_cons.1 h
    rw [put]
    split
    · rename_i hlt
      refine List.pairwise_cons.2 ⟨fun x hx => ?_, h⟩
      rcases List.mem_cons.1 hx with rfl | hx
      · exact hlt
      · exact String.lt_trans hlt (hk x hx)
    · split
      · rename_i heq
        subst heq
        exact List.pairwise_cons.2 ⟨hk, hrest⟩
      · rename_i hnlt hne
        refine List.pairwise_cons.2 ⟨fun x hx => ?_, ih hrest⟩
        rcases mem_put hx with rfl | hx
        · exact Std.lt_of_le_of_ne hnlt (Ne.symm hne)
        · exact hk x hx

end Table

/-- Entries under names, strictly ascending by name. -/
structure Table (α : Type) where
  entries : List (String × α)
  ordered : Table.Ordered entries

namespace Table

/-- The table without entries. -/
def empty : Table α := ⟨[], List.Pairwise.nil⟩

instance : EmptyCollection (Table α) := ⟨empty⟩
instance : Inhabited (Table α) := ⟨empty⟩

instance [BEq α] : BEq (Table α) where
  beq s t := s.entries == t.entries

/-- Sets the entry under a name, which may be new. -/
def insert (t : Table α) (name : String) (a : α) : Table α :=
  ⟨put name a t.entries, ordered_put name a t.ordered⟩

/-- The entry under a name; a name without entry reads as absent. -/
def get? (t : Table α) (name : String) : Option α := find name t.entries

def contains (t : Table α) (name : String) : Bool := (t.get? name).isSome

def size (t : Table α) : Nat := t.entries.length

def isEmpty (t : Table α) : Bool := t.entries.isEmpty

def names (t : Table α) : List String := t.entries.map (·.1)

/-- Enters the pairs in order, so of two pairs with one name the later one stays. -/
def ofList (l : List (String × α)) : Table α :=
  l.foldl (fun t e => t.insert e.1 e.2) empty

/-! ### Reading after writing -/

theorem find_put_self (name : String) (a : α) (l : List (String × α)) :
    find name (put name a l) = some a := by
  induction l with
  | nil => simp [put, find]
  | cons e rest ih =>
    obtain ⟨k, b⟩ := e
    rw [put]
    split
    · simp [find]
    · split
      · simp [find]
      · rename_i hne
        simp [find, Ne.symm hne, ih]

theorem find_put_of_ne {name other : String} (h : other ≠ name) (a : α)
    (l : List (String × α)) : find other (put name a l) = find other l := by
  induction l with
  | nil => simp [put, find, Ne.symm h]
  | cons e rest ih =>
    obtain ⟨k, b⟩ := e
    rw [put]
    split
    · simp [find, Ne.symm h]
    · split
      · rename_i heq
        subst heq
        simp [find, Ne.symm h]
      · by_cases hk : k = other <;> simp [find, hk, ih]

@[simp] theorem get?_empty (name : String) : (empty : Table α).get? name = none := rfl

@[simp] theorem get?_insert_self (t : Table α) (name : String) (a : α) :
    (t.insert name a).get? name = some a := find_put_self name a t.entries

theorem get?_insert_of_ne (t : Table α) {name other : String} (h : other ≠ name) (a : α) :
    (t.insert name a).get? other = t.get? other := find_put_of_ne h a t.entries

end Table

end Parley
