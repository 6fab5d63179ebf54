import SubnetRegistry.Subnet

/-!
# The store

A store maps names to subnets. It is an association list in which no name occurs twice; names are not
checked. `get?` is the view through which everything else about a store is said.

## Main definitions

* `Store`, `Store.get?`, `Store.put`, `Store.delete`, `Store.size` — the store and its operations.
* `Store.step` — a use of the store, with its reply.

## Main statements

* `get?_put`, `get?_delete` — what each operation does to the view.
-/
namespace SubnetRegistry

/-- A finite map from names to subnets. -/
structure Store where
  entries : List (String × Subnet)
  nodup : (entries.map Prod.fst).Nodup

namespace Store

def empty : Store := ⟨[], List.nodup_nil⟩

def get? (s : Store) (name : String) : Option Subnet := s.entries.lookup name

def contains (s : Store) (name : String) : Bool := (s.get? name).isSome

def size (s : Store) : Nat := s.entries.length

/-- The entries with the one of a name replaced or, if there is none, added at the end. -/
def insertEntry (name : String) (subnet : Subnet) : List (String × Subnet) → List (String × Subnet)
  | [] => [(name, subnet)]
  | (key, value) :: rest =>
    if key = name then (name, subnet) :: rest else (key, value) :: insertEntry name subnet rest

def eraseEntry (name : String) (entries : List (String × Subnet)) : List (String × Subnet) :=
  entries.filter fun e => e.1 != name

theorem mem_keys_insertEntry (name key : String) (subnet : Subnet) (es : List (String × Subnet)) :
    key ∈ (insertEntry name subnet es).map Prod.fst ↔ key = name ∨ key ∈ es.map Prod.fst := by
  induction es with
  | nil => simp [insertEntry]
  | cons e es ih =>
    obtain ⟨k, v⟩ := e
    by_cases h : k = name
    · subst h; simp [insertEntry]
    · simp only [insertEntry, h, if_false, List.map_cons, List.mem_cons, ih]
      grind

theorem nodup_insertEntry (name : String) (subnet : Subnet) {es : List (String × Subnet)}
    (h : (es.map Prod.fst).Nodup) : ((insertEntry name subnet es).map Prod.fst).Nodup := by
  induction es with
  | nil => simp [insertEntry]
  | cons e es ih =>
    obtain ⟨k, v⟩ := e
    simp only [List.map_cons, List.nodup_cons] at h
    by_cases hk : k = name
    · subst hk
      simpa [insertEntry] using h
    · simp only [insertEntry, hk, if_false, List.map_cons, List.nodup_cons]
      refine ⟨fun hm => ?_, ih h.2⟩
      rcases (mem_keys_insertEntry name k subnet es).1 hm with rfl | hm
      · exact hk rfl
      · exact h.1 hm

theorem nodup_eraseEntry (name : String) {es : List (String × Subnet)}
    (h : (es.map Prod.fst).Nodup) : ((eraseEntry name es).map Prod.fst).Nodup :=
  h.sublist (List.filter_sublist.map _)

def put (s : Store) (name : String) (subnet : Subnet) : Store :=
  ⟨insertEntry name subnet s.entries, nodup_insertEntry name subnet s.nodup⟩

def delete (s : Store) (name : String) : Store :=
  ⟨eraseEntry name s.entries, nodup_eraseEntry name s.nodup⟩

/-- The store of a list of entries, of which a later one replaces an earlier one of its name. -/
def ofSeed (seed : List (String × Subnet)) : Store :=
  seed.foldl (fun s e => s.put e.1 e.2) empty

inductive Step where
  | get (name : String)
  | put (name : String) (subnet : Subnet)
  | delete (name : String)
  | contains (name : String)
  | size
  deriving DecidableEq, Repr

inductive Reply where
  | found (subnet : Option Subnet)
  | done
  | present (b : Bool)
  | count (n : Nat)
  deriving DecidableEq, Repr

/-- The reply to a step and the store after it. A deletion tells whether there was something. -/
def step (s : Store) : Step → Reply × Store
  | .get name => (.found (s.get? name), s)
  | .put name subnet => (.done, s.put name subnet)
  | .delete name => (.present (s.contains name), s.delete name)
  | .contains name => (.present (s.contains name), s)
  | .size => (.count s.size, s)

/-! ## The view -/

@[simp] theorem get?_empty (name : String) : empty.get? name = none := rfl

theorem lookup_cons_eq (k key : String) (v : Subnet) (es : List (String × Subnet)) :
    ((k, v) :: es).lookup key = if key = k then some v else es.lookup key := by
  rw [List.lookup_cons]
  by_cases h : key = k
  · simp [h]
  · simp [beq_false_of_ne h, h]

theorem lookup_insertEntry (name key : String) (subnet : Subnet) (es : List (String × Subnet)) :
    (insertEntry name subnet es).lookup key =
      if key = name then some subnet else es.lookup key := by
  induction es with
  | nil => simp [insertEntry, lookup_cons_eq]
  | cons e es ih =>
    obtain ⟨k, v⟩ := e
    by_cases hk : k = name
    · simp only [insertEntry, hk, if_true, lookup_cons_eq]
      split <;> rfl
    · simp only [insertEntry, hk, if_false, lookup_cons_eq, ih]
      split
      · next h => simp [h, hk]
      · rfl

theorem lookup_eraseEntry (name key : String) (es : List (String × Subnet)) :
    (eraseEntry name es).lookup key = if key = name then none else es.lookup key := by
  induction es with
  | nil => simp [eraseEntry]
  | cons e es ih =>
    obtain ⟨k, v⟩ := e
    simp only [eraseEntry] at ih
    by_cases hk : k = name
    · simp only [eraseEntry, hk, bne_self_eq_false, Bool.false_eq_true, not_false_eq_true,
        List.filter_cons_of_neg, ih, lookup_cons_eq]
      split <;> rfl
    · have : (k != name) = true := by simpa using hk
      simp only [eraseEntry, this, List.filter_cons_of_pos, lookup_cons_eq, ih]
      split
      · next h => simp [h, hk]
      · rfl

@[simp] theorem get?_put (s : Store) (name key : String) (subnet : Subnet) :
    (s.put name subnet).get? key = if key = name then some subnet else s.get? key :=
  lookup_insertEntry name key subnet s.entries

@[simp] theorem get?_delete (s : Store) (name key : String) :
    (s.delete name).get? key = if key = name then none else s.get? key :=
  lookup_eraseEntry name key s.entries

end Store
end SubnetRegistry
