import SubnetRegistry.Json.Value
import SubnetRegistry.Proofs.Json.Tree

/-!
# Trees of values

What a value is to a reader, if its integers fit 64 bits.

## Main definitions

* `Value.tree` — the tree of a value.
* `Value.Narrow` — values whose integers fit 64 bits.
-/
namespace SubnetRegistry.Json

mutual

def Value.tree : Value → Tree
  | .null => .null
  | .boolean b => .boolean b
  | .integer n => .number (.ok (.integer n))
  | .text s => .text (.ok s)
  | .array items => .array (Value.itemTrees items)
  | .object members => .object (Value.memberTrees members)

def Value.itemTrees : List Value → List Tree
  | [] => []
  | v :: rest => v.tree :: Value.itemTrees rest

def Value.memberTrees : List (String × Value) → List (Except Fault String × Tree)
  | [] => []
  | (key, v) :: rest => (.ok key, v.tree) :: Value.memberTrees rest

end

mutual

/-- Values whose integers fit 64 bits, unsigned or signed. -/
def Value.Narrow : Value → Prop
  | .null | .boolean _ | .text _ => True
  | .integer n => -0x8000000000000000 ≤ n ∧ n < 0x10000000000000000
  | .array items => Value.NarrowItems items
  | .object members => Value.NarrowMembers members

def Value.NarrowItems : List Value → Prop
  | [] => True
  | v :: rest => v.Narrow ∧ Value.NarrowItems rest

def Value.NarrowMembers : List (String × Value) → Prop
  | [] => True
  | (_, v) :: rest => v.Narrow ∧ Value.NarrowMembers rest

end

theorem Value.itemTrees_map {α : Type} (f : α → Value) (as : List α) :
    Value.itemTrees (as.map f) = as.map fun a => (f a).tree := by
  induction as with
  | nil => rfl
  | cons a as ih => rw [List.map_cons, List.map_cons, Value.itemTrees, ih]

theorem Value.narrowItems_map {α : Type} {f : α → Value} {as : List α}
    (h : ∀ a ∈ as, (f a).Narrow) : Value.NarrowItems (as.map f) := by
  induction as with
  | nil => trivial
  | cons a as ih => exact ⟨h a (by simp), ih fun b hb => h b (List.mem_cons_of_mem _ hb)⟩

theorem Value.narrowMembers_append {ms ns : List (String × Value)} (hm : Value.NarrowMembers ms)
    (hn : Value.NarrowMembers ns) : Value.NarrowMembers (ms ++ ns) := by
  induction ms with
  | nil => exact hn
  | cons m ms ih => exact ⟨hm.1, ih hm.2⟩

theorem Value.itemsChars_cons_cons (v w : Value) (items : List Value) :
    Value.itemsChars (v :: w :: items) = v.chars ++ ',' :: Value.itemsChars (w :: items) :=
  Value.itemsChars.eq_3 _ _ (List.cons_ne_nil _ _)

theorem Value.membersChars_cons_cons (key : String) (v : Value) (m : String × Value)
    (members : List (String × Value)) :
    Value.membersChars ((key, v) :: m :: members) =
      Quoted.quote key ++ ':' :: v.chars ++ ',' :: Value.membersChars (m :: members) :=
  Value.membersChars.eq_3 _ _ _ (List.cons_ne_nil _ _)

end SubnetRegistry.Json
