import SubnetRegistry.Proofs.Wire.Integers
import SubnetRegistry.Proofs.Wire.Response

/-!
# Replies that are alike

A reply is read in two steps. What the first sets aside of two replies that are alike is alike, and the
first fails on the second reply only if the number that is swapped in it cannot be read at all. So a reply
with a subnet is read with another integer in the subnet just as the subnet alone is.

## Main definitions

* `Response.Sought.Alike` — what has been read of replies that are alike.

## Main statements

* `Response.Sought.foldlM_alike`, `Response.split_alike` — the first step.
* `Response.tracks` — a reply with a subnet in which the number is swapped.
-/
namespace SubnetRegistry

open Json (Node Member Key Ending Origin Shape Fault Step Swap Number Keeps Tracks Again Yields)

variable {w : Swap} {n k : Nat} {z : Int} {fits : Prop}

/-! ## Parts of any shape -/

/-- The number in the place of the swapped one can be read. -/
def Json.Swap.Readable (w : Swap) : Prop := ∃ number, w.read = .ok number

mutual

/-- A part that passes passes again if the number that is swapped in it can be read. -/
theorem Json.Node.Alike.check (hw : w.Readable) : {n : Nat} → {node node' : Node} → node.Alike w n node' →
    ∀ room, Again (node.check room) (node'.check room)
  | _, _, _, .null .., _ | _, _, _, .boolean .., _ => by
    rw [Node.check, Node.check]
    exact .refl _
  | _, _, _, .number _ _ _ _ h, _ => by
    rw [Node.check, Node.check]
    exact Again.map h _
  | _, _, _, .swapped .., _ => by
    obtain ⟨number, hnumber⟩ := hw
    rw [Node.check, Node.check, hnumber]
    exact fun _ _ => rfl
  | _, _, _, .text _ _ _ _ h _, _ => by
    rw [Node.check, Node.check]
    exact Again.map h _
  | _, _, _, .array .., 0 | _, _, _, .object .., 0 => by
    rw [Node.check, Node.check]
    exact Json.again_error _
  | _, _, _, .array _ _ h hending, room + 1 => by
    rw [Node.check, Node.check]
    refine Again.bind (Json.Node.AlikeItems.check hw h room) fun _ _ () hpass => ?_
    obtain ⟨stop, hstop, -⟩ := exists_of_bind_eq_ok hpass
    obtain ⟨stop', hstop'⟩ := Ending.readArray_again hending hstop
    exact bind_of_eq_ok hstop' _
  | _, _, _, .object _ _ h hending, room + 1 => by
    rw [Node.check, Node.check]
    refine Again.bind (Json.Member.AlikeAll.check hw h room) fun _ _ () hpass => ?_
    obtain ⟨stop, hstop, -⟩ := exists_of_bind_eq_ok hpass
    obtain ⟨stop', hstop'⟩ := Ending.readObject_again hending hstop
    exact bind_of_eq_ok hstop' _
  | _, _, _, .broken .., _ | _, _, _, .absent .., _ => by
    rw [Node.check, Node.check]
    exact Json.again_error _

theorem Json.Node.AlikeItems.check (hw : w.Readable) : {n : Nat} → {items items' : List Node} →
    Node.AlikeItems w n items items' → ∀ room,
      Again (Node.checkItems items room) (Node.checkItems items' room)
  | _, _, _, .nil, _ => .refl _
  | _, _, _, .cons h hs _, room => by
    rw [Node.checkItems, Node.checkItems]
    exact (Json.Node.Alike.check hw h room).bind fun _ _ => Json.Node.AlikeItems.check hw hs room

theorem Json.Member.AlikeAll.check (hw : w.Readable) : {n : Nat} → {members members' : List Member} →
    Member.AlikeAll w n members members' → ∀ room,
      Again (Node.checkMembers members room) (Node.checkMembers members' room)
  | _, _, _, .nil, _ => .refl _
  | _, _, _, .cons _ _ hkey h hs _, room => by
    rw [Node.checkMembers, Node.checkMembers, Member.check, Member.check]
    refine Again.bind ?_ fun _ _ => Json.Member.AlikeAll.check hw hs room
    exact hkey.read.bind fun _ _ => hkey.colon.bind fun _ _ => Json.Node.Alike.check hw h room

end

/-! ## The first step -/

namespace Response

theorem Variant.ofNode_eq_ok_iff {node : Node} {v : Variant} : Variant.ofNode node = .ok v ↔
    ∃ name skip start stop, node = .text (.ok name) skip start stop ∧
      all.find? (fun v => v.text == name) = some v := by
  constructor
  · intro h
    cases node with
    | text read skip start stop =>
      obtain ⟨name, rfl, hv⟩ := exists_of_bind_eq_ok h
      split at hv
      · next hfind =>
        cases hv
        exact ⟨name, skip, start, stop, rfl, hfind⟩
      · cases hv
    | null | boolean | number | array | object | broken | absent => cases h
  · rintro ⟨name, skip, start, stop, rfl, hfind⟩
    simp only [Variant.ofNode, bind, Except.bind, hfind]
    rfl

/-- The name of a variant holds no number. -/
theorem Variant.ofNode_again {node node' : Node} {v : Variant} (h : node.Alike w k node')
    (hv : Variant.ofNode node = .ok v) : k = 0 ∧ Variant.ofNode node' = .ok v := by
  obtain ⟨name, skip, start, stop, rfl, hfind⟩ := Variant.ofNode_eq_ok_iff.1 hv
  cases h with
  | text _ _ _ _ hread =>
    rw [hread name rfl]
    exact ⟨rfl, Variant.ofNode_eq_ok_iff.2 ⟨name, _, _, _, rfl, hfind⟩⟩

/-- A member is added as the tag, where there was none, or as another member that passes. -/
theorem Sought.add_eq_ok_iff {s t : Sought} {m : Member} : s.add m = .ok t ↔
    ∃ name, m.key.read = .ok name ∧ m.key.colon = .ok () ∧
      (name = tag ∧ s.variant = none ∧ (∃ v, Variant.ofNode m.value = .ok v ∧
          t = { s with variant := some v }) ∨
        name ≠ tag ∧ m.value.check room = .ok () ∧ t = { s with others := m :: s.others }) := by
  constructor
  · intro h
    obtain ⟨name, hname, h⟩ := exists_of_bind_eq_ok h
    refine ⟨name, hname, ?_⟩
    by_cases htag : name = tag
    · rw [if_pos htag] at h
      by_cases hvariant : s.variant.isSome = true
      · rw [if_pos hvariant] at h
        cases h
      · rw [if_neg hvariant] at h
        obtain ⟨⟨⟩, hcolon, h⟩ := exists_of_bind_eq_ok h
        obtain ⟨v, hv, h⟩ := exists_of_bind_eq_ok h
        have hnone := Option.not_isSome_iff_eq_none.1 hvariant
        exact ⟨hcolon, .inl ⟨htag, hnone, v, hv, (Except.ok.inj h).symm⟩⟩
    · rw [if_neg htag] at h
      obtain ⟨⟨⟩, hcolon, h⟩ := exists_of_bind_eq_ok h
      obtain ⟨⟨⟩, hcheck, h⟩ := exists_of_bind_eq_ok h
      exact ⟨hcolon, .inr ⟨htag, hcheck, (Except.ok.inj h).symm⟩⟩
  · rintro ⟨name, hname, hcolon, ⟨htag, hnone, v, hv, rfl⟩ | ⟨htag, hcheck, rfl⟩⟩
    · rw [add, bind_of_eq_ok hname]
      simp only [if_pos htag, hnone, bind_of_eq_ok hcolon, bind_of_eq_ok hv]
      rfl
    · rw [add, bind_of_eq_ok hname]
      simp only [if_neg htag, bind_of_eq_ok hcolon, bind_of_eq_ok hcheck]
      rfl

/-- What has been read of two replies that are alike. -/
structure Sought.Alike (w : Swap) (n : Nat) (s s' : Sought) : Prop where
  variant : s.variant = s'.variant
  others : Member.AlikeAll w n s.others s'.others

namespace Sought

variable {s s' t t' : Sought} {key key' : Key} {value value' : Node} {next next' : Nat}

theorem add_alike (hs : Sought.Alike w n s s') (hkey : key.Alike key')
    (hvalue : value.Alike w k value') (hadd : s.add (.mk key value next) = .ok t)
    (hadd' : s'.add (.mk key' value' next') = .ok t') : Sought.Alike w (k + n) t t' := by
  obtain ⟨name, hname, -, h⟩ := add_eq_ok_iff.1 hadd
  obtain ⟨name', hname', -, h'⟩ := add_eq_ok_iff.1 hadd'
  obtain rfl : name = name' := Except.ok.inj ((hkey.read name hname).symm.trans hname')
  obtain ⟨htag, -, v, hv, rfl⟩ | ⟨htag, -, rfl⟩ := h
  · obtain ⟨rfl, hagain⟩ := Variant.ofNode_again hvalue hv
    obtain ⟨-, -, v', hv', rfl⟩ | ⟨hne, -⟩ := h'
    · obtain rfl : v = v' := Except.ok.inj (hagain.symm.trans hv')
      exact ⟨rfl, (Nat.zero_add n).symm ▸ hs.others⟩
    · exact absurd htag hne
  · obtain ⟨htag', -⟩ | ⟨-, -, rfl⟩ := h'
    · exact absurd htag' htag
    · exact ⟨hs.variant, .cons next next' hkey hvalue hs.others rfl⟩

theorem exists_add (hw : w.Readable) (hs : Sought.Alike w n s s') (hkey : key.Alike key')
    (hvalue : value.Alike w k value') (hadd : s.add (.mk key value next) = .ok t) (next' : Nat) :
    ∃ t', s'.add (.mk key' value' next') = .ok t' := by
  obtain ⟨name, hname, hcolon, h⟩ := add_eq_ok_iff.1 hadd
  obtain ⟨htag, hnone, v, hv, -⟩ | ⟨htag, hcheck, -⟩ := h
  · exact ⟨_, add_eq_ok_iff.2 ⟨name, hkey.read name hname, hkey.colon () hcolon,
      .inl ⟨htag, hs.variant ▸ hnone, v, (Variant.ofNode_again hvalue hv).2, rfl⟩⟩⟩
  · exact ⟨_, add_eq_ok_iff.2 ⟨name, hkey.read name hname, hkey.colon () hcolon,
      .inr ⟨htag, Json.Node.Alike.check hw hvalue room () hcheck, rfl⟩⟩⟩

/-- What is read of replies that are alike is alike, and the second is read if its number can be. -/
theorem foldlM_alike {ms ms' : List Member} (h : Member.AlikeAll w k ms ms')
    (hs : Sought.Alike w n s s') (hfold : ms.foldlM Sought.add s = .ok t) :
    (∀ t', ms'.foldlM Sought.add s' = .ok t' → Sought.Alike w (k + n) t t') ∧
      (w.Readable → ∃ t', ms'.foldlM Sought.add s' = .ok t') := by
  induction ms generalizing ms' k n s s' with
  | nil =>
    cases h
    cases hfold
    refine ⟨fun t' hfold' => ?_, fun _ => ⟨s', rfl⟩⟩
    cases hfold'
    exact (Nat.zero_add n).symm ▸ hs
  | cons m ms ih =>
    cases h with
    | @cons _ i j key key' value value' _ ms' next next' hkey hvalue hms hn =>
      rw [List.foldlM_cons] at hfold
      rw [List.foldlM_cons]
      obtain ⟨added, hadd, hfold⟩ := exists_of_bind_eq_ok hfold
      constructor
      · intro t' hfold'
        obtain ⟨added', hadd', hfold'⟩ := exists_of_bind_eq_ok hfold'
        have hrest := (ih hms (add_alike hs hkey hvalue hadd hadd') hfold).1 t' hfold'
        rwa [hn, Nat.add_comm i j, Nat.add_assoc]
      · intro hw
        obtain ⟨added', hadd'⟩ := exists_add hw hs hkey hvalue hadd next'
        rw [bind_of_eq_ok hadd']
        exact (ih hms (add_alike hs hkey hvalue hadd hadd') hfold).2 hw

/-- A member other than the tag is set aside. -/
theorem find?_others {ms : List Member} (hfold : ms.foldlM Sought.add s = .ok t) {name : String}
    (hname : name ≠ tag) : t.others.reverse.find? (·.key.isName name) =
      (s.others.reverse.find? (·.key.isName name)).or (ms.find? (·.key.isName name)) := by
  induction ms generalizing s with
  | nil =>
    cases hfold
    simp
  | cons m ms ih =>
    rw [List.foldlM_cons] at hfold
    obtain ⟨added, hadd, hfold⟩ := exists_of_bind_eq_ok hfold
    rw [ih hfold]
    obtain ⟨own, hown, -, ⟨htag, -, v, -, rfl⟩ | ⟨-, -, rfl⟩⟩ := add_eq_ok_iff.1 hadd
    · have hmiss : m.key.isName name = false := by
        rw [Bool.eq_false_iff, Ne, Json.Key.isName_iff, hown, htag]
        exact fun h => hname (Except.ok.inj h).symm
      rw [List.find?_cons, hmiss]
    · rw [List.reverse_cons, List.find?_append, Option.or_assoc, List.find?_cons, List.find?_nil]
      congr 1
      rw [List.find?_cons]
      cases m.key.isName name <;> rfl

end Sought

variable {v : Variant} {rest : Node}

theorem split_object_eq_ok_iff {members : List Member} {ending : Ending} {start : Nat} :
    split (.object members ending start) = .ok (v, rest) ↔
      ∃ others stop, members.foldlM Sought.add ⟨none, []⟩ = .ok ⟨some v, others⟩ ∧
        ending.readObject = .ok stop ∧ rest = .object others.reverse ending start := by
  constructor
  · intro h
    obtain ⟨⟨variant, others⟩, hfold, h⟩ := exists_of_bind_eq_ok h
    obtain ⟨stop, hstop, h⟩ := exists_of_bind_eq_ok h
    cases variant <;> cases h
    exact ⟨others, stop, hfold, hstop, rfl⟩
  · rintro ⟨others, stop, hfold, hstop, rfl⟩
    exact (bind_of_eq_ok hfold _).trans (bind_of_eq_ok hstop _)

theorem split_array_eq_ok_iff {items : List Node} {ending : Ending} {start : Nat} :
    split (.array items ending start) = .ok (v, rest) ↔
      ∃ first items' stop, items = first :: items' ∧ Variant.ofNode first = .ok v ∧
        Node.checkItems items' room = .ok () ∧ ending.readArray = .ok stop ∧
        rest = .array items' ending start := by
  constructor
  · intro h
    cases items with
    | nil =>
      obtain ⟨stop, -, h⟩ := exists_of_bind_eq_ok h
      cases h
    | cons first items =>
      obtain ⟨v, hv, h⟩ := exists_of_bind_eq_ok h
      obtain ⟨⟨⟩, hcheck, h⟩ := exists_of_bind_eq_ok h
      obtain ⟨stop, hstop, h⟩ := exists_of_bind_eq_ok h
      cases h
      exact ⟨first, items, stop, rfl, hv, hcheck, hstop, rfl⟩
  · rintro ⟨first, items, stop, rfl, hv, hcheck, hstop, rfl⟩
    exact (bind_of_eq_ok hv _).trans ((bind_of_eq_ok hcheck _).trans (bind_of_eq_ok hstop _))

/-- What is set aside of replies that are alike is alike, and the second is split if its number can be
read. -/
theorem split_alike {node node' : Node} (h : node.Alike w n node') (hsplit : split node = .ok (v, rest)) :
    (∀ v' rest', split node' = .ok (v', rest') → v = v' ∧ rest.Alike w n rest') ∧
      (w.Readable → ∃ v' rest', split node' = .ok (v', rest')) := by
  cases h with
  | object start start' hmembers hending =>
    obtain ⟨others, stop, hfold, hstop, rfl⟩ := split_object_eq_ok_iff.1 hsplit
    obtain ⟨halike, hexists⟩ := Sought.foldlM_alike hmembers ⟨rfl, .nil⟩ hfold
    constructor
    · intro v' rest' hsplit'
      obtain ⟨others', stop', hfold', -, rfl⟩ := split_object_eq_ok_iff.1 hsplit'
      obtain ⟨hvariant, hothers⟩ := halike _ hfold'
      exact ⟨Option.some.inj hvariant, .object start start' hothers.reverse hending⟩
    · intro hw
      obtain ⟨⟨variant', others'⟩, hfold'⟩ := hexists hw
      obtain ⟨stop', hstop'⟩ := Ending.readObject_again hending hstop
      obtain rfl : some v = variant' := (halike _ hfold').variant
      exact ⟨v, _, split_object_eq_ok_iff.2 ⟨others', stop', hfold', hstop', rfl⟩⟩
  | array start start' hitems hending =>
    obtain ⟨first, items, stop, rfl, hv, hcheck, hstop, rfl⟩ := split_array_eq_ok_iff.1 hsplit
    cases hitems with
    | cons hfirst hitems hn =>
      obtain ⟨rfl, hv'⟩ := Variant.ofNode_again hfirst hv
      rw [Nat.zero_add] at hn
      subst hn
      constructor
      · intro v' rest' hsplit'
        obtain ⟨first', items', stop', hcons, hsame, -, -, rfl⟩ := split_array_eq_ok_iff.1 hsplit'
        obtain ⟨rfl, rfl⟩ := List.cons.inj hcons
        exact ⟨Except.ok.inj (hv'.symm.trans hsame), .array start start' hitems hending⟩
      · intro hw
        obtain ⟨stop', hstop'⟩ := Ending.readArray_again hending hstop
        exact ⟨v, _, split_array_eq_ok_iff.2 ⟨_, _, stop', rfl, hv',
          Json.Node.AlikeItems.check hw hitems room () hcheck, hstop', rfl⟩⟩
  | null | boolean | number | swapped | text | broken | absent => cases hsplit

/-- Steps into a reply lead on into what is set aside, where the tag is no more. -/
theorem leads_of_split {node : Node} (hsplit : split node = .ok (v, rest)) {name : String}
    (hname : name ≠ tag) {index : Nat} {path : List Step}
    (hpath : node.Leads w (.field name (index + 1) :: path)) :
    rest.Leads w (.field name index :: path) := by
  obtain ⟨part, hpart, hlast⟩ := Node.leads_cons_iff.1 hpath
  refine Node.leads_cons_iff.2 ⟨part, ?_, hlast⟩
  cases node with
  | object members ending start =>
    obtain ⟨others, stop, hfold, -, rfl⟩ := split_object_eq_ok_iff.1 hsplit
    obtain ⟨m, hm, rfl⟩ := Option.map_eq_some_iff.1 hpart
    have hfind := Sought.find?_others hfold hname
    exact congrArg (Option.map Member.value) (hfind.trans hm)
  | array items ending start =>
    obtain ⟨first, items, stop, rfl, -, -, -, rfl⟩ := split_array_eq_ok_iff.1 hsplit
    exact hpart
  | null | boolean | number | text | broken | absent => cases hpart

/-! ## Both steps -/

/-- Reads the subnet of a reply from what was set aside. -/
def keptSubnet (node : Node) : Except Fault Subnet := do
  let get ← subnetShape.read? .kept node
  get .subnet

theorem ofKept_subnet_eq (node : Node) : ofKept .subnet node = .subnet <$> keptSubnet node := by
  rw [ofKept, keptSubnet]
  cases subnetShape.read? .kept node with
  | error fault => rfl
  | ok get =>
    show (do return Response.subnet (← get .subnet)) = Response.subnet <$> get .subnet
    cases get .subnet <;> rfl

theorem keptSubnet_reads : subnetShape.Reads .kept keptSubnet SubnetField.of where
  ok_iff {node s} := by
    constructor
    · intro h
      obtain ⟨get, hread, h⟩ := exists_of_bind_eq_ok h
      exact ⟨get, hread, fun | .subnet => h⟩
    · rintro ⟨get, hread, hget⟩
      exact (bind_of_eq_ok hread _).trans (hget .subnet)

theorem subnetShape_regular : subnetShape.Regular := ⟨fun | .subnet => rfl, by decide⟩

section

variable {path : List Step} {put : Subnet → Subnet} {get? : Subnet → Option Int}

theorem keptSubnet_tracks (h : Tracks w z fits (Subnet.ofNode .kept) path put get?) :
    Tracks w z fits keptSubnet (.field "subnet" 0 :: path) put get? := by
  refine keptSubnet_reads.tracks (f := .subnet) subnetShape_regular ?_ h fun _ => ?_
  · exact fun | .subnet => (Subnet.rereads .kept).keeps
  · exact funext fun | .subnet => rfl

theorem variant_of_ofKept {s : Subnet} (h : ofKept v rest = .ok (.subnet s)) : v = .subnet := by
  cases v with
  | subnet => rfl
  | empty =>
    cases rest with
    | array items => cases items <;> cases h
    | null | boolean | number | text | object | broken | absent => cases h
  | error =>
    obtain ⟨get, -, h⟩ := exists_of_bind_eq_ok h
    obtain ⟨kind, -, h⟩ := exists_of_bind_eq_ok h
    obtain ⟨message, -, h⟩ := exists_of_bind_eq_ok h
    cases h
  | invalidRequest =>
    obtain ⟨get, -, h⟩ := exists_of_bind_eq_ok h
    obtain ⟨message, -, h⟩ := exists_of_bind_eq_ok h
    cases h

/-- A reply with a subnet in which the number is swapped is read as the subnet is. -/
theorem tracks (h : Tracks w z fits (Subnet.ofNode .kept) path put get?) (hw : fits → w.Readable)
    {node node' : Node} {s : Subnet} (halike : node.Alike w 1 node')
    (hpath : node.Leads w (.field "subnet" 1 :: path)) (hs : ofNode node = .ok (.subnet s)) :
    (fits → get? (put s) = some z) ∧ Yields fits (ofNode node') (.subnet (put s)) := by
  obtain ⟨⟨v, rest⟩, hsplit, hs⟩ := exists_of_bind_eq_ok hs
  have hofKept := eq_ok_of_mapError_eq_ok hs
  obtain rfl := variant_of_ofKept hofKept
  rw [ofKept_subnet_eq] at hofKept
  obtain ⟨_, hkept, hsame⟩ := exists_of_map_eq_ok hofKept
  cases hsame
  have hlast := leads_of_split hsplit (by decide) hpath
  obtain ⟨halike, hexists⟩ := split_alike halike hsplit
  cases hsplit' : split node' with
  | error fault =>
    have hfits : ¬fits := by
      intro hfits
      obtain ⟨v', rest', hok⟩ := hexists (hw hfits)
      cases hsplit'.symm.trans hok
    exact ⟨fun h => absurd h hfits, fun h => absurd h hfits, fun _ => ⟨fault, bind_of_eq_error hsplit' _⟩⟩
  | ok p =>
    obtain ⟨v', rest'⟩ := p
    obtain ⟨rfl, hrest⟩ := halike v' rest' hsplit'
    obtain ⟨hz, hyields⟩ := keptSubnet_tracks h hrest hlast hkept
    refine ⟨hz, .of_bind hsplit' ?_⟩
    show Yields fits ((ofKept .subnet rest').mapError _) _
    rw [ofKept_subnet_eq]
    exact (hyields.map _).mapError _

end

end Response

end SubnetRegistry
