import SubnetRegistry.Json.Record
import SubnetRegistry.Proofs.Except
import SubnetRegistry.Proofs.Json.Gap

/-!
# Reading parts that are alike

Of a part in which no number is swapped, the same is read as before. Where steps lead to the number that
is swapped, the new one is read in its place if it has the width that is asked for there, and else nothing
is read.

## Main definitions

* `Keeps` — a reader that reads again what it has read.
* `Tracks` — a reader that reads the new number at the end of some steps.
* `Yields` — a reading that succeeds if and only if something fits.

## Main statements

* `Swap.Reads.asInteger` — what is read of the new number where an integer is asked for.
* `Tracks.asOption`, `Tracks.asList` — steps into values that may be unset, and into lists.
-/
namespace SubnetRegistry.Json

variable {α β : Type} {w : Swap} {n : Nat} {fits : Prop}

/-! ## Readings -/

theorem Again.bind {x x' : Except Fault α} {f f' : α → Except Fault β} (h : Again x x')
    (hf : ∀ a, x = .ok a → Again (f a) (f' a)) : Again (x >>= f) (x' >>= f') := by
  intro b hb
  obtain ⟨a, ha, hb⟩ := exists_of_bind_eq_ok hb
  rw [bind_of_eq_ok (h a ha)]
  exact hf a ha b hb

theorem Again.map {x x' : Except Fault α} (h : Again x x') (f : α → β) :
    Again (f <$> x) (f <$> x') := by
  intro b hb
  obtain ⟨a, ha, rfl⟩ := exists_of_map_eq_ok hb
  rw [h a ha]
  rfl

/-- A reading that comes to a value if something fits, and to a fault if not. -/
structure Yields (fits : Prop) (result : Except Fault α) (a : α) : Prop where
  taken (h : fits) : result = .ok a
  refused (h : ¬fits) : ∃ fault, result = .error fault

theorem Yields.ne_ok {x : Except Fault α} {a : α} (h : Yields fits x a) (hfits : ¬fits) (b : α) :
    x ≠ .ok b := by
  obtain ⟨fault, hfault⟩ := h.refused hfits
  rw [hfault]
  exact nofun

theorem Yields.bind {x : Except Fault α} {a : α} {f : α → Except Fault β} {b : β}
    (h : Yields fits x a) (hf : f a = .ok b) : Yields fits (x >>= f) b where
  taken hfits := by
    rw [bind_of_eq_ok (h.taken hfits)]
    exact hf
  refused hfits := by
    obtain ⟨fault, hfault⟩ := h.refused hfits
    exact ⟨fault, bind_of_eq_error hfault f⟩

theorem Yields.of_bind {x : Except Fault α} {a : α} {f : α → Except Fault β} {b : β} (hx : x = .ok a)
    (h : Yields fits (f a) b) : Yields fits (x >>= f) b := by
  rwa [bind_of_eq_ok hx]

theorem Yields.map {x : Except Fault α} {a : α} (h : Yields fits x a) (f : α → β) :
    Yields fits (f <$> x) (f a) where
  taken hfits := by
    rw [h.taken hfits]
    rfl
  refused hfits := by
    obtain ⟨fault, hfault⟩ := h.refused hfits
    rw [hfault]
    exact ⟨fault, rfl⟩

theorem Yields.mapError {x : Except Fault α} {a : α} (h : Yields fits x a) (f : Fault → Fault) :
    Yields fits (x.mapError f) a where
  taken hfits := by
    rw [h.taken hfits]
    rfl
  refused hfits := by
    obtain ⟨fault, hfault⟩ := h.refused hfits
    rw [hfault]
    exact ⟨f fault, rfl⟩

/-! ## Endings -/

namespace Ending

variable {e e' : Ending}

theorem exists_readArray : (∃ stop, e.readArray = .ok stop) ↔ e.passes = true := by
  cases e <;> simp [readArray, passes]

theorem exists_readFields : (∃ stop, e.readFields = .ok stop) ↔ e.passes = true := by
  cases e <;> simp [readFields, readArray, passes]

theorem exists_readObject : (∃ stop, e.readObject = .ok stop) ↔ e.passes = true := by
  cases e <;> simp [readObject, passes]

theorem skipArray_eq_ok_iff : e.skipArray = .ok () ↔ e.passes = true := by
  cases e <;> simp [skipArray, readArray, passes, Except.map]

theorem skipObject_eq_ok_iff : e.skipObject = .ok () ↔ e.passes = true := by
  cases e <;> simp [skipObject, readObject, passes, Except.map]

section

variable (h : e.passes = e'.passes) {stop : Nat}

include h

theorem readArray_again (hstop : e.readArray = .ok stop) : ∃ stop', e'.readArray = .ok stop' :=
  exists_readArray.2 (h ▸ exists_readArray.1 ⟨stop, hstop⟩)

theorem readFields_again (hstop : e.readFields = .ok stop) : ∃ stop', e'.readFields = .ok stop' :=
  exists_readFields.2 (h ▸ exists_readFields.1 ⟨stop, hstop⟩)

theorem readObject_again (hstop : e.readObject = .ok stop) : ∃ stop', e'.readObject = .ok stop' :=
  exists_readObject.2 (h ▸ exists_readObject.1 ⟨stop, hstop⟩)

theorem skipArray_again : Again e.skipArray e'.skipArray := fun () hskip =>
  skipArray_eq_ok_iff.2 (h ▸ skipArray_eq_ok_iff.1 hskip)

theorem skipObject_again : Again e.skipObject e'.skipObject := fun () hskip =>
  skipObject_eq_ok_iff.2 (h ▸ skipObject_eq_ok_iff.1 hskip)

end

end Ending

/-! ## Skipping -/

mutual

/-- A part that can be skipped can be skipped again: a number is not read for that. -/
theorem Node.Alike.skip : {n : Nat} → {node node' : Node} → node.Alike w n node' →
    Again node.skip node'.skip
  | _, _, _, .null .. | _, _, _, .boolean .. | _, _, _, .number .. | _, _, _, .swapped .. => .refl _
  | _, _, _, .text _ _ _ _ _ h => h
  | _, _, _, .array _ _ h hending => by
    rw [Node.skip, Node.skip]
    exact (Node.AlikeItems.skipItems h).bind fun _ _ => Ending.skipArray_again hending
  | _, _, _, .object _ _ h hending => by
    rw [Node.skip, Node.skip]
    exact (Member.AlikeAll.skipMembers h).bind fun _ _ => Ending.skipObject_again hending
  | _, _, _, .broken .. | _, _, _, .absent .. => again_error _

theorem Node.AlikeItems.skipItems : {n : Nat} → {items items' : List Node} →
    Node.AlikeItems w n items items' → Again (Node.skipItems items) (Node.skipItems items')
  | _, _, _, .nil => .refl _
  | _, _, _, .cons h hs _ => by
    rw [Node.skipItems, Node.skipItems]
    exact (Node.Alike.skip h).bind fun _ _ => Node.AlikeItems.skipItems hs

theorem Member.AlikeAll.skipMembers : {n : Nat} → {members members' : List Member} →
    Member.AlikeAll w n members members' → Again (Node.skipMembers members) (Node.skipMembers members')
  | _, _, _, .nil => .refl _
  | _, _, _, .cons _ _ hkey h hs _ => by
    rw [Node.skipMembers, Node.skipMembers, Member.skip, Member.skip]
    refine Again.bind ?_ fun _ _ => Member.AlikeAll.skipMembers hs
    exact hkey.skip.bind fun _ _ => hkey.colon.bind fun _ _ => Node.Alike.skip h

end

/-! ## Keeping -/

/-- A reader that reads the same of parts that are alike, as long as no number in them is swapped. -/
def Keeps (w : Swap) (read : Node → Except Fault α) : Prop :=
  ∀ ⦃node node' : Node⦄, node.Alike w 0 node' → Again (read node) (read node')

theorem Node.asTextFor_eq_ok {expected : Expectation} {node : Node} {s : String}
    (h : node.asTextFor expected = .ok s) : ∃ skip start stop, node = .text (.ok s) skip start stop := by
  cases node with
  | text read skip start stop =>
    cases h
    exact ⟨skip, start, stop, rfl⟩
  | null | boolean | number | array | object | broken | absent => cases h

theorem Node.asInteger_eq_ok {width : Width} {node : Node} {z : Int} (h : node.asInteger width = .ok z) :
    (∃ start stop, node = .number (.ok (.integer z)) start stop) ∧
      width.least ≤ z ∧ z ≤ width.greatest := by
  unfold Node.asInteger at h
  split at h
  · split at h
    · next hwidth =>
      cases h
      simp only [Bool.and_eq_true, decide_eq_true_eq] at hwidth
      exact ⟨⟨_, _, rfl⟩, hwidth⟩
    · cases h
  · cases h

namespace Keeps

variable {read : Node → Except Fault α}

theorem asTextFor (expected : Expectation) : Keeps w (Node.asTextFor expected) := by
  intro node node' h s hs
  obtain ⟨skip, start, stop, rfl⟩ := Node.asTextFor_eq_ok hs
  cases h with
  | text _ _ _ _ hread => exact hread s rfl

theorem asText : Keeps w Node.asText := asTextFor .text

theorem asBoolean : Keeps w Node.asBoolean := by
  intro node node' h
  cases h with
  | boolean => exact .refl _
  | null | number | text | array | object | broken | absent => exact again_error _

theorem asInteger (width : Width) : Keeps w (Node.asInteger width) := by
  intro node node' h z hz
  obtain ⟨⟨start, stop, rfl⟩, hlow, hhigh⟩ := Node.asInteger_eq_ok hz
  cases h with
  | number _ _ _ _ hread =>
    rw [hread _ rfl]
    simp [Node.asInteger, hlow, hhigh]

theorem map (h : Keeps w read) (f : α → β) : Keeps w fun node => f <$> read node :=
  fun _ _ halike => (h halike).map f

theorem asOption (h : Keeps w read) : Keeps w (Node.asOption read) := by
  intro node node' halike
  have hread := (h halike).map some
  cases halike with
  | null => exact .refl _
  | boolean | number | text | array | object | broken | absent => exact hread

theorem mapM (h : Keeps w read) {items items' : List Node} (halike : Node.AlikeItems w 0 items items') :
    Again (items.mapM read) (items'.mapM read) := by
  induction items generalizing items' with
  | nil =>
    cases halike
    exact .refl _
  | cons item items ih =>
    cases halike with
    | cons hitem hitems hn =>
      obtain ⟨rfl, rfl⟩ := Nat.add_eq_zero_iff.1 hn.symm
      rw [List.mapM_cons, List.mapM_cons]
      exact (h hitem).bind fun _ _ => (ih hitems).bind fun _ _ => .refl _

theorem asList (h : Keeps w read) : Keeps w (Node.asList read) := by
  intro node node' halike
  cases halike with
  | @array _ items items' ending ending' _ _ hitems hending =>
    refine (h.mapM hitems).bind fun as _ values hvalues => ?_
    obtain ⟨stop, hstop, hvalues⟩ := exists_of_bind_eq_ok hvalues
    obtain ⟨stop', hstop'⟩ := Ending.readArray_again hending hstop
    rw [bind_of_eq_ok hstop']
    exact hvalues
  | null | boolean | number | text | object | broken | absent => exact again_error _

end Keeps

/-! ## Tracking -/

/-- The steps lead to the number that is swapped. -/
def Node.Leads (w : Swap) (path : List Step) (node : Node) : Prop :=
  ∃ read stop, node.at? path = some (.number read w.place stop)

theorem Node.Alike.pos {node node' : Node} {path : List Step} (h : node.Alike w n node')
    (hpath : node.Leads w path) : 1 ≤ n := by
  obtain ⟨read, stop, hat⟩ := hpath
  exact (h.of_at? hat).1

theorem Node.AlikeItems.pos {items items' : List Node} {node : Node} {path : List Step}
    (h : Node.AlikeItems w n items items') (hnode : node ∈ items) (hpath : node.Leads w path) :
    1 ≤ n := by
  obtain ⟨k, hk, node', h⟩ := h.exists_of_mem hnode
  exact Nat.le_trans (h.pos hpath) hk

theorem Member.AlikeAll.pos {members members' : List Member} {m : Member} {path : List Step}
    (h : Member.AlikeAll w n members members') (hm : m ∈ members) (hpath : m.value.Leads w path) :
    1 ≤ n := by
  obtain ⟨k, hk, node', h⟩ := h.exists_of_mem hm
  exact Nat.le_trans (h.pos hpath) hk

theorem Node.leads_cons_iff {step : Step} {path : List Step} {node : Node} :
    node.Leads w (step :: path) ↔ ∃ part, node.child? step = some part ∧ part.Leads w path := by
  simp only [Node.Leads, Node.at?, Option.bind_eq_some_iff]
  grind

/-- A reader that notices the swap of the number at the end of some steps: where the new number `z` fits,
what was read is changed so that `z` is in it, and where not, nothing is read. -/
def Tracks (w : Swap) (z : Int) (fits : Prop) (read : Node → Except Fault α) (path : List Step)
    (put : α → α) (get? : α → Option Int) : Prop :=
  ∀ ⦃node node' : Node⦄ ⦃a : α⦄, node.Alike w 1 node' → node.Leads w path → read node = .ok a →
    (fits → get? (put a) = some z) ∧ Yields fits (read node') (put a)

/-- The number in the place of the swapped one is an integer. It is read as that integer or as no
integer, and as that integer if it fits 64 bits. -/
structure Swap.Reads (w : Swap) (z : Int) : Prop where
  eq_of_integer {n : Int} (h : w.read = .ok (.integer n)) : n = z
  integer (hlow : -0x8000000000000000 ≤ z) (hhigh : z < 0x10000000000000000) :
    w.read = .ok (.integer z)

def Width.Holds (width : Width) (z : Int) : Prop := width.least ≤ z ∧ z ≤ width.greatest

theorem Width.Holds.fits_64_bits {width : Width} {z : Int} (h : width.Holds z) :
    -0x8000000000000000 ≤ z ∧ z < 0x10000000000000000 := by
  obtain ⟨hlow, hhigh⟩ := h
  cases width <;> simp only [Width.least, Width.greatest] at hlow hhigh <;> omega

/-- Where an integer is asked for, the new number is read if it has the width. -/
theorem Swap.Reads.asInteger {z : Int} (h : w.Reads z) (width : Width) :
    Tracks w z (width.Holds z) (Node.asInteger width) [] (fun _ => z) some := by
  rintro node node' a halike ⟨read, stop, hat⟩ ha
  cases Option.some.inj hat
  cases halike with
  | swapped =>
    refine ⟨fun _ => rfl, fun hfits => ?_, fun hfits => exists_error fun n hn => ?_⟩
    · rw [h.integer hfits.fits_64_bits.1 hfits.fits_64_bits.2]
      simp [Node.asInteger, hfits.1, hfits.2]
    · obtain ⟨⟨_, _, hnode⟩, hwidth⟩ := Node.asInteger_eq_ok hn
      obtain rfl := h.eq_of_integer (Node.number.inj hnode).1
      exact absurd hwidth hfits

namespace Tracks

variable {z : Int} {read : Node → Except Fault α} {path : List Step} {put : α → α}
  {get? : α → Option Int}

theorem map (h : Tracks w z fits read path put get?) {f : α → β} {put' : β → β}
    {get?' : β → Option Int} (hput : ∀ a, put' (f a) = f (put a))
    (hget : ∀ a, fits → get?' (f (put a)) = get? (put a)) :
    Tracks w z fits (fun node => f <$> read node) path put' get?' := by
  intro node node' b halike hpath hb
  obtain ⟨a, ha, rfl⟩ := exists_of_map_eq_ok hb
  obtain ⟨hz, hyields⟩ := h halike hpath ha
  rw [hput]
  exact ⟨fun hfits => (hget a hfits).trans (hz hfits), hyields.map f⟩

theorem asOption (h : Tracks w z fits read path put get?) :
    Tracks w z fits (Node.asOption read) path (Option.map put) (·.bind get?) := by
  intro node node' a halike hpath ha
  have hset {a : α} (hread : read node = .ok a) := (h halike hpath hread).imp_right fun h => h.map some
  cases halike with
  | swapped | array | object =>
    obtain ⟨a, hread, rfl⟩ := exists_of_map_eq_ok ha
    exact hset hread

theorem mapM (h : Tracks w z fits read path put get?) (hkeeps : Keeps w read)
    {items items' : List Node} (halike : Node.AlikeItems w 1 items items') {i : Nat} {part : Node}
    (hpart : items[i]? = some part) (hpath : part.Leads w path) {as : List α}
    (has : items.mapM read = .ok as) :
    (fits → (as.modify i put)[i]?.bind get? = some z) ∧
      Yields fits (items'.mapM read) (as.modify i put) := by
  induction items generalizing items' i as with
  | nil => cases hpart
  | cons item items ih =>
    cases halike with
    | @cons _ k m _ item' _ items' hitem hitems hn =>
      rw [List.mapM_cons] at has
      obtain ⟨a, ha, has⟩ := exists_of_bind_eq_ok has
      obtain ⟨rest, hrest, has⟩ := exists_of_bind_eq_ok has
      cases has
      rw [List.mapM_cons]
      cases i with
      | zero =>
        cases hpart
        have hpos := hitem.pos hpath
        obtain ⟨rfl, rfl⟩ : k = 1 ∧ m = 0 := by omega
        obtain ⟨hz, hyields⟩ := h hitem hpath ha
        refine ⟨hz, hyields.bind ?_⟩
        rw [bind_of_eq_ok (hkeeps.mapM hitems rest hrest)]
        rfl
      | succ i =>
        have hpos := hitems.pos (List.mem_of_getElem? hpart) hpath
        obtain ⟨rfl, rfl⟩ : k = 0 ∧ m = 1 := by omega
        obtain ⟨hz, hyields⟩ := ih hitems hpart hrest
        exact ⟨hz, .of_bind (hkeeps hitem a ha) (hyields.bind rfl)⟩

theorem asList (h : Tracks w z fits read path put get?) (hkeeps : Keeps w read) (i : Nat) :
    Tracks w z fits (Node.asList read) (.item i :: path) (·.modify i put) (·[i]?.bind get?) := by
  intro node node' as halike hpath has
  obtain ⟨part, hpart, hlast⟩ := Node.leads_cons_iff.1 hpath
  cases halike with
  | @array _ items items' ending ending' _ _ hitems hending =>
    obtain ⟨_, hmap, has⟩ := exists_of_bind_eq_ok has
    obtain ⟨stop, hstop, has⟩ := exists_of_bind_eq_ok has
    cases has
    obtain ⟨stop', hstop'⟩ := Ending.readArray_again hending hstop
    obtain ⟨hz, hyields⟩ := h.mapM hkeeps hitems hpart hlast hmap
    refine ⟨hz, hyields.bind ?_⟩
    rw [bind_of_eq_ok hstop']
    rfl
  | swapped | object => cases hpart

end Tracks

/-! ## Integers in gaps -/

theorem appendDigits_snd_le (significand : Nat) (digits : List Nat) :
    (appendDigits significand digits).2 ≤ digits.length := by
  induction digits generalizing significand with
  | nil => exact Nat.le_refl 0
  | cons d digits ih =>
    rw [appendDigits]
    split
    · exact Nat.succ_le_succ (ih _)
    · exact Nat.zero_le _

/-- Where no digit is dropped, the significand is the whole number. -/
theorem appendDigits_fst (significand : Nat) (digits : List Nat)
    (h : (appendDigits significand digits).2 = digits.length) :
    (appendDigits significand digits).1 = ofDigits significand digits := by
  induction digits generalizing significand with
  | nil => rfl
  | cons d digits ih =>
    rw [appendDigits] at h ⊢
    split
    · next hfits =>
      rw [if_pos hfits] at h
      exact ih _ (Nat.succ.inj h)
    · next hfits =>
      rw [if_neg hfits] at h
      cases h

/-- An integer is read as itself or as no integer. -/
theorem Numeral.eq_of_value_ofInt {z n : Int} (h : (numeralOf z).value = .ok (.integer n)) :
    n = z := by
  have htaken := appendDigits_snd_le 0 (digitsOf z.natAbs)
  have hwhole := appendDigits_fst 0 (digitsOf z.natAbs)
  obtain ⟨⟨significand, taken⟩, happend⟩ : ∃ appended, appendDigits 0 (digitsOf z.natAbs) = appended :=
    ⟨_, rfl⟩
  simp only [happend, ofDigits_digitsOf] at htaken hwhole
  simp only [value, numeralOf, happend] at h
  -- A double comes of it where digits are dropped or the negative number is too small.
  split at h
  · split at h <;> cases h
  · next hdropped =>
    have hsignificand := hwhole (by omega)
    split at h
    · next hpositive =>
      cases h
      simp only [Bool.not_eq_true', decide_eq_false_iff_not] at hpositive
      omega
    · next hnegative =>
      split at h
      · split at h <;> cases h
      · cases h
        simp only [Bool.not_eq_true', decide_eq_false_iff_not] at hnegative
        omega

/-- The number that is read of an integer in a gap. -/
theorem Gap.swap_reads (g : Gap) (x z : Int) : (g.swap x z).Reads z where
  eq_of_integer h := by
    simp only [Gap.swap, Token.readNumeral] at h
    split at h
    · next hvalue =>
      cases h
      exact Numeral.eq_of_value_ofInt hvalue
    · cases h
  integer hlow hhigh := by
    simp only [Gap.swap, Token.readNumeral, Numeral.value_ofInt hlow hhigh]

end SubnetRegistry.Json
