/-!
# Integers in decimal

The canonical decimal form of an integer: no leading zero, a minus sign for a negative one. Reading
takes leading zeros too.
-/
namespace SubnetRegistry.Decimal

/-- The digits of a natural number, the most significant first. -/
def ofNat (n : Nat) : List Char := Nat.toDigits 10 n

def ofInt (z : Int) : List Char :=
  if z < 0 then '-' :: ofNat z.natAbs else ofNat z.natAbs

@[simp] theorem ofInt_natCast (n : Nat) : ofInt n = ofNat n := by
  simp [ofInt, Int.not_lt.2 (Int.natCast_nonneg n)]

def intText (z : Int) : String := String.ofList (ofInt z)

def natText (n : Nat) : String := String.ofList (ofNat n)

/-- The number of one or more digits. -/
def nat? (cs : List Char) : Option Nat :=
  if cs ≠ [] ∧ cs.all Char.isDigit then some (Nat.ofDigitChars 10 cs 0) else none

variable {n m : Nat} {z w : Int} {c : Char}

theorem isDigit_of_mem_ofNat : ∀ c ∈ ofNat n, c.isDigit = true :=
  fun _ => Nat.isDigit_of_mem_toDigits (by decide) (by decide)

theorem nat?_ofNat (n : Nat) : nat? (ofNat n) = some n := by
  have h : (Nat.toDigits 10 n).all Char.isDigit :=
    List.all_eq_true.2 isDigit_of_mem_ofNat
  simp only [nat?, ofNat, h, ne_eq, Nat.toDigits_ne_nil, not_false_eq_true, and_self, if_true,
    Nat.ofDigitChars_ten_toDigits]

theorem ofNat_inj : ofNat n = ofNat m ↔ n = m := by
  constructor
  · intro h
    have hread := congrArg nat? h
    rw [nat?_ofNat, nat?_ofNat] at hread
    exact Option.some.inj hread
  · exact congrArg _

theorem mem_ofInt (h : c ∈ ofInt z) : c = '-' ∨ c.isDigit = true := by
  unfold ofInt at h
  split at h
  · exact (List.mem_cons.1 h).imp_right (isDigit_of_mem_ofNat c)
  · exact .inr (isDigit_of_mem_ofNat c h)

/-- No natural number is written with a minus sign. -/
theorem minus_ofNat_ne (n m : Nat) : '-' :: ofNat n ≠ ofNat m := by
  intro h
  have hdigit : '-'.isDigit = true := isDigit_of_mem_ofNat '-' (h ▸ List.mem_cons_self)
  cases hdigit

theorem ofInt_inj : ofInt z = ofInt w ↔ z = w := by
  constructor
  · intro h
    unfold ofInt at h
    -- the signs agree, or only one of the texts has a minus sign
    split at h <;> split at h
    · have habs := ofNat_inj.1 (List.cons.inj h).2
      omega
    · exact absurd h (minus_ofNat_ne _ _)
    · exact absurd h.symm (minus_ofNat_ne _ _)
    · have habs := ofNat_inj.1 h
      omega
  · exact congrArg _

end SubnetRegistry.Decimal
