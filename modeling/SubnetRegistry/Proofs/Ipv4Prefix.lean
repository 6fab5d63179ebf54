import Mathlib.Data.Nat.Bitwise
import SubnetRegistry.Subnet
import SubnetRegistry.Text.Separated

/-!
# Address prefixes

An address is the number whose digits to the base 256 are its octets, so each tells the other. A prefix
is told by its text, in which the octets and the length stand in decimal, each up to a character that is
in none of them.

## Main statements

* `Ipv4Prefix.toNat_addr_ofOctets` — the address of four octets.
* `Ipv4Prefix.octets_ofOctets`, `Ipv4Prefix.ofOctets_octets` — there and back, from either side.
* `Ipv4Prefix.chars_inj` — prefixes with one text are equal.
* `Ipv4Prefix.nothing_lost` — all of it.
-/
namespace SubnetRegistry.Ipv4Prefix

open Text (split)

attribute [ext] Octets

variable {p q : Ipv4Prefix}

/-! ## Octets -/

theorem shiftLeft_or_eq_add {low i : Nat} (h : low < 2 ^ i) (high : Nat) :
    high <<< i ||| low = high * 2 ^ i + low := by
  rw [← Nat.shiftLeft_add_eq_or_of_lt h, Nat.shiftLeft_eq]

/-- Digits to the base 256 that are shifted to their places make up the number. -/
theorem or_shifted_eq {a b c d : Nat} (hb : b < 2 ^ 8) (hc : c < 2 ^ 8) (hd : d < 2 ^ 8) :
    a <<< 24 ||| b <<< 16 ||| c <<< 8 ||| d = ((a * 256 + b) * 256 + c) * 256 + d := by
  -- from the last on, each digit is put above a number that fits below it
  have hlast : c <<< 8 ||| d = c * 2 ^ 8 + d := shiftLeft_or_eq_add hd c
  have hlower : b <<< 16 ||| (c * 2 ^ 8 + d) = b * 2 ^ 16 + (c * 2 ^ 8 + d) :=
    shiftLeft_or_eq_add (by omega) b
  have hall : a <<< 24 ||| (b * 2 ^ 16 + (c * 2 ^ 8 + d)) =
      a * 2 ^ 24 + (b * 2 ^ 16 + (c * 2 ^ 8 + d)) := shiftLeft_or_eq_add (by omega) a
  rw [Nat.or_assoc, Nat.or_assoc, hlast, hlower, hall]
  omega

/-- The first octet is the most significant. -/
theorem toNat_addr_ofOctets (o : Octets) (len : Int32) :
    (ofOctets o len).addr.toNat =
      ((o.a.toNat * 256 + o.b.toNat) * 256 + o.c.toNat) * 256 + o.d.toNat := by
  have hfits : ∀ octet : UInt8, octet.toNat <<< 24 < 2 ^ 32 ∧ octet.toNat <<< 16 < 2 ^ 32 ∧
      octet.toNat <<< 8 < 2 ^ 32 := by
    intro octet
    have hlt := octet.toNat_lt
    simp only [Nat.shiftLeft_eq]
    omega
  simp only [ofOctets, UInt32.toNat_or, UInt32.toNat_shiftLeft, UInt8.toNat_toUInt32,
    UInt32.reduceToNat, Nat.reduceMod, Nat.mod_eq_of_lt (hfits _).1,
    Nat.mod_eq_of_lt (hfits _).2.1, Nat.mod_eq_of_lt (hfits _).2.2]
  exact or_shifted_eq o.b.toNat_lt o.c.toNat_lt o.d.toNat_lt

@[simp] theorem len_ofOctets (o : Octets) (len : Int32) : (ofOctets o len).len = len := rfl

@[simp] theorem octets_ofOctets (o : Octets) (len : Int32) : (ofOctets o len).octets = o := by
  have hvalue := toNat_addr_ofOctets o len
  cases o with
  | mk a b c d =>
    have ha := a.toNat_lt
    have hb := b.toNat_lt
    have hc := c.toNat_lt
    have hd := d.toNat_lt
    simp only [octets, Octets.mk.injEq, ← UInt8.toNat_inj, UInt32.toNat_toUInt8,
      UInt32.toNat_shiftRight, Nat.shiftRight_eq_div_pow, hvalue, UInt32.reduceToNat, Nat.reduceMod]
    omega

theorem ofOctets_octets (p : Ipv4Prefix) : ofOctets p.octets p.len = p := by
  have haddr : (ofOctets p.octets p.len).addr = p.addr := by
    have hlt := p.addr.toNat_lt
    rw [← UInt32.toNat_inj, toNat_addr_ofOctets]
    simp only [octets, UInt32.toNat_toUInt8, UInt32.toNat_shiftRight, Nat.shiftRight_eq_div_pow,
      UInt32.reduceToNat, Nat.reduceMod]
    omega
  exact congrArg (mk · p.len) haddr

theorem eq_of_octets (ho : p.octets = q.octets) (hl : p.len = q.len) : p = q := by
  rw [← ofOctets_octets p, ho, hl, ofOctets_octets]

/-! ## Text -/

theorem not_mem_ofNat {c : Char} (hc : c.isDigit = false) (n : Nat) : c ∉ Decimal.ofNat n := by
  intro h
  rw [Decimal.isDigit_of_mem_ofNat c h] at hc
  cases hc

theorem not_mem_ofInt {c : Char} (hc : c.isDigit = false) (hminus : c ≠ '-') (z : Int) :
    c ∉ Decimal.ofInt z := by
  intro h
  rcases Decimal.mem_ofInt h with h | h
  · exact hminus h
  · rw [h] at hc
    cases hc

def tail (p : Ipv4Prefix) : List Char :=
  Decimal.ofNat p.octets.d.toNat ++ '/' :: Decimal.ofInt p.len.toInt

theorem split_tail (p : Ipv4Prefix) :
    split '/' p.tail = [Decimal.ofNat p.octets.d.toNat, Decimal.ofInt p.len.toInt] := by
  rw [tail, Text.split_append_cons (not_mem_ofNat rfl _),
    Text.split_of_not_mem (not_mem_ofInt rfl (by decide) _)]

theorem split_chars (p : Ipv4Prefix) :
    split '.' p.chars = [Decimal.ofNat p.octets.a.toNat, Decimal.ofNat p.octets.b.toNat,
      Decimal.ofNat p.octets.c.toNat, p.tail] := by
  have htail : '.' ∉ p.tail := by
    simp [tail, not_mem_ofNat, not_mem_ofInt]
  have hchars : p.chars = Decimal.ofNat p.octets.a.toNat ++ '.' ::
      (Decimal.ofNat p.octets.b.toNat ++ '.' :: (Decimal.ofNat p.octets.c.toNat ++ '.' :: p.tail)) := by
    simp [chars, tail]
  rw [hchars, Text.split_append_cons (not_mem_ofNat rfl _),
    Text.split_append_cons (not_mem_ofNat rfl _), Text.split_append_cons (not_mem_ofNat rfl _),
    Text.split_of_not_mem htail]

theorem chars_inj : p.chars = q.chars ↔ p = q := by
  constructor
  · intro h
    have hpieces := congrArg (split '.') h
    simp only [split_chars, List.cons.injEq, Decimal.ofNat_inj, UInt8.toNat_inj, and_true] at hpieces
    obtain ⟨ha, hb, hc, htail⟩ := hpieces
    have hlast := congrArg (split '/') htail
    simp only [split_tail, List.cons.injEq, Decimal.ofNat_inj, UInt8.toNat_inj, Decimal.ofInt_inj,
      Int32.toInt_inj, and_true] at hlast
    obtain ⟨hd, hlen⟩ := hlast
    have hoctets : p.octets = q.octets := Octets.ext ha hb hc hd
    exact eq_of_octets hoctets hlen
  · exact congrArg _

theorem text_inj : p.text = q.text ↔ p = q :=
  String.ofList_inj.trans chars_inj

/-- The text of octets and a length. -/
theorem text_ofOctets (o : Octets) (len : Int32) :
    (ofOctets o len).text =
      Decimal.natText o.a.toNat ++ "." ++ Decimal.natText o.b.toNat ++ "." ++
        Decimal.natText o.c.toNat ++ "." ++ Decimal.natText o.d.toNat ++ "/" ++
        Decimal.intText len.toInt := by
  rw [← String.toList_inj]
  simp [text, chars, Decimal.natText, Decimal.intText]

/-- A prefix is made again from its octets and its length, and octets and a length are those of the prefix
made from them. Its address has the octets as its digits to the base 256, and its text has them in
decimal, with the length. No other prefix has its text. -/
theorem nothing_lost :
    (∀ p : Ipv4Prefix, ofOctets p.octets p.len = p) ∧
      (∀ (o : Octets) (len : Int32),
        let p := ofOctets o len
        p.octets = o ∧ p.len = len ∧
          p.addr.toNat = ((o.a.toNat * 256 + o.b.toNat) * 256 + o.c.toNat) * 256 + o.d.toNat ∧
          p.text =
            Decimal.natText o.a.toNat ++ "." ++ Decimal.natText o.b.toNat ++ "." ++
              Decimal.natText o.c.toNat ++ "." ++ Decimal.natText o.d.toNat ++ "/" ++
              Decimal.intText len.toInt) ∧
      ∀ p q : Ipv4Prefix, p.text = q.text ↔ p = q :=
  ⟨ofOctets_octets,
    fun o len => ⟨octets_ofOctets o len, rfl, toNat_addr_ofOctets o len, text_ofOctets o len⟩,
    fun _ _ => text_inj⟩

example : ({ addr := 336860161, len := -24 } : Ipv4Prefix).text = "20.20.20.1/-24" := by decide

end SubnetRegistry.Ipv4Prefix
