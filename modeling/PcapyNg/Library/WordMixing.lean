import Mathlib.Data.BitVec
import Mathlib.Logic.Function.Basic
import Mathlib.Tactic.Common

/-!
# Injective mixing steps on machine words

The steps that hash finalisers are made of, for every width: an xor with a right
shift of the word itself, and a multiplication by a factor with an inverse. Also the
split of a word into a high and a low half, which xor respects.
-/

namespace PcapyNg.WordMixing
set_option autoImplicit false

variable {w v : Nat}

theorem eq_zero_of_eq_ushiftRight {z : BitVec w} {s : Nat} (hs : 0 < s) (h : z = z >>> s) :
    z = 0#w := by
  have hnat : z.toNat = z.toNat / 2 ^ s := by
    rw [← Nat.shiftRight_eq_div_pow, ← BitVec.toNat_ushiftRight, ← h]
  have hpow : 1 < 2 ^ s := Nat.one_lt_two_pow (by omega)
  have hzero : z.toNat = 0 := by
    by_contra hne
    have := Nat.div_lt_self (Nat.pos_of_ne_zero hne) hpow
    omega
  exact BitVec.eq_of_toNat_eq (by simpa using hzero)

theorem xorShift_injective {s : Nat} (hs : 0 < s) :
    Function.Injective fun x : BitVec w => x ^^^ (x >>> s) := by
  intro x y hxy
  have hxy' : x ^^^ (x >>> s) = y ^^^ (y >>> s) := hxy
  have hz : x ^^^ y = (x ^^^ y) >>> s := by
    rw [BitVec.ushiftRight_xor_distrib]
    calc x ^^^ y = (x ^^^ (x >>> s)) ^^^ ((x >>> s) ^^^ y) := by
          rw [BitVec.xor_assoc, ← BitVec.xor_assoc (x >>> s) (x >>> s), BitVec.xor_self,
            BitVec.zero_xor]
      _ = (y ^^^ (y >>> s)) ^^^ ((x >>> s) ^^^ y) := by rw [hxy']
      _ = x >>> s ^^^ y >>> s := by
          rw [BitVec.xor_comm y, BitVec.xor_assoc, BitVec.xor_comm (x >>> s) y,
            ← BitVec.xor_assoc y y, BitVec.xor_self, BitVec.zero_xor, BitVec.xor_comm]
  exact BitVec.xor_eq_zero_iff.mp (eq_zero_of_eq_ushiftRight hs hz)

theorem mul_injective {m inv : BitVec w} (h : m * inv = 1#w) :
    Function.Injective fun x : BitVec w => x * m := by
  intro x y hxy
  have hc := congrArg (fun z => z * inv) hxy
  simpa only [BitVec.mul_assoc, h, BitVec.mul_one] using hc

theorem xor_eq_xor_iff (a b x y : BitVec w) : a ^^^ x = b ^^^ y ↔ a ^^^ b = x ^^^ y := by
  constructor
  · intro h
    have hb : b = (a ^^^ x) ^^^ y := by
      rw [h, BitVec.xor_assoc, BitVec.xor_self, BitVec.xor_zero]
    rw [hb, BitVec.xor_assoc a, ← BitVec.xor_assoc a a, BitVec.xor_self, BitVec.zero_xor]
  · intro h
    have hx : x = (a ^^^ b) ^^^ y := by
      rw [h, BitVec.xor_assoc, BitVec.xor_self, BitVec.xor_zero]
    rw [hx, BitVec.xor_assoc a, ← BitVec.xor_assoc a a, BitVec.xor_self, BitVec.zero_xor]

theorem append_inj {x₁ x₂ : BitVec w} {y₁ y₂ : BitVec v} (h : x₁ ++ y₁ = x₂ ++ y₂) :
    x₁ = x₂ ∧ y₁ = y₂ := by
  have hnat := congrArg BitVec.toNat h
  rw [BitVec.toNat_append, BitVec.toNat_append, Nat.shiftLeft_eq, Nat.shiftLeft_eq,
    Nat.mul_comm, Nat.mul_comm x₂.toNat, ← Nat.two_pow_add_eq_or_of_lt y₁.isLt,
    ← Nat.two_pow_add_eq_or_of_lt y₂.isLt] at hnat
  have hpos := Nat.two_pow_pos v
  constructor
  · apply BitVec.eq_of_toNat_eq
    have hd := congrArg (· / 2 ^ v) hnat
    simpa [Nat.mul_add_div hpos, Nat.div_eq_of_lt y₁.isLt, Nat.div_eq_of_lt y₂.isLt] using hd
  · apply BitVec.eq_of_toNat_eq
    have hm := congrArg (· % 2 ^ v) hnat
    simpa [Nat.mod_eq_of_lt y₁.isLt, Nat.mod_eq_of_lt y₂.isLt] using hm

theorem append_xor_eq_iff (a b x y : BitVec w) (c z : BitVec v) :
    (a ++ c) ^^^ (b ++ c) = (x ++ z) ^^^ (y ++ z) ↔ a ^^^ b = x ^^^ y := by
  rw [BitVec.xor_append, BitVec.xor_append, BitVec.xor_self, BitVec.xor_self]
  constructor
  · intro h
    exact (append_inj h).1
  · intro h
    rw [h]

end PcapyNg.WordMixing
