import Mathlib.Data.Nat.ModEq
import Mathlib.Tactic.Common

/-!
# Folding carries back into the low digit

Adding the high digits of a sum to its low digit, again and again until one digit is left, keeps
the sum modulo the base less one. A number and the complement of its fold therefore fold to the
highest digit, which is how a checksum in such an arithmetic is verified.
-/

namespace PcapyNg.CarryFold
set_option autoImplicit false

theorem fold_decreases {b s : Nat} (h : 2 ≤ b ∧ b ≤ s) : s % b + s / b < s := by
  obtain ⟨hb, hs⟩ := h
  have hsplit := Nat.mod_add_div s b
  have hpos : 1 ≤ s / b := (Nat.one_le_div_iff (by omega)).mpr hs
  have hmul : 2 * (s / b) ≤ b * (s / b) := Nat.mul_le_mul_right _ hb
  omega

/-- `while s >= b: s = s % b + s / b` -/
def foldCarry (b s : Nat) : Nat :=
  if _ : 2 ≤ b ∧ b ≤ s then foldCarry b (s % b + s / b) else s
termination_by s
decreasing_by exact fold_decreases ‹_›

def complement (b s : Nat) : Nat := b - 1 - foldCarry b s

section Base
variable {b : Nat} (hb : 2 ≤ b) (s : Nat)
include hb

theorem foldCarry_step (hs : b ≤ s) : foldCarry b s = foldCarry b (s % b + s / b) := by
  rw [foldCarry, dif_pos ⟨hb, hs⟩]

omit hb in
theorem foldCarry_done (hs : s < b) : foldCarry b s = s := by
  rw [foldCarry, dif_neg fun h => absurd h.2 (Nat.not_le.mpr hs)]

theorem foldCarry_lt : foldCarry b s < b := by
  induction s using Nat.strong_induction_on with
  | _ s ih =>
    by_cases hs : b ≤ s
    · rw [foldCarry_step hb s hs]
      exact ih _ (fold_decreases ⟨hb, hs⟩)
    · rw [foldCarry_done s (Nat.not_le.mp hs)]
      exact Nat.not_le.mp hs

theorem fold_modEq : s % b + s / b ≡ s [MOD b - 1] := by
  have hsplit : s = s % b + s / b + (b - 1) * (s / b) := by
    have hdiv := Nat.mod_add_div s b
    have hone : (b - 1) * (s / b) + s / b = b * (s / b) := by
      rw [← Nat.succ_mul, Nat.succ_eq_add_one, Nat.sub_add_cancel (by omega)]
    omega
  conv_rhs => rw [hsplit]
  exact (Nat.add_modulus_mul_modEq_iff.mpr rfl).symm

theorem foldCarry_modEq : foldCarry b s ≡ s [MOD b - 1] := by
  induction s using Nat.strong_induction_on with
  | _ s ih =>
    by_cases hs : b ≤ s
    · rw [foldCarry_step hb s hs]
      exact (ih _ (fold_decreases ⟨hb, hs⟩)).trans (fold_modEq hb s)
    · rw [foldCarry_done s (Nat.not_le.mp hs)]

theorem foldCarry_pos (hs : 0 < s) : 0 < foldCarry b s := by
  induction s using Nat.strong_induction_on with
  | _ s ih =>
    by_cases hbs : b ≤ s
    · rw [foldCarry_step hb s hbs]
      apply ih _ (fold_decreases ⟨hb, hbs⟩)
      exact Nat.add_pos_right _ (Nat.div_pos hbs (by omega))
    · rwa [foldCarry_done s (Nat.not_le.mp hbs)]

/-- A sum and the complement of its fold fold to the highest digit. -/
theorem foldCarry_add_complement : foldCarry b (s + complement b s) = b - 1 := by
  have hlt := foldCarry_lt hb s
  have hmod := foldCarry_modEq hb s
  have htotal : foldCarry b s + complement b s = b - 1 := Nat.add_sub_cancel' (by omega)
  have hpos : 0 < s + complement b s := by
    rcases Nat.eq_zero_or_pos s with rfl | hs
    · rw [foldCarry_done 0 (by omega)] at htotal
      omega
    · omega
  have hsum : foldCarry b (s + complement b s) ≡ b - 1 [MOD b - 1] := by
    apply (foldCarry_modEq hb _).trans
    conv_rhs => rw [← htotal]
    exact (hmod.add_right _).symm
  have hbound := foldCarry_lt hb (s + complement b s)
  have hnz := foldCarry_pos hb _ hpos
  have hdvd : b - 1 ∣ foldCarry b (s + complement b s) := by
    apply Nat.modEq_zero_iff_dvd.mp
    exact hsum.trans (Nat.modEq_zero_iff_dvd.mpr dvd_rfl)
  exact Nat.le_antisymm (by omega) (Nat.le_of_dvd hnz hdvd)

end Base
end PcapyNg.CarryFold
