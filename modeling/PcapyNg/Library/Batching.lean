import Mathlib.Algebra.BigOperators.Group.Finset.Basic
import Mathlib.Algebra.GroupWithZero.Nat
import Mathlib.Tactic.Common

/-!
# Lists taken in batches, into a buffer that grows

Batch `i` takes the next `size i` items, as far as there are any. A batch is collected in a
buffer that is made larger whenever an item does not fit; `growths` says how often. A
capacity that is doubled in a word of `w` bits ends at `lastDoubled`.
-/

namespace PcapyNg.Batching
set_option autoImplicit false

universe u
variable {α : Type u} (size : Nat → Nat)

def start (i : Nat) : Nat := ∑ j ∈ Finset.range i, size j

def batch (xs : List α) (i : Nat) : List α := (xs.drop (start size i)).take (size i)

@[simp] theorem start_zero : start size 0 = 0 := rfl

theorem start_succ (i : Nat) : start size (i + 1) = size 0 + start (fun j => size (j + 1)) i := by
  rw [start, Finset.sum_range_succ', Nat.add_comm]
  rfl

@[simp] theorem batch_zero (xs : List α) : batch size xs 0 = xs.take (size 0) := rfl

theorem batch_succ (xs : List α) (i : Nat) :
    batch size xs (i + 1) = batch (fun j => size (j + 1)) (xs.drop (size 0)) i := by
  rw [batch, batch, start_succ, List.drop_drop]

theorem batch_sublist (xs : List α) (i : Nat) : (batch size xs i).Sublist xs :=
  (List.take_sublist _ _).trans (List.drop_sublist _ _)

@[simp] theorem batch_nil (i : Nat) : batch size ([] : List α) i = [] := by
  simp [batch]

/-- With a buffer of `cap`, doubled at least and never left with less than `slack` to spare,
how often it grows for items of the lengths given. -/
def growths (slack : Nat) : Nat → Nat → List Nat → Nat
  | _, _, [] => 0
  | cap, used, n :: ns =>
    if cap < used + n then growths slack (max (cap * 2) (used + n + slack)) (used + n) ns + 1
    else growths slack cap (used + n) ns

section Growths
variable {slack cap used n : Nat} {ns : List Nat}

theorem growths_cons_fits (h : used + n ≤ cap) :
    growths slack cap used (n :: ns) = growths slack cap (used + n) ns := by
  rw [growths, if_neg (by omega)]

theorem growths_cons_grows (h : cap < used + n) :
    growths slack cap used (n :: ns) =
      1 + growths slack (max (cap * 2) (used + n + slack)) (used + n) ns := by
  rw [growths, if_pos h, Nat.add_comm]

theorem growths_of_room (h : used + ns.sum ≤ cap) :
    growths slack cap used ns = 0 := by
  induction ns generalizing used with
  | nil => rfl
  | cons n ns ih =>
    rw [List.sum_cons] at h
    rw [growths_cons_fits (by omega)]
    exact ih (by omega)

end Growths

/-- The last capacity below `2 ^ w` that doubling reaches from `m`. -/
def lastDoubled (w m : Nat) : Nat := m * 2 ^ (w - 1 - Nat.log2 m)

section Doubling
variable {w m : Nat}

theorem lastDoubled_bounds (hm : 0 < m) (hw : m < 2 ^ w) :
    2 ^ w ≤ 2 * lastDoubled w m ∧ lastDoubled w m < 2 ^ w := by
  have hlog : Nat.log2 m < w := (Nat.log2_lt (by omega)).mpr hw
  have hlow : 2 ^ Nat.log2 m ≤ m := Nat.log2_self_le (by omega)
  have hhigh : m < 2 ^ (Nat.log2 m + 1) := Nat.lt_log2_self
  have hpow : 2 ^ w = 2 ^ (Nat.log2 m + 1) * 2 ^ (w - 1 - Nat.log2 m) := by
    rw [← Nat.pow_add]
    congr 1
    omega
  have hpos : 0 < 2 ^ (w - 1 - Nat.log2 m) := Nat.two_pow_pos _
  rw [hpow, lastDoubled]
  constructor
  · have h := Nat.mul_le_mul_right (2 ^ (w - 1 - Nat.log2 m)) hlow
    rw [Nat.pow_succ, Nat.mul_right_comm, Nat.mul_comm _ 2]
    exact Nat.mul_le_mul_left 2 h
  · exact Nat.mul_lt_mul_of_pos_right hhigh hpos

theorem pow_le_lastDoubled (hm : 0 < m) {k : Nat} (hk : m * 2 ^ k < 2 ^ w) :
    m * 2 ^ k ≤ lastDoubled w m := by
  by_contra hlt
  have hw : m < 2 ^ w := Nat.lt_of_le_of_lt (Nat.le_mul_of_pos_right m (Nat.two_pow_pos k)) hk
  have hexp : w - 1 - Nat.log2 m < k := by
    by_contra hle
    exact hlt (Nat.mul_le_mul_left m (Nat.pow_le_pow_right (by omega) (by omega)))
  have hdouble : 2 * lastDoubled w m ≤ m * 2 ^ k := by
    rw [lastDoubled, Nat.mul_left_comm, ← Nat.pow_succ']
    exact Nat.mul_le_mul_left m (Nat.pow_le_pow_right (by omega) hexp)
  have h := (lastDoubled_bounds hm hw).1
  omega

/-- Below the last capacity, doubling once more still fits. -/
theorem double_le_lastDoubled {k : Nat} (hk : m * 2 ^ k < lastDoubled w m) :
    m * 2 ^ (k + 1) ≤ lastDoubled w m := by
  have hexp : k < w - 1 - Nat.log2 m :=
    (Nat.pow_lt_pow_iff_right (by omega : 1 < 2)).mp (Nat.lt_of_mul_lt_mul_left hk)
  exact Nat.mul_le_mul_left m (Nat.pow_le_pow_right (by omega) hexp)

end Doubling
end PcapyNg.Batching
