import Mathlib.Algebra.GroupWithZero.Nat
import Mathlib.Algebra.Order.BigOperators.Group.List
import Mathlib.Data.List.Sort
import Mathlib.Tactic.Common

/-!
# Reaching a sum with the fewest summands

Taking the largest weights first until a sum is reached takes as few of them as any choice that
reaches it.
-/

namespace PcapyNg.GreedyCover
set_option autoImplicit false

variable {α : Type} (w : α → Nat)

def weight (xs : List α) : Nat := (xs.map w).sum

@[simp] theorem weight_nil : weight w [] = 0 := rfl

@[simp] theorem weight_cons (x : α) (xs : List α) : weight w (x :: xs) = w x + weight w xs := rfl

theorem weight_append (xs ys : List α) : weight w (xs ++ ys) = weight w xs + weight w ys := by
  rw [weight, List.map_append, List.sum_append]
  rfl

theorem weight_perm {xs ys : List α} (h : xs.Perm ys) : weight w xs = weight w ys :=
  (h.map w).sum_eq

/-- Elements from the front until their weights reach `want`. -/
def reaching : Nat → List α → List α
  | _, [] => []
  | want, x :: xs => if want = 0 then [] else x :: reaching (want - w x) xs

theorem reaching_prefix (want : Nat) (xs : List α) : reaching w want xs <+: xs := by
  induction xs generalizing want with
  | nil => exact List.prefix_rfl
  | cons x xs ih =>
    rw [reaching]
    split
    · exact List.nil_prefix
    · exact (List.prefix_cons_inj x).mpr (ih _)

theorem reaching_reaches {want : Nat} {xs : List α} (h : want ≤ weight w xs) :
    want ≤ weight w (reaching w want xs) := by
  induction xs generalizing want with
  | nil => exact h
  | cons x xs ih =>
    rw [weight_cons] at h
    rw [reaching]
    split
    · omega
    · have hrest := ih (by omega : want - w x ≤ weight w xs)
      rw [weight_cons]
      omega

theorem length_reaching_le {want m : Nat} {xs : List α} (h : want ≤ weight w (xs.take m)) :
    (reaching w want xs).length ≤ m := by
  induction xs generalizing want m with
  | nil => exact Nat.zero_le m
  | cons x xs ih =>
    rw [reaching]
    split
    · exact Nat.zero_le m
    · next hwant =>
      cases m with
      | zero => exact absurd (Nat.le_zero.mp h) hwant
      | succ m =>
        rw [List.take_succ_cons, weight_cons] at h
        exact Nat.succ_le_succ (ih (by omega))

section Descending

/-- Heaviest first. -/
def Descending (xs : List α) : Prop := xs.Pairwise fun a b => w b ≤ w a

variable {w}

theorem weight_take_cons {x : α} {xs : List α} (hx : ∀ y ∈ xs, w y ≤ w x) (n : Nat) :
    weight w (xs.take n) ≤ weight w ((x :: xs).take n) := by
  cases n with
  | zero => exact Nat.le_refl 0
  | succ n =>
    have hlast : weight w xs[n]?.toList ≤ w x := by
      cases hget : xs[n]? with
      | none => exact Nat.zero_le _
      | some y => exact hx y (List.mem_of_getElem? hget)
    rw [List.take_add_one, weight_append, List.take_succ_cons, weight_cons, Nat.add_comm]
    exact Nat.add_le_add_right hlast _

/-- No sublist outweighs the front of the same length. -/
theorem weight_sublist_le {xs ys : List α} (hxs : Descending w xs) (h : ys.Sublist xs) :
    weight w ys ≤ weight w (xs.take ys.length) := by
  induction h with
  | slnil => exact Nat.le_refl 0
  | cons x _ ih =>
    obtain ⟨hx, hrest⟩ := List.pairwise_cons.mp hxs
    exact (ih hrest).trans (weight_take_cons hx _)
  | cons_cons x _ ih =>
    obtain ⟨-, hrest⟩ := List.pairwise_cons.mp hxs
    rw [List.length_cons, List.take_succ_cons, weight_cons, weight_cons]
    exact Nat.add_le_add_left (ih hrest) _

theorem weight_filter {ys : List α} {p : α → Bool} (h : ∀ y ∈ ys, p y = false → w y = 0) :
    weight w (ys.filter p) = weight w ys := by
  induction ys with
  | nil => rfl
  | cons y ys ih =>
    have hrest := ih fun z hz => h z (List.mem_cons_of_mem y hz)
    cases hp : p y with
    | true => rw [List.filter_cons_of_pos hp, weight_cons, weight_cons, hrest]
    | false =>
      rw [List.filter_cons_of_neg (by simp [hp]), weight_cons, hrest,
        h y List.mem_cons_self hp, Nat.zero_add]

/-- Any choice that reaches `want` has at least as many elements; those outside of `xs` weigh
nothing. -/
theorem reaching_optimal [DecidableEq α] {want : Nat} {xs ys : List α} (hxs : Descending w xs)
    (hnodup : ys.Nodup) (hout : ∀ y ∈ ys, y ∉ xs → w y = 0) (hreach : want ≤ weight w ys) :
    (reaching w want xs).length ≤ ys.length := by
  have hfilter : weight w (ys.filter (· ∈ xs)) = weight w ys :=
    weight_filter fun y hy hp => hout y hy (of_decide_eq_false hp)
  have hsub : ys.filter (· ∈ xs) ⊆ xs := fun y hy =>
    of_decide_eq_true (List.mem_filter.mp hy).2
  obtain ⟨zs, hperm, hzs⟩ := List.subperm_of_subset (hnodup.filter _) hsub
  have hweight := weight_sublist_le hxs hzs
  rw [weight_perm w hperm, hfilter] at hweight
  calc (reaching w want xs).length ≤ zs.length := length_reaching_le w (hreach.trans hweight)
    _ = (ys.filter (· ∈ xs)).length := hperm.length_eq
    _ ≤ ys.length := List.length_filter_le _ _

end Descending
end PcapyNg.GreedyCover
