import PcapyNg.Library.BoundedLog
import Mathlib.Data.Nat.Basic
import Mathlib.Tactic.Ring

/-!
# A log shared out between readers

The offsets of a log's entries are cut into as many consecutive ranges as there are readers.
The ranges are nearly of one length, and put together they are the log, whatever the number of
readers and of entries; a range may be empty.
-/

namespace PcapyNg.BoundedLog
set_option autoImplicit false

universe u
variable {α : Type u}

section Offsets
variable (size : α → Nat)

/-- Where the entries of a log begin, and where the last one ends. -/
def offsets : Nat → List α → List Nat
  | start, [] => [start]
  | start, x :: xs => start :: offsets (start + size x) xs

theorem offsets_getElem (start : Nat) {xs : List α} {i : Nat} (hi : i ≤ xs.length) :
    (offsets size start xs)[i]? = some (start + total size (xs.take i)) := by
  induction xs generalizing start i with
  | nil =>
    obtain rfl : i = 0 := Nat.le_zero.mp hi
    rfl
  | cons x xs ih =>
    cases i with
    | zero => rfl
    | succ i =>
      have hrest := ih (start + size x) (Nat.le_of_succ_le_succ hi)
      rw [List.take_succ_cons, total_cons, ← Nat.add_assoc]
      exact hrest

end Offsets

section Share
variable (n workers : Nat)

/-- The number of entries before the range of reader `k`. -/
def share (k : Nat) : Nat := n * k / workers

@[simp] theorem share_zero : share n workers 0 = 0 := by simp [share]

variable {workers}

theorem share_last (hworkers : 0 < workers) : share n workers workers = n :=
  Nat.mul_div_cancel n hworkers

theorem share_mono {j k : Nat} (hjk : j ≤ k) : share n workers j ≤ share n workers k := by
  apply Nat.div_le_div_right
  exact Nat.mul_le_mul_left n hjk

theorem share_le (hworkers : 0 < workers) {k : Nat} (hk : k ≤ workers) : share n workers k ≤ n := by
  have hle : share n workers k ≤ share n workers workers := share_mono n hk
  rwa [share_last n hworkers] at hle

/-- The ranges differ by one entry at most. -/
theorem share_succ (hworkers : 0 < workers) (k : Nat) :
    share n workers k + n / workers ≤ share n workers (k + 1) ∧
      share n workers (k + 1) ≤ share n workers k + n / workers + 1 := by
  have hsplit : n * (k + 1) = n * k + n := by ring
  unfold share
  rw [hsplit, Nat.add_div hworkers]
  split <;> omega

end Share

section Part
variable (cut : Nat → Nat) (xs : List α)

/-- The entries between two cuts. -/
def part (k : Nat) : List α := (xs.drop (cut k)).take (cut (k + 1) - cut k)

variable {cut}

theorem take_part {k : Nat} (hmono : cut k ≤ cut (k + 1)) :
    xs.take (cut (k + 1)) = xs.take (cut k) ++ part cut xs k := by
  have hadd : cut (k + 1) = cut k + (cut (k + 1) - cut k) := by omega
  rw [part, ← List.take_add, ← hadd]

/-- Put together the ranges are the log. -/
theorem flatMap_part (hzero : cut 0 = 0) (hmono : ∀ k, cut k ≤ cut (k + 1)) (n : Nat) :
    (List.range n).flatMap (part cut xs) = xs.take (cut n) := by
  induction n with
  | zero => rw [hzero]; rfl
  | succ n ih =>
    rw [List.range_succ, List.flatMap_append, ih, take_part xs (hmono n)]
    simp

theorem part_length {k : Nat} (hle : cut (k + 1) ≤ xs.length) :
    (part cut xs k).length = cut (k + 1) - cut k := by
  rw [part, List.length_take, List.length_drop]
  omega

theorem part_sublist (k : Nat) : (part cut xs k).Sublist xs :=
  (List.take_sublist _ _).trans (List.drop_sublist _ _)

/-- What stands before a range, the range, and what stands behind it. -/
theorem append_part {k : Nat} (hmono : cut k ≤ cut (k + 1)) :
    xs = xs.take (cut k) ++ (part cut xs k ++ xs.drop (cut (k + 1))) := by
  rw [← List.append_assoc, ← take_part xs hmono, List.take_append_drop]

end Part

/-- The ranges of the readers, one after the other. -/
def shares (workers : Nat) (xs : List α) : List (List α) :=
  (List.range workers).map (part (share xs.length workers) xs)

@[simp] theorem shares_length (workers : Nat) (xs : List α) :
    (shares workers xs).length = workers := by simp [shares]

section Shares
variable {workers : Nat} (hworkers : 0 < workers) {xs s : List α}
include hworkers

theorem shares_flatten : (shares workers xs).flatten = xs := by
  have hmono : ∀ k, share xs.length workers k ≤ share xs.length workers (k + 1) :=
    fun k => share_mono _ (Nat.le_succ k)
  rw [shares, ← List.flatMap_def, flatMap_part xs (share_zero _ _) hmono,
    share_last _ hworkers, List.take_length]

theorem shares_even (hs : s ∈ shares workers xs) :
    xs.length / workers ≤ s.length ∧ s.length ≤ xs.length / workers + 1 := by
  obtain ⟨k, hk, rfl⟩ := List.mem_map.mp hs
  have hle : share xs.length workers (k + 1) ≤ xs.length :=
    share_le xs.length hworkers (List.mem_range.mp hk)
  have hwidth := share_succ xs.length hworkers k
  rw [part_length xs hle]
  generalize xs.length / workers = q at hwidth ⊢
  omega

end Shares

theorem mem_of_mem_shares {workers : Nat} {xs s : List α} (hs : s ∈ shares workers xs) {x : α}
    (hx : x ∈ s) : x ∈ xs := by
  obtain ⟨k, -, rfl⟩ := List.mem_map.mp hs
  exact (part_sublist xs k).subset hx

end PcapyNg.BoundedLog
