import Mathlib.Algebra.BigOperators.Group.List.Basic
import Mathlib.Logic.Function.Basic
import Mathlib.Order.Basic
import Mathlib.Tactic.Common

/-!
# Reading counters one at a time while they grow

A reader collects several counters, one after the other and in any order, while a writer goes on.
No moment need have had the counters it ends up with; but each of them lies between the counter
when the reader began and the counter when it finished.
-/

namespace PcapyNg.Snapshot
set_option autoImplicit false

universe u v
variable {ι : Type u} {γ : Type v} [DecidableEq ι]

/-- A collection under way: the counters when it began, and what has been read. -/
structure Collect (ι : Type u) (γ : Type v) where
  first : ι → γ
  got : ι → Option γ

namespace Collect

def start (now : ι → γ) : Collect ι γ := ⟨now, fun _ => none⟩

def read (c : Collect ι γ) (now : ι → γ) (i : ι) : Collect ι γ :=
  { c with got := Function.update c.got i (some (now i)) }

@[simp] theorem read_got_self (c : Collect ι γ) (now : ι → γ) (i : ι) :
    (c.read now i).got i = some (now i) := Function.update_self ..

theorem read_got_ne (c : Collect ι γ) (now : ι → γ) {i j : ι} (hji : j ≠ i) :
    (c.read now i).got j = c.got j := Function.update_of_ne hji ..

variable [Preorder γ]

/-- What has been read lies between the counters of the beginning and those of now. -/
structure Within (c : Collect ι γ) (now : ι → γ) : Prop where
  grown : ∀ i, c.first i ≤ now i
  between : ∀ i v, c.got i = some v → c.first i ≤ v ∧ v ≤ now i

omit [DecidableEq ι] in
theorem Within.start (now : ι → γ) : (Collect.start now).Within now where
  grown _ := le_refl _
  between _ _ h := by cases h

theorem Within.read {c : Collect ι γ} {now : ι → γ} (h : c.Within now) (i : ι) :
    (c.read now i).Within now where
  grown := h.grown
  between j v hj := by
    by_cases hji : j = i
    · subst hji
      rw [read_got_self] at hj
      cases hj
      exact ⟨h.grown j, le_refl _⟩
    · rw [read_got_ne c now hji] at hj
      exact h.between j v hj

omit [DecidableEq ι] in
theorem Within.grow {c : Collect ι γ} {now now' : ι → γ} (h : c.Within now)
    (hgrow : ∀ i, now i ≤ now' i) : c.Within now' where
  grown i := (h.grown i).trans (hgrow i)
  between i v hi := ⟨(h.between i v hi).1, (h.between i v hi).2.trans (hgrow i)⟩

end Collect
end PcapyNg.Snapshot
