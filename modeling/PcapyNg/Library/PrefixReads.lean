import Mathlib.Data.List.Basic
import Mathlib.Tactic.Common

/-!
# Parsers that a longer input cannot contradict

A parser reads its input by position and may fail, find nothing, or find a list. `Below` compares
its outcome on two inputs: what the first finds is the beginning of what the second finds. Where
one input is a prefix of the other, parsers put together from the rules below are monotone.
-/

namespace PcapyNg.PrefixReads
set_option autoImplicit false

universe v w x
variable {α γ : Type v} {ε : Type w}

/-- What `x` has found is the beginning of what `y` has found. -/
def Below (x y : Except ε (Option (List γ))) : Prop :=
  ∀ s, x = .ok (some s) → ∃ t, y = .ok (some t) ∧ s <+: t

theorem Below.of_none (y : Except ε (Option (List γ))) : Below (.ok none) y := by
  intro s h
  cases h

theorem Below.of_error (e : ε) (y : Except ε (Option (List γ))) : Below (.error e) y := by
  intro s h
  cases h

theorem Below.found {s t : List γ} (h : s <+: t) :
    Below (.ok (some s) : Except ε (Option _)) (.ok (some t)) := by
  intro s' hs
  cases hs
  exact ⟨t, rfl, h⟩

/-- The rule of reading: the longer input reads the same. -/
theorem Below.bind {x y : Except ε α} {f g : α → Except ε (Option (List γ))}
    (hread : ∀ a, x = .ok a → y = .ok a) (hnext : ∀ a, Below (f a) (g a)) :
    Below (x >>= f) (y >>= g) := by
  cases x with
  | error e => exact .of_error e _
  | ok a =>
    rw [hread a rfl]
    exact hnext a

/-- The rule of length checks: the longer input passes where the shorter does. -/
theorem Below.check {P Q : Prop} [Decidable P] [Decidable Q] {x y : Except ε (Option (List γ))}
    (hpass : ¬ P → ¬ Q) (h : Below x y) :
    Below (if P then .ok none else x) (if Q then .ok none else y) := by
  by_cases hP : P
  · rw [if_pos hP]
    exact .of_none _
  · rw [if_neg hP, if_neg (hpass hP)]
    exact h

theorem Below.branch {P : Prop} [Decidable P] {x x' y y' : Except ε (Option (List γ))}
    (hthen : Below x y) (helse : Below x' y') :
    Below (if P then x else x') (if P then y else y') := by
  by_cases hP : P
  · rw [if_pos hP, if_pos hP]
    exact hthen
  · rw [if_neg hP, if_neg hP]
    exact helse

section Inputs
variable {β : Type x} {b b' : List β} (h : b <+: b')
include h

theorem getElem?_extends {i : Nat} {v : β} (hget : b[i]? = some v) : b'[i]? = some v := by
  obtain ⟨rest, rfl⟩ := h
  obtain ⟨hlt, -⟩ := List.getElem?_eq_some_iff.mp hget
  rw [List.getElem?_append_left hlt]
  exact hget

/-- Python's `b[i : i + n]`, which is cut where the input ends. -/
theorem slice_extends (i n : Nat) : (b.drop i).take n <+: (b'.drop i).take n := by
  obtain ⟨rest, rfl⟩ := h
  rw [List.drop_append, List.take_append]
  exact List.prefix_append _ _

end Inputs
end PcapyNg.PrefixReads
