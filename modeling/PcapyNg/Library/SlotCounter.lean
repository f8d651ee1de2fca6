import Mathlib.Algebra.BigOperators.Group.Finset.Basic
import Mathlib.Data.List.Count
import Mathlib.Data.List.TakeWhile
import Mathlib.Data.Finset.Basic
import Mathlib.Logic.Function.Iterate
import Mathlib.Tactic.Common

/-!
# Direct-mapped counters that overwrite on collision

Every key has one slot; a slot holds one key and its count, and touching another key
of the slot evicts it. `recent` says what the table remembers without mentioning the
table, and the exact dictionary is the same reading with nothing ever evicted.
The counter type is a parameter, so a machine counter that wraps is an instance.
-/

namespace PcapyNg.SlotCounter
set_option autoImplicit false

universe u v w
variable {ι : Type u} {κ : Type v} {γ : Type w} [DecidableEq ι] [DecidableEq κ]

structure Table (ι : Type u) (κ : Type v) (γ : Type w) where
  keys : ι → κ
  cnt : ι → γ

section Run
variable (slot : κ → ι) (zero : γ) (succ : γ → γ)

/-- The count of `k` before this touch, and the table after it. -/
def touch (t : Table ι κ γ) (k : κ) : γ × Table ι κ γ :=
  let seen := if t.keys (slot k) = k then t.cnt (slot k) else zero
  (seen, ⟨Function.update t.keys (slot k) k, Function.update t.cnt (slot k) (succ seen)⟩)

@[simp] theorem touch_keys_self (t : Table ι κ γ) (k : κ) :
    (touch slot zero succ t k).2.keys (slot k) = k := by simp [touch]

@[simp] theorem touch_cnt_self (t : Table ι κ γ) (k : κ) :
    (touch slot zero succ t k).2.cnt (slot k) = succ (touch slot zero succ t k).1 := by
  simp [touch]

theorem touch_fst_of_held {t : Table ι κ γ} {k : κ} (h : t.keys (slot k) = k) :
    (touch slot zero succ t k).1 = t.cnt (slot k) := if_pos h

theorem touch_other (t : Table ι κ γ) {k x : κ} (h : slot k ≠ slot x) :
    (touch slot zero succ t x).2.keys (slot k) = t.keys (slot k) ∧
      (touch slot zero succ t x).2.cnt (slot k) = t.cnt (slot k) :=
  ⟨Function.update_of_ne h _ _, Function.update_of_ne h _ _⟩

def run (t : Table ι κ γ) (ks : List κ) : Table ι κ γ :=
  ks.foldl (fun t k => (touch slot zero succ t k).2) t

/-- Among the earlier touches `h`, newest first, those of `k` back to the last touch of
another key in its slot. -/
def recent (h : List κ) (k : κ) : Nat :=
  (h.takeWhile fun x => x = k || slot x ≠ slot k).count k

@[simp] theorem recent_nil (k : κ) : recent slot [] k = 0 := by simp [recent]

theorem recent_cons_self (h : List κ) (k : κ) : recent slot (k :: h) k = recent slot h k + 1 := by
  simp [recent]

theorem recent_cons_evict {h : List κ} {x k : κ} (hne : x ≠ k) (hslot : slot x = slot k) :
    recent slot (x :: h) k = 0 := by
  simp [recent, hne, hslot]

theorem recent_cons_other {h : List κ} {x k : κ} (hslot : slot x ≠ slot k) :
    recent slot (x :: h) k = recent slot h k := by
  have hne : x ≠ k := fun he => hslot (congrArg slot he)
  simp [recent, hslot, hne]

theorem recent_le_count (h : List κ) (k : κ) : recent slot h k ≤ h.count k :=
  (List.takeWhile_sublist _).count_le k

/-- Older touches can only add to what is remembered. -/
theorem recent_le_append (g h : List κ) (k : κ) : recent slot g k ≤ recent slot (g ++ h) k := by
  induction g with
  | nil => simp
  | cons x g ih =>
    rw [List.cons_append]
    by_cases hslot : slot x = slot k
    · by_cases hne : x = k
      · subst x
        rw [recent_cons_self, recent_cons_self]
        omega
      · rw [recent_cons_evict slot hne hslot]
        exact Nat.zero_le _
    · rw [recent_cons_other slot hslot, recent_cons_other slot hslot]
      exact ih

/-- Without a rival in the slot nothing is forgotten. -/
theorem recent_eq_count {h : List κ} {k : κ} (halone : ∀ x ∈ h, slot x = slot k → x = k) :
    recent slot h k = h.count k := by
  rw [recent, List.takeWhile_eq_self_iff.mpr]
  intro x hx
  by_cases hs : slot x = slot k
  · simp [halone x hx hs]
  · simp [hs]

/-- What the table holds after the touches of `h`, newest first. -/
def Remembers (h : List κ) (t : Table ι κ γ) : Prop :=
  ∀ k, (t.keys (slot k) = k ∧ t.cnt (slot k) = succ^[recent slot h k] zero) ∨
    (t.keys (slot k) ≠ k ∧ recent slot h k = 0)

variable {slot zero succ}

theorem Remembers.fresh (e : κ) : Remembers slot zero succ [] ⟨fun _ => e, fun _ => zero⟩ := by
  intro k
  by_cases hk : e = k
  · exact Or.inl ⟨hk, by simp⟩
  · exact Or.inr ⟨hk, by simp⟩

theorem Remembers.seen {h : List κ} {t : Table ι κ γ} (ht : Remembers slot zero succ h t) (k : κ) :
    (touch slot zero succ t k).1 = succ^[recent slot h k] zero := by
  rcases ht k with ⟨hk, hc⟩ | ⟨hk, hr⟩
  · simp [touch, hk, hc]
  · simp [touch, hk, hr]

/-- One touch extends the history by one key. -/
theorem Remembers.step {h : List κ} {t : Table ι κ γ} (ht : Remembers slot zero succ h t) (x : κ) :
    Remembers slot zero succ (x :: h) (touch slot zero succ t x).2 := by
  intro k
  have hseen := ht.seen x
  by_cases hslot : slot x = slot k
  · by_cases hne : x = k
    · subst x
      left
      refine ⟨by simp, ?_⟩
      rw [recent_cons_self, Function.iterate_succ_apply', ← hseen, touch_cnt_self]
    · right
      refine ⟨by simp [touch, hslot, hne], recent_cons_evict slot hne hslot⟩
  · have hslot' : slot k ≠ slot x := fun he => hslot he.symm
    rw [recent_cons_other slot hslot]
    simpa [touch, hslot'] using ht k

/-- The run lemma: after any sequence of touches the table remembers exactly `recent`. -/
theorem Remembers.run {h : List κ} {t : Table ι κ γ} (ht : Remembers slot zero succ h t)
    (ks : List κ) : Remembers slot zero succ (ks.reverse ++ h) (run slot zero succ t ks) := by
  induction ks generalizing h t with
  | nil => exact ht
  | cons k ks ih =>
    rw [List.reverse_cons, List.append_assoc]
    exact ih (ht.step k)

end Run

/-! Counting the touches whose key was seen fewer than `N` times before, with eviction and
without. Histories are newest first. -/

section Heads
variable (slot : κ → ι) (N : Nat)

def heads : List κ → Nat
  | [] => 0
  | k :: h => heads h + if recent slot h k < N then 1 else 0

/-- The same count with an exact dictionary in place of the table. -/
def exactHeads : List κ → Nat
  | [] => 0
  | k :: h => exactHeads h + if h.count k < N then 1 else 0

theorem exactHeads_le_heads (h : List κ) : exactHeads N h ≤ heads slot N h := by
  induction h with
  | nil => exact Nat.le_refl 0
  | cons k h ih =>
    have hle := recent_le_count slot h k
    simp only [exactHeads, heads]
    split <;> split <;> omega

/-- An exact dictionary reports `min N` touches of every key. -/
theorem exactHeads_eq_sum (h : List κ) :
    exactHeads N h = ∑ k ∈ h.toFinset, min N (h.count k) := by
  induction h with
  | nil => rfl
  | cons k h ih =>
    have hcons : ∀ x, (k :: h).count x = h.count x + if k = x then 1 else 0 := by
      intro x
      rw [List.count_cons]
      simp
    have hrest : ∑ x ∈ h.toFinset.erase k, min N ((k :: h).count x) =
        ∑ x ∈ h.toFinset.erase k, min N (h.count x) := by
      apply Finset.sum_congr rfl
      intro x hx
      rw [hcons x, if_neg (Finset.ne_of_mem_erase hx).symm, Nat.add_zero]
    have hsplit : ∑ x ∈ (k :: h).toFinset, min N ((k :: h).count x) =
        min N ((k :: h).count k) + ∑ x ∈ h.toFinset.erase k, min N (h.count x) := by
      rw [List.toFinset_cons, ← Finset.insert_erase (Finset.mem_insert_self k h.toFinset),
        Finset.sum_insert (Finset.notMem_erase k _), Finset.erase_insert_eq_erase, hrest]
    have hsum : exactHeads N h =
        min N (h.count k) + ∑ x ∈ h.toFinset.erase k, min N (h.count x) := by
      rw [ih]
      by_cases hk : k ∈ h
      · rw [Finset.add_sum_erase _ (fun x => min N (h.count x)) (List.mem_toFinset.mpr hk)]
      · rw [List.count_eq_zero_of_not_mem hk, Finset.erase_eq_of_notMem (by simpa using hk)]
        simp
    rw [exactHeads, hsplit, hsum, hcons k, if_pos rfl]
    split <;> omega

omit [DecidableEq κ] in
theorem count_map_of_injOn {β : Type*} [DecidableEq β] [DecidableEq κ] (g : β → κ) {h : List β}
    {b : β} (hinj : ∀ x ∈ h, g x = g b → x = b) : (h.map g).count (g b) = h.count b := by
  induction h with
  | nil => rfl
  | cons x h ih =>
    have hrest := ih fun y hy => hinj y (List.mem_cons_of_mem x hy)
    have hx : g x = g b ↔ x = b := ⟨hinj x (by simp), congrArg g⟩
    simp only [List.map_cons, List.count_cons, hrest, beq_iff_eq, hx]

theorem exactHeads_map {β : Type*} [DecidableEq β] (g : β → κ) {h : List β}
    (hinj : ∀ x ∈ h, ∀ y ∈ h, g x = g y → x = y) :
    exactHeads N (h.map g) = exactHeads N h := by
  induction h with
  | nil => rfl
  | cons b h ih =>
    have hrest := ih fun x hx y hy => hinj x (List.mem_cons_of_mem b hx) y (List.mem_cons_of_mem b hy)
    have hcount := count_map_of_injOn g (h := h) (b := b)
      fun x hx => hinj x (List.mem_cons_of_mem b hx) b (by simp)
    simp only [List.map_cons, exactHeads, hrest, hcount]

end Heads
end PcapyNg.SlotCounter
