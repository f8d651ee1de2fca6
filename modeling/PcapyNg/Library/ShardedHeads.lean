import Mathlib.Algebra.BigOperators.Group.Finset.Piecewise
import Mathlib.Algebra.Order.BigOperators.Group.Finset
import PcapyNg.Library.SlotCounter

/-!
# Several counter tables behind one stream

Every touch goes to one of several tables, and every key always to the same one. A table that
sees fewer rivals forgets less: all tables together report no more heads than one table that
sees everything, and no fewer than an exact dictionary.
-/

namespace PcapyNg.SlotCounter
set_option autoImplicit false

universe u v w x
variable {ι : Type u} {κ : Type v} [DecidableEq ι]

/-- Rivals can only be lost: what keeps every touch of `k` remembers no less of it. -/
theorem recent_le_of_sublist [DecidableEq κ] (slot : κ → ι) {g h : List κ} {k : κ}
    (hsub : g.Sublist h) (hkeep : h.count k ≤ g.count k) :
    recent slot h k ≤ recent slot g k := by
  induction hsub with
  | slnil => exact Nat.le_refl _
  | @cons g h x hsub ih =>
    have hle := hsub.count_le k
    have hne : x ≠ k := by
      intro hx
      subst hx
      rw [List.count_cons_self] at hkeep
      omega
    rw [List.count_cons_of_ne hne] at hkeep
    by_cases hslot : slot x = slot k
    · rw [recent_cons_evict slot hne hslot]
      exact Nat.zero_le _
    · rw [recent_cons_other slot hslot]
      exact ih hkeep
  | @cons_cons g h x hsub ih =>
    by_cases hx : x = k
    · subst hx
      rw [List.count_cons_self, List.count_cons_self] at hkeep
      rw [recent_cons_self, recent_cons_self]
      exact Nat.succ_le_succ (ih (Nat.le_of_succ_le_succ hkeep))
    · rw [List.count_cons_of_ne hx, List.count_cons_of_ne hx] at hkeep
      by_cases hslot : slot x = slot k
      · rw [recent_cons_evict slot hx hslot]
        exact Nat.zero_le _
      · rw [recent_cons_other slot hslot, recent_cons_other slot hslot]
        exact ih hkeep

section Shards
variable {β : Type w} {ω : Type x} (key : β → Option κ) (owner : β → ω)

/-- No key goes to two tables. -/
def OneOwner (h : List β) : Prop :=
  ∀ b ∈ h, ∀ c ∈ h, ∀ k, key b = some k → key c = some k → owner b = owner c

variable {key owner} in
theorem OneOwner.tail {b : β} {h : List β} (hone : OneOwner key owner (b :: h)) :
    OneOwner key owner h :=
  fun c hc d hd => hone c (List.mem_cons_of_mem b hc) d (List.mem_cons_of_mem b hd)

variable [DecidableEq ω]

/-- The touches of `h` that go to the table `o`; what has no key touches nothing. -/
def share (o : ω) (h : List β) : List κ := (h.filter fun b => owner b = o).filterMap key

variable {key owner}

theorem share_sublist (o : ω) (h : List β) : (share key owner o h).Sublist (h.filterMap key) :=
  List.filter_sublist.filterMap key

theorem share_cons_self {b : β} {k : κ} (hk : key b = some k) (h : List β) :
    share key owner (owner b) (b :: h) = k :: share key owner (owner b) h := by
  unfold share
  rw [List.filter_cons_of_pos (by simp), List.filterMap_cons_some hk]

theorem share_cons_other {b : β} {o : ω} (ho : owner b ≠ o) (h : List β) :
    share key owner o (b :: h) = share key owner o h := by
  unfold share
  rw [List.filter_cons_of_neg (by simpa using ho)]

theorem share_cons_none {b : β} (hb : key b = none) (o : ω) (h : List β) :
    share key owner o (b :: h) = share key owner o h := by
  unfold share
  by_cases ho : owner b = o
  · rw [List.filter_cons_of_pos (by simpa using ho), List.filterMap_cons_none hb]
  · rw [List.filter_cons_of_neg (by simpa using ho)]

variable (owners : Finset ω)

/-- One more touch: only the table of its key moves. -/
theorem sum_share_cons {score : List κ → Nat} {gain : List κ → κ → Nat}
    (hscore : ∀ k h, score (k :: h) = score h + gain h k) {b : β} {k : κ} {h : List β}
    (hk : key b = some k) (hb : owner b ∈ owners) :
    ∑ o ∈ owners, score (share key owner o (b :: h)) =
      ∑ o ∈ owners, score (share key owner o h) + gain (share key owner (owner b) h) k := by
  rw [← Finset.add_sum_erase _ _ hb,
    ← Finset.add_sum_erase _ (fun o => score (share key owner o h)) hb, share_cons_self hk, hscore]
  have hrest : ∑ o ∈ owners.erase (owner b), score (share key owner o (b :: h)) =
      ∑ o ∈ owners.erase (owner b), score (share key owner o h) := by
    apply Finset.sum_congr rfl
    intro o ho
    rw [share_cons_other (Finset.ne_of_mem_erase ho).symm]
  rw [hrest]
  omega

/-- Every element is counted in one share. -/
theorem sum_countP_filter (q : β → Bool) {h : List β} (howners : ∀ b ∈ h, owner b ∈ owners) :
    ∑ o ∈ owners, (h.filter fun b => owner b = o).countP q = h.countP q := by
  induction h with
  | nil => exact Finset.sum_eq_zero fun o _ => rfl
  | cons b h ih =>
    have hrest := ih fun c hc => howners c (List.mem_cons_of_mem b hc)
    have hcons : ∀ o, ((b :: h).filter fun b => owner b = o).countP q =
        (h.filter fun b => owner b = o).countP q +
          if owner b = o then (if q b then 1 else 0) else 0 := by
      intro o
      by_cases ho : owner b = o
      · rw [List.filter_cons_of_pos (by simpa using ho), List.countP_cons, if_pos ho]
      · rw [List.filter_cons_of_neg (by simpa using ho), if_neg ho, Nat.add_zero]
    simp only [hcons]
    rw [Finset.sum_add_distrib, hrest, Finset.sum_ite_eq, if_pos (howners b (by simp)),
      List.countP_cons]

variable [DecidableEq κ]

/-- The owner of a key has seen all of its touches. -/
theorem count_share {b : β} {k : κ} {h : List β} (hk : key b = some k)
    (howner : ∀ c ∈ h, key c = some k → owner b = owner c) :
    (share key owner (owner b) h).count k = (h.filterMap key).count k := by
  induction h with
  | nil => rfl
  | cons c h ih =>
    have hrest := ih fun d hd => howner d (List.mem_cons_of_mem c hd)
    cases hc : key c with
    | none => rw [share_cons_none hc, List.filterMap_cons_none hc, hrest]
    | some k' =>
      rw [List.filterMap_cons_some hc]
      by_cases hkk : k' = k
      · subst hkk
        rw [howner c (by simp) hc] at hrest ⊢
        rw [share_cons_self hc, List.count_cons_self, List.count_cons_self, hrest]
      · rw [List.count_cons_of_ne hkk, ← hrest]
        by_cases ho : owner c = owner b
        · rw [← ho, share_cons_self hc, List.count_cons_of_ne hkk]
        · rw [share_cons_other ho]

theorem recent_le_share (slot : κ → ι) {b : β} {k : κ} {h : List β} (hk : key b = some k)
    (howner : ∀ c ∈ h, key c = some k → owner b = owner c) :
    recent slot (h.filterMap key) k ≤ recent slot (share key owner (owner b) h) k :=
  recent_le_of_sublist slot (share_sublist (owner b) h) (count_share hk howner).ge

variable (N : Nat)

theorem sum_heads_share_le (slot : κ → ι) {h : List β} (hone : OneOwner key owner h)
    (howners : ∀ b ∈ h, owner b ∈ owners) :
    ∑ o ∈ owners, heads slot N (share key owner o h) ≤ heads slot N (h.filterMap key) := by
  induction h with
  | nil => exact (Finset.sum_eq_zero fun o _ => rfl).le
  | cons b h ih =>
    have hrest := ih hone.tail fun c hc => howners c (List.mem_cons_of_mem b hc)
    cases hk : key b with
    | none =>
      rw [List.filterMap_cons_none hk]
      simpa only [share_cons_none hk] using hrest
    | some k =>
      have hle := recent_le_share slot hk
        fun c hc hck => hone b (by simp) c (List.mem_cons_of_mem b hc) k hk hck
      rw [List.filterMap_cons_some hk, heads, sum_share_cons owners (fun _ _ => rfl) hk
        (howners b (by simp))]
      apply Nat.add_le_add hrest
      split <;> split <;> omega

theorem sum_exactHeads_share {h : List β} (hone : OneOwner key owner h)
    (howners : ∀ b ∈ h, owner b ∈ owners) :
    ∑ o ∈ owners, exactHeads N (share key owner o h) = exactHeads N (h.filterMap key) := by
  induction h with
  | nil => exact Finset.sum_eq_zero fun o _ => rfl
  | cons b h ih =>
    have hrest := ih hone.tail fun c hc => howners c (List.mem_cons_of_mem b hc)
    cases hk : key b with
    | none =>
      rw [List.filterMap_cons_none hk]
      simpa only [share_cons_none hk] using hrest
    | some k =>
      have hcount := count_share hk
        fun c hc hck => hone b (by simp) c (List.mem_cons_of_mem b hc) k hk hck
      rw [List.filterMap_cons_some hk, exactHeads, sum_share_cons owners (fun _ _ => rfl) hk
        (howners b (by simp)), hrest, hcount]

/-- The tables together lie between an exact dictionary and one table for everything. -/
theorem exactHeads_le_sum_heads (slot : κ → ι) {h : List β} (hone : OneOwner key owner h)
    (howners : ∀ b ∈ h, owner b ∈ owners) :
    exactHeads N (h.filterMap key) ≤ ∑ o ∈ owners, heads slot N (share key owner o h) := by
  rw [← sum_exactHeads_share owners N hone howners]
  exact Finset.sum_le_sum fun o _ => exactHeads_le_heads slot N _

end Shards
end PcapyNg.SlotCounter
