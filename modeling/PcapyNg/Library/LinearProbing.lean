import Mathlib.Data.Finset.Card
import Mathlib.Data.Finset.Basic
import Mathlib.Logic.Function.Iterate
import Mathlib.Tactic.Common

/-!
# Open addressing with a cyclic probe sequence

A table is a function from slots to values with one distinguished empty value.
A key rests somewhere on the walk that starts at its home slot, and an
unsuccessful search stops at the first empty slot of that walk. Nothing here
depends on the hash, on the number of slots or on how the walk is computed:
`ProbeCycle` only asks that every slot is reached from every other.
-/

namespace PcapyNg.LinearProbing
set_option autoImplicit false

universe u v
variable {ι : Type u} {α : Type v}

/-- A finite set of slots that the walk `next` visits completely from any start. -/
structure ProbeCycle (ι : Type u) where
  next : ι → ι
  slots : Finset ι
  next_mem : ∀ j ∈ slots, next j ∈ slots
  reach : ∀ i ∈ slots, ∀ j ∈ slots, ∃ k < slots.card, next^[k] i = j

namespace ProbeCycle

theorem iterate_mem (c : ProbeCycle ι) {j : ι} (hj : j ∈ c.slots) (k : Nat) :
    c.next^[k] j ∈ c.slots := by
  induction k with
  | zero => exact hj
  | succ k ih =>
    rw [Function.iterate_succ_apply']
    exact c.next_mem _ ih

end ProbeCycle

/-- The first slot of the walk from `j`, among its first `fuel` slots, at which `stop` holds. -/
def scan (next : ι → ι) (stop : ι → Bool) : Nat → ι → Option ι
  | 0, _ => none
  | fuel + 1, j => if stop j then some j else scan next stop fuel (next j)

theorem scan_eq_some {next : ι → ι} {stop : ι → Bool} {fuel : Nat} {j r : ι}
    (h : scan next stop fuel j = some r) :
    ∃ k < fuel, next^[k] j = r ∧ stop r = true ∧ ∀ i < k, stop (next^[i] j) = false := by
  induction fuel generalizing j with
  | zero => simp [scan] at h
  | succ fuel ih =>
    rw [scan] at h
    by_cases hs : stop j = true
    · rw [if_pos hs] at h
      cases h
      exact ⟨0, Nat.succ_pos _, rfl, hs, by simp⟩
    · rw [if_neg hs] at h
      obtain ⟨k, hk, hr, hstop, hbefore⟩ := ih h
      refine ⟨k + 1, by omega, hr, hstop, ?_⟩
      intro i hi
      cases i with
      | zero => simpa using hs
      | succ i => exact hbefore i (by omega)

theorem scan_isSome {next : ι → ι} {stop : ι → Bool} {fuel k : Nat} {j : ι}
    (hk : k < fuel) (hstop : stop (next^[k] j) = true) : (scan next stop fuel j).isSome := by
  induction fuel generalizing j k with
  | zero => omega
  | succ fuel ih =>
    rw [scan]
    split
    · rfl
    · rename_i hs
      cases k with
      | zero => exact absurd hstop hs
      | succ k => exact ih (by omega) hstop

section Table
variable [DecidableEq α] (c : ProbeCycle ι) (home : α → ι) (empty : α)

def stopsAt (t : ι → α) (x : α) (j : ι) : Bool := t j = empty || t j = x

/-- The slot that a search or an insertion of `x` ends at; `none` when the walk has no end. -/
def locate (t : ι → α) (x : α) : Option ι :=
  scan c.next (stopsAt empty t x) c.slots.card (home x)

def find (t : ι → α) (x : α) : Option Bool :=
  (locate c home empty t x).map fun j => decide (t j = x)

def insert [DecidableEq ι] (t : ι → α) (x : α) : Option (ι → α) :=
  (locate c home empty t x).map fun j => Function.update t j x

def Present (t : ι → α) (x : α) : Prop := ∃ j ∈ c.slots, t j = x

/-- The walk from the home slot of `x` to its resting slot has no empty slot. -/
def Unbroken (t : ι → α) (x : α) : Prop :=
  ∃ k < c.slots.card, t (c.next^[k] (home x)) = x ∧
    ∀ i < k, t (c.next^[i] (home x)) ≠ empty

def Reachable (t : ι → α) : Prop := ∀ x, x ≠ empty → Present c t x → Unbroken c home empty t x

def HasGap (t : ι → α) : Prop := Present c t empty

def occupied [DecidableEq ι] (t : ι → α) : Finset ι := c.slots.filter fun j => t j ≠ empty

variable {c home empty}

theorem locate_spec {t : ι → α} {x : α} {j : ι} (hj : locate c home empty t x = some j) :
    ∃ k < c.slots.card, c.next^[k] (home x) = j ∧ (t j = empty ∨ t j = x) ∧
      ∀ i < k, t (c.next^[i] (home x)) ≠ empty ∧ t (c.next^[i] (home x)) ≠ x := by
  obtain ⟨k, hk, hr, hstop, hbefore⟩ := scan_eq_some hj
  refine ⟨k, hk, hr, by simpa [stopsAt] using hstop, ?_⟩
  intro i hi
  simpa [stopsAt] using hbefore i hi

theorem locate_mem (hhome : ∀ x, home x ∈ c.slots) {t : ι → α} {x : α} {j : ι}
    (hj : locate c home empty t x = some j) : j ∈ c.slots := by
  obtain ⟨k, -, rfl, -⟩ := locate_spec hj
  exact c.iterate_mem (hhome x) k

/-- With a free slot anywhere in the table no walk is endless. -/
theorem locate_isSome (hhome : ∀ x, home x ∈ c.slots) {t : ι → α} (hgap : HasGap c empty t)
    (x : α) : (locate c home empty t x).isSome := by
  rcases hgap with ⟨j, hj, hempty⟩
  obtain ⟨k, hk, rfl⟩ := c.reach (home x) (hhome x) j hj
  exact scan_isSome hk (by simp [stopsAt, hempty])

/-- The search is exact on a reachable table: it ends, and it ends with the right answer. -/
theorem find_eq (hhome : ∀ x, home x ∈ c.slots) {t : ι → α} (hgap : HasGap c empty t)
    (hreach : Reachable c home empty t) {x : α} (hx : x ≠ empty) :
    ∃ b, find c home empty t x = some b ∧ (b = true ↔ Present c t x) := by
  obtain ⟨j, hj⟩ := Option.isSome_iff_exists.mp (locate_isSome hhome hgap x)
  refine ⟨decide (t j = x), by simp [find, hj], ?_⟩
  obtain ⟨k, hk, hkj, hstop, hbefore⟩ := locate_spec hj
  rw [decide_eq_true_iff]
  constructor
  · intro htx
    exact ⟨j, hkj ▸ c.iterate_mem (hhome x) k, htx⟩
  · intro hp
    obtain ⟨l, _, hlx, hfull⟩ := hreach x hx hp
    rcases hstop with hempty | htx
    · -- the walk stopped at a free slot, so it cannot have passed the resting slot of `x`
      have hkl : k ≤ l := by
        by_contra hlt
        exact (hbefore l (by omega)).2 hlx
      rcases Nat.lt_or_eq_of_le hkl with hlt | heq
      · exact absurd (hkj ▸ hempty) (hfull k hlt)
      · rw [← hkj, heq]
        exact hlx
    · exact htx

/-- A key that an insertion puts into a free slot was nowhere in the table. -/
theorem not_present_of_free (hhome : ∀ x, home x ∈ c.slots) {t : ι → α} {x : α} (hx : x ≠ empty)
    (hreach : Reachable c home empty t) {j : ι} (hj : locate c home empty t x = some j)
    (hfree : t j = empty) : ¬ Present c t x := by
  intro hpresent
  obtain ⟨b, hfind, hb⟩ := find_eq hhome ⟨j, locate_mem hhome hj, hfree⟩ hreach hx
  rw [find, hj, Option.map_some, hfree] at hfind
  have hfalse : b = false := by
    rw [← Option.some.inj hfind]
    exact decide_eq_false (Ne.symm hx)
  rw [hb.mpr hpresent] at hfalse
  cases hfalse

section Insert
variable [DecidableEq ι]

omit [DecidableEq α] in
theorem present_update {t : ι → α} {x : α} {j : ι} (hmem : j ∈ c.slots)
    (hj : t j = empty ∨ t j = x) {y : α} (hy : y ≠ empty) :
    Present c (Function.update t j x) y ↔ y = x ∨ Present c t y := by
  constructor
  · intro h
    rcases h with ⟨i, hi, hiy⟩
    by_cases hij : i = j
    · subst i
      exact Or.inl (by simpa using hiy.symm)
    · exact Or.inr ⟨i, hi, by simpa [hij] using hiy⟩
  · rintro (rfl | ⟨i, hi, hiy⟩)
    · exact ⟨j, hmem, by simp⟩
    · by_cases hij : i = j
      · subst i
        rcases hj with hj | hj
        · exact absurd (hiy.symm.trans hj) hy
        · exact ⟨j, hi, by simpa using hj.symm.trans hiy⟩
      · exact ⟨i, hi, by simpa [hij] using hiy⟩

/-- One insertion: what is stored grows by `x`, reachability is kept, one slot is taken at most. -/
theorem insert_spec (hhome : ∀ x, home x ∈ c.slots) {t t' : ι → α} {x : α} (hx : x ≠ empty)
    (hreach : Reachable c home empty t) (h : insert c home empty t x = some t') :
    Reachable c home empty t' ∧
      (∀ y, y ≠ empty → (Present c t' y ↔ y = x ∨ Present c t y)) ∧
      (occupied c empty t').card ≤ (occupied c empty t).card + 1 := by
  obtain ⟨j, hj, rfl⟩ := Option.map_eq_some_iff.mp h
  obtain ⟨k, hk, hkj, hstop, hbefore⟩ := locate_spec hj
  have hmem : j ∈ c.slots := hkj ▸ c.iterate_mem (hhome x) k
  have hfull : ∀ i, t i ≠ empty → Function.update t j x i ≠ empty := by
    intro i hi
    by_cases hij : i = j
    · simpa [hij] using hx
    · simpa [hij] using hi
  refine ⟨?_, fun y hy => present_update hmem hstop hy, ?_⟩
  · intro y hy hpresent
    rcases (present_update hmem hstop hy).mp hpresent with rfl | hold
    · exact ⟨k, hk, by simp [hkj], fun i hi => hfull _ (hbefore i hi).1⟩
    · obtain ⟨l, hl, hly, hwalk⟩ := hreach y hy hold
      refine ⟨l, hl, ?_, fun i hi => hfull _ (hwalk i hi)⟩
      by_cases hlj : c.next^[l] (home y) = j
      · rw [hlj] at hly ⊢
        rcases hstop with hempty | htx
        · exact absurd (hly.symm.trans hempty) hy
        · simpa using htx.symm.trans hly
      · simpa [hlj] using hly
  · have hsub : occupied c empty (Function.update t j x) ⊆ Insert.insert j (occupied c empty t) := by
      intro i hi
      by_cases hij : i = j
      · simp [hij]
      · simpa [occupied, hij] using hi
    exact (Finset.card_le_card hsub).trans (Finset.card_insert_le _ _)

theorem hasGap_of_occupied_lt {t : ι → α} (h : (occupied c empty t).card < c.slots.card) :
    HasGap c empty t := by
  by_contra hno
  have hall : occupied c empty t = c.slots := by
    apply Finset.filter_true_of_mem
    intro j hj hempty
    exact hno ⟨j, hj, hempty⟩
  rw [hall] at h
  exact lt_irrefl _ h

variable (c home empty) in
/-- Insertion of a whole list; the empty value marks free slots and is passed over. -/
def insertAll : List α → (ι → α) → Option (ι → α)
  | [], t => some t
  | x :: xs, t => if x = empty then insertAll xs t else (insert c home empty t x).bind (insertAll xs)

theorem insertAll_empty {xs : List α} (t : ι → α) (hxs : ∀ x ∈ xs, x = empty) :
    insertAll c home empty xs t = some t := by
  induction xs with
  | nil => rfl
  | cons x xs ih =>
    rw [insertAll, if_pos (hxs x (by simp))]
    exact ih fun y hy => hxs y (List.mem_cons_of_mem x hy)

/-- What a whole list of insertions stores, as long as every walk has an end. -/
theorem insertAll_present (hhome : ∀ x, home x ∈ c.slots) (xs : List α) {t t' : ι → α}
    (hreach : Reachable c home empty t) (h : insertAll c home empty xs t = some t') :
    Reachable c home empty t' ∧ ∀ y, y ≠ empty → (Present c t' y ↔ y ∈ xs ∨ Present c t y) := by
  induction xs generalizing t with
  | nil =>
    cases h
    exact ⟨hreach, by simp⟩
  | cons x xs ih =>
    rw [insertAll] at h
    by_cases hx : x = empty
    · rw [if_pos hx] at h
      obtain ⟨hr, hp⟩ := ih hreach h
      refine ⟨hr, fun y hy => ?_⟩
      have hyx : y ≠ x := fun heq => hy (heq.trans hx)
      simp [hp y hy, hyx]
    · rw [if_neg hx] at h
      obtain ⟨t₁, hins, hrest⟩ := Option.bind_eq_some_iff.mp h
      obtain ⟨hr₁, hp₁, -⟩ := insert_spec hhome hx hreach hins
      obtain ⟨hr, hp⟩ := ih hr₁ hrest
      refine ⟨hr, fun y hy => ?_⟩
      rw [hp y hy, hp₁ y hy, List.mem_cons]
      tauto

variable (c empty) in
/-- The keys at rest in the table. -/
def stored (t : ι → α) : Finset α := (occupied c empty t).image t

variable (c empty) in
/-- No key rests in two slots. -/
def Distinct (t : ι → α) : Prop := Set.InjOn t (occupied c empty t)

theorem mem_stored {t : ι → α} {x : α} : x ∈ stored c empty t ↔ x ≠ empty ∧ Present c t x := by
  rw [stored, Finset.mem_image]
  constructor
  · intro h
    rcases h with ⟨j, hj, rfl⟩
    obtain ⟨hslot, hne⟩ := Finset.mem_filter.mp hj
    exact ⟨hne, j, hslot, rfl⟩
  · intro h
    rcases h with ⟨hx, j, hslot, rfl⟩
    exact ⟨j, Finset.mem_filter.mpr ⟨hslot, hx⟩, rfl⟩

theorem card_stored {t : ι → α} (hd : Distinct c empty t) :
    (stored c empty t).card = (occupied c empty t).card := Finset.card_image_of_injOn hd

/-- A table with a free slot holds fewer keys than it has slots. -/
theorem card_stored_lt {t : ι → α} (hgap : HasGap c empty t) :
    (stored c empty t).card < c.slots.card := by
  rcases hgap with ⟨j, hj, hempty⟩
  apply lt_of_le_of_lt Finset.card_image_le
  apply Finset.card_lt_card
  rw [occupied, Finset.filter_ssubset]
  exact ⟨j, hj, not_not.mpr hempty⟩

theorem insert_distinct (hhome : ∀ x, home x ∈ c.slots) {t t' : ι → α} {x : α} (hx : x ≠ empty)
    (hreach : Reachable c home empty t) (hd : Distinct c empty t)
    (h : insert c home empty t x = some t') : Distinct c empty t' := by
  obtain ⟨j, hj, rfl⟩ := Option.map_eq_some_iff.mp h
  obtain ⟨-, -, -, hstop, -⟩ := locate_spec hj
  rcases hstop with hfree | htx
  · have hnew := not_present_of_free hhome hx hreach hj hfree
    have hold : ∀ i ∈ occupied c empty (Function.update t j x), i ≠ j →
        i ∈ occupied c empty t ∧ t i ≠ x := by
      intro i hi hij
      obtain ⟨hslot, hne⟩ := Finset.mem_filter.mp hi
      rw [Function.update_of_ne hij] at hne
      exact ⟨Finset.mem_filter.mpr ⟨hslot, hne⟩, fun htx => hnew ⟨i, hslot, htx⟩⟩
    intro i hi k hk hik
    by_cases hij : i = j
    · by_cases hkj : k = j
      · rw [hij, hkj]
      · rw [hij, Function.update_self, Function.update_of_ne hkj] at hik
        exact absurd hik.symm (hold k hk hkj).2
    · by_cases hkj : k = j
      · rw [hkj, Function.update_self, Function.update_of_ne hij] at hik
        exact absurd hik (hold i hi hij).2
      · rw [Function.update_of_ne hij, Function.update_of_ne hkj] at hik
        exact hd (hold i hi hij).1 (hold k hk hkj).1 hik
  · rw [← htx, Function.update_eq_self]
    exact hd

/-- The invariant carried through the insertions: no key rests twice, and the keys at rest and
the pending ones together leave a slot free. -/
theorem insertAll_isSome (hhome : ∀ x, home x ∈ c.slots) (xs : List α) {t : ι → α}
    (hreach : Reachable c home empty t) (hd : Distinct c empty t)
    (hroom : (stored c empty t ∪ xs.toFinset.erase empty).card < c.slots.card) :
    ∃ t', insertAll c home empty xs t = some t' ∧ HasGap c empty t' := by
  induction xs generalizing t with
  | nil =>
    rw [List.toFinset_nil, Finset.erase_empty, Finset.union_empty, card_stored hd] at hroom
    exact ⟨t, rfl, hasGap_of_occupied_lt hroom⟩
  | cons x xs ih =>
    rw [insertAll, List.toFinset_cons] at *
    by_cases hx : x = empty
    · rw [if_pos hx]
      rw [hx, Finset.erase_insert_eq_erase] at hroom
      exact ih hreach hd hroom
    · rw [if_neg hx]
      have hgap : HasGap c empty t := by
        apply hasGap_of_occupied_lt
        rw [← card_stored hd]
        exact lt_of_le_of_lt (Finset.card_le_card Finset.subset_union_left) hroom
      obtain ⟨j, hj⟩ := Option.isSome_iff_exists.mp (locate_isSome hhome hgap x)
      have hins : insert c home empty t x = some (Function.update t j x) := by
        rw [insert, hj]
        rfl
      obtain ⟨hreach₁, hpresent, -⟩ := insert_spec hhome hx hreach hins
      have hsame : stored c empty (Function.update t j x) ∪ xs.toFinset.erase empty =
          stored c empty t ∪ (Insert.insert x xs.toFinset).erase empty := by
        ext y
        rw [Finset.mem_union, Finset.mem_union, mem_stored, mem_stored, Finset.mem_erase,
          Finset.mem_erase, Finset.mem_insert]
        by_cases hy : y = empty
        · simp [hy]
        · rw [hpresent y hy]
          tauto
      rw [hins]
      apply ih hreach₁ (insert_distinct hhome hx hreach hd hins)
      rw [hsame]
      exact hroom

theorem occupied_const : occupied c empty (fun _ => empty) = ∅ := by
  simp [occupied]

theorem distinct_const : Distinct c empty fun _ => empty := by
  rw [Distinct, occupied_const]
  simp

theorem stored_const : stored c empty (fun _ => empty) = ∅ := by
  rw [stored, occupied_const, Finset.image_empty]

omit [DecidableEq α] [DecidableEq ι] in
theorem not_present_const {y : α} (hy : y ≠ empty) : ¬ Present c (fun _ => empty) y := by
  intro hex
  rcases hex with ⟨_, _, h⟩
  exact hy h.symm

end Insert
end Table
end PcapyNg.LinearProbing
