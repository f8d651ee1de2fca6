import Mathlib.Algebra.BigOperators.Group.Finset.Basic
import Mathlib.Algebra.Order.BigOperators.Group.Finset
import Mathlib.Data.Finset.Max
import Mathlib.Order.Interval.Finset.Nat
import PcapyNg.Library.LinearProbing

/-!
# What a search in an open-addressing table costs

The number of slots that a search looks at. Which slots are occupied depends on the stored keys
alone and not on the order of their insertion, and so do the cost of a search that misses and
the cost of all searches that hit, taken together.
-/

namespace PcapyNg.LinearProbing
set_option autoImplicit false

universe u v
variable {ι : Type u} {α : Type v}

/-! Positions on the cycle. -/

namespace ProbeCycle
variable [DecidableEq ι] (c : ProbeCycle ι) {g : ι} (hg : g ∈ c.slots)

open Classical in
/-- How many steps `j` is ahead of `g`. -/
noncomputable def pos (g j : ι) : Nat := if h : ∃ k, c.next^[k] g = j then Nat.find h else 0

include hg

/-- The walk from a slot meets every slot once. -/
theorem iterate_injOn : Set.InjOn (fun k => c.next^[k] g) (Finset.range c.slots.card) := by
  have hsub : c.slots ⊆ (Finset.range c.slots.card).image fun k => c.next^[k] g := by
    intro j hj
    obtain ⟨k, hk, hkj⟩ := c.reach g hg j hj
    exact Finset.mem_image.mpr ⟨k, Finset.mem_range.mpr hk, hkj⟩
  apply Finset.card_image_iff.mp
  apply le_antisymm Finset.card_image_le
  rw [Finset.card_range]
  exact Finset.card_le_card hsub

theorem pos_spec {j : ι} (hj : j ∈ c.slots) :
    c.pos g j < c.slots.card ∧ c.next^[c.pos g j] g = j := by
  obtain ⟨k, hk, hkj⟩ := c.reach g hg j hj
  have hex : ∃ k, c.next^[k] g = j := ⟨k, hkj⟩
  rw [pos, dif_pos hex]
  exact ⟨lt_of_le_of_lt (Nat.find_min' hex hkj) hk, Nat.find_spec hex⟩

theorem pos_iterate {k : Nat} (hk : k < c.slots.card) : c.pos g (c.next^[k] g) = k := by
  obtain ⟨hlt, hpos⟩ := c.pos_spec hg (c.iterate_mem hg k)
  exact c.iterate_injOn hg (Finset.mem_coe.mpr (Finset.mem_range.mpr hlt))
    (Finset.mem_coe.mpr (Finset.mem_range.mpr hk)) hpos

/-- The walk is back after as many steps as there are slots. -/
theorem iterate_card : c.next^[c.slots.card] g = g := by
  obtain ⟨k, hk, hkg⟩ := c.reach (c.next g) (c.next_mem g hg) g hg
  have hback : c.next^[k + 1] g = g := hkg
  rcases Nat.lt_or_eq_of_le (Nat.succ_le_of_lt hk) with hlt | heq
  · have h := c.pos_iterate hg hlt
    have hzero : c.pos g (c.next^[0] g) = 0 := c.pos_iterate hg (by omega)
    rw [Function.iterate_zero_apply] at hzero
    rw [Nat.succ_eq_add_one, hback, hzero] at h
    omega
  · rw [← heq]
    exact hback

/-- The walk from `h` as a walk from `g`. -/
theorem iterate_ahead {h : ι} (hh : h ∈ c.slots) (n : Nat) :
    c.next^[n] h = c.next^[c.pos g h + n] g := by
  conv_lhs => rw [← (c.pos_spec hg hh).2]
  rw [← Function.iterate_add_apply, Nat.add_comm]

/-- A walk that does not come past `g` moves ahead of it step by step. -/
theorem pos_walk {h : ι} (hh : h ∈ c.slots) {n : Nat} (hoff : ∀ i ≤ n, c.next^[i] h ≠ g) :
    c.pos g h + n < c.slots.card ∧ c.pos g (c.next^[n] h) = c.pos g h + n := by
  have hlt := (c.pos_spec hg hh).1
  have hshort : c.pos g h + n < c.slots.card := by
    by_contra hlong
    apply hoff (c.slots.card - c.pos g h) (by omega)
    rw [c.iterate_ahead hg hh, Nat.add_sub_cancel' hlt.le, c.iterate_card hg]
  exact ⟨hshort, by rw [c.iterate_ahead hg hh, c.pos_iterate hg hshort]⟩

end ProbeCycle

/-! Counting the slots that are looked at. -/

def scanCount (next : ι → ι) (stop : ι → Bool) : Nat → ι → Option Nat
  | 0, _ => none
  | fuel + 1, j => if stop j then some 1 else (scanCount next stop fuel (next j)).map (· + 1)

theorem scanCount_of_stop {next : ι → ι} {stop : ι → Bool} {fuel k : Nat} {j : ι} (hk : k < fuel)
    (hstop : stop (next^[k] j) = true) (hbefore : ∀ i < k, stop (next^[i] j) = false) :
    scanCount next stop fuel j = some (k + 1) := by
  induction fuel generalizing j k with
  | zero => omega
  | succ fuel ih =>
    rw [scanCount]
    cases k with
    | zero => exact if_pos hstop
    | succ k =>
      have hfirst : stop j = false := hbefore 0 (Nat.succ_pos k)
      have hrest : scanCount next stop fuel (next j) = some (k + 1) :=
        ih (Nat.lt_of_succ_lt_succ hk) hstop fun i hi => hbefore (i + 1) (Nat.succ_lt_succ hi)
      rw [hfirst, if_neg Bool.false_ne_true, hrest]
      rfl

theorem scanCount_spec {next : ι → ι} {stop : ι → Bool} {fuel p : Nat} {j : ι}
    (h : scanCount next stop fuel j = some p) :
    ∃ k < fuel, p = k + 1 ∧ stop (next^[k] j) = true ∧ ∀ i < k, stop (next^[i] j) = false := by
  induction fuel generalizing j p with
  | zero => cases h
  | succ fuel ih =>
    rw [scanCount] at h
    by_cases hs : stop j = true
    · rw [if_pos hs] at h
      exact ⟨0, Nat.succ_pos fuel, (Option.some.inj h).symm, hs, fun i hi => absurd hi (Nat.not_lt_zero i)⟩
    · rw [if_neg hs] at h
      obtain ⟨q, hq, rfl⟩ := Option.map_eq_some_iff.mp h
      obtain ⟨k, hk, rfl, hstop, hbefore⟩ := ih hq
      refine ⟨k + 1, Nat.succ_lt_succ hk, rfl, hstop, ?_⟩
      intro i hi
      cases i with
      | zero => exact Bool.eq_false_iff.mpr hs
      | succ i => exact hbefore i (Nat.lt_of_succ_lt_succ hi)

/-- A search needs as many rounds as it looks at slots, and more do not change its end. -/
theorem scan_rounds {next : ι → ι} {stop : ι → Bool} {fuel p : Nat} {j : ι}
    (h : scanCount next stop fuel j = some p) (rounds : Nat) :
    scan next stop rounds j = if p ≤ rounds then some (next^[p - 1] j) else none := by
  obtain ⟨k, -, rfl, hstop, hbefore⟩ := scanCount_spec h
  clear h
  induction rounds generalizing j k with
  | zero => rfl
  | succ rounds ih =>
    rw [scan]
    cases k with
    | zero => exact (if_pos hstop).trans (if_pos (by omega)).symm
    | succ k =>
      have hfirst : stop j = false := hbefore 0 (Nat.succ_pos k)
      have hrest := ih k hstop fun i hi => hbefore (i + 1) (Nat.succ_lt_succ hi)
      rw [hfirst, if_neg Bool.false_ne_true, hrest]
      simp only [Nat.add_le_add_iff_right, Nat.add_sub_cancel]
      rfl

theorem scanCount_congr {next : ι → ι} {stop stop' : ι → Bool} {fuel : Nat} {j : ι}
    (h : ∀ i, stop (next^[i] j) = stop' (next^[i] j)) :
    scanCount next stop fuel j = scanCount next stop' fuel j := by
  induction fuel generalizing j with
  | zero => rfl
  | succ fuel ih =>
    have hfirst : stop j = stop' j := h 0
    rw [scanCount, scanCount, hfirst, ih fun i => h (i + 1)]

section Table
variable [DecidableEq α] (c : ProbeCycle ι) (home : α → ι) (empty : α)

/-- How many slots a search for `x` looks at. -/
def probes (t : ι → α) (x : α) : Option Nat :=
  scanCount c.next (stopsAt empty t x) c.slots.card (home x)

variable {c home empty} [DecidableEq ι] (hhome : ∀ x, home x ∈ c.slots)

include hhome in
/-- A search that hits looks at the slots from home to where the key rests. -/
theorem probes_hit {t : ι → α} (hreach : Reachable c home empty t) (hd : Distinct c empty t)
    {x : α} (hx : x ≠ empty) (hpresent : Present c t x) :
    ∃ k < c.slots.card, probes c home empty t x = some (k + 1) ∧ t (c.next^[k] (home x)) = x ∧
      ∀ i < k, t (c.next^[i] (home x)) ≠ empty := by
  obtain ⟨k, hk, hkx, hwalk⟩ := hreach x hx hpresent
  refine ⟨k, hk, ?_, hkx, hwalk⟩
  apply scanCount_of_stop hk
  · simp [stopsAt, hkx]
  · intro i hi
    have hother : t (c.next^[i] (home x)) ≠ x := by
      intro hix
      have hocc : ∀ n, t (c.next^[n] (home x)) ≠ empty →
          c.next^[n] (home x) ∈ (occupied c empty t : Set ι) := fun n hn =>
        Finset.mem_coe.mpr (Finset.mem_filter.mpr ⟨c.iterate_mem (hhome x) n, hn⟩)
      have hslot := hd (hocc i (hwalk i hi)) (hocc k (by rwa [hkx])) (hix.trans hkx.symm)
      have heq : i = k := c.iterate_injOn (hhome x)
        (Finset.mem_coe.mpr (Finset.mem_range.mpr (by omega)))
        (Finset.mem_coe.mpr (Finset.mem_range.mpr hk)) hslot
      omega
    simp [stopsAt, hwalk i hi, hother]

omit [DecidableEq ι] in
/-- A search that ends looks at the slots up to its end. -/
theorem probes_of_locate {t : ι → α} {x : α} {j : ι} (hj : locate c home empty t x = some j) :
    ∃ k, probes c home empty t x = some (k + 1) ∧ c.next^[k] (home x) = j := by
  obtain ⟨k, hk, hkj, hstop, hbefore⟩ := locate_spec hj
  refine ⟨k, scanCount_of_stop hk ?_ ?_, hkj⟩
  · simpa [stopsAt, hkj] using hstop
  · intro i hi
    simpa [stopsAt] using hbefore i hi

omit [DecidableEq ι] in
theorem locate_of_probes {t : ι → α} {x : α} {p : Nat} (h : probes c home empty t x = some p) :
    locate c home empty t x = some (c.next^[p - 1] (home x)) := by
  obtain ⟨k, hk, rfl, -⟩ := scanCount_spec h
  rw [locate, scan_rounds h, if_pos (Nat.succ_le_of_lt hk)]

include hhome in
/-- No search looks at more slots than are occupied, and one. -/
theorem probes_le {t : ι → α} {x : α} {p : Nat} (h : probes c home empty t x = some p) :
    p ≤ (occupied c empty t).card + 1 := by
  obtain ⟨k, hk, rfl, -, hbefore⟩ := scanCount_spec h
  have hsub : (Finset.range k).image (fun i => c.next^[i] (home x)) ⊆ occupied c empty t := by
    intro j hj
    obtain ⟨i, hi, rfl⟩ := Finset.mem_image.mp hj
    have hpassed := hbefore i (Finset.mem_range.mp hi)
    simp only [stopsAt, Bool.or_eq_false_iff, decide_eq_false_iff_not] at hpassed
    exact Finset.mem_filter.mpr ⟨c.iterate_mem (hhome x) i, hpassed.1⟩
  have hinj : Set.InjOn (fun i => c.next^[i] (home x)) (Finset.range k) :=
    (c.iterate_injOn (hhome x)).mono (Finset.coe_subset.mpr (Finset.range_mono hk.le))
  have hcard := Finset.card_le_card hsub
  rw [Finset.card_image_of_injOn hinj, Finset.card_range] at hcard
  omega

/-! Tables that hold the same keys. -/

theorem mem_occupied {t : ι → α} {j : ι} :
    j ∈ (occupied c empty t : Set ι) ↔ j ∈ c.slots ∧ t j ≠ empty := by
  rw [Finset.mem_coe, occupied, Finset.mem_filter]

/-- The run of occupied slots that ends at `j`, and the free slot in front of it. -/
theorem last_gap {t : ι → α} (hgap : HasGap c empty t) {j : ι} (hj : j ∈ c.slots) :
    ∃ g ∈ c.slots, t g = empty ∧ ∃ L < c.slots.card, c.next^[L] g = j ∧
      ∀ i, 1 ≤ i → i ≤ L → t (c.next^[i] g) ≠ empty := by
  obtain ⟨g, hmem, hlast⟩ := Finset.exists_min_image (c.slots.filter fun g => t g = empty)
    (fun g => c.pos g j) (by
      obtain ⟨g, hg, hfree⟩ := hgap
      exact ⟨g, Finset.mem_filter.mpr ⟨hg, hfree⟩⟩)
  obtain ⟨hg, hfree⟩ := Finset.mem_filter.mp hmem
  obtain ⟨hL, hLj⟩ := c.pos_spec hg hj
  refine ⟨g, hg, hfree, c.pos g j, hL, hLj, ?_⟩
  intro i hi hiL hempty
  have hclose := hlast _ (Finset.mem_filter.mpr ⟨c.iterate_mem hg i, hempty⟩)
  have hstep : c.next^[c.pos g j - i] (c.next^[i] g) = j := by
    rw [← Function.iterate_add_apply, Nat.sub_add_cancel hiL, hLj]
  have hpos := c.pos_iterate (c.iterate_mem hg i) (by omega : c.pos g j - i < c.slots.card)
  rw [hstep] at hpos
  omega

section Gap
variable {g : ι} (hg : g ∈ c.slots)
include hg hhome

/-- The walk to a key that rests `i` steps ahead of a free slot starts between them. -/
theorem home_ahead {t : ι → α} (hfree : t g = empty) (hreach : Reachable c home empty t)
    (hd : Distinct c empty t) {x : α} (hx : x ≠ empty) {i : Nat} (hi : i < c.slots.card)
    (hrest : t (c.next^[i] g) = x) :
    1 ≤ c.pos g (home x) ∧ ∃ k, probes c home empty t x = some (k + 1) ∧
      c.pos g (home x) + k = i := by
  obtain ⟨k, -, hprobes, hkx, hwalk⟩ :=
    probes_hit hhome hreach hd hx ⟨_, c.iterate_mem hg i, hrest⟩
  have hoff : ∀ n ≤ k, c.next^[n] (home x) ≠ g := by
    intro n hn hng
    rcases Nat.lt_or_eq_of_le hn with hlt | rfl
    · exact hwalk n hlt (hng ▸ hfree)
    · rw [hng, hfree] at hkx
      exact hx hkx.symm
  have hslot : c.next^[k] (home x) = c.next^[i] g :=
    hd (mem_occupied.mpr ⟨c.iterate_mem (hhome x) k, by rwa [hkx]⟩)
      (mem_occupied.mpr ⟨c.iterate_mem hg i, by rwa [hrest]⟩) (hkx.trans hrest.symm)
  have hahead := (c.pos_walk hg (hhome x) hoff).2
  rw [hslot, c.pos_iterate hg hi] at hahead
  refine ⟨?_, k, hprobes, hahead.symm⟩
  rw [Nat.one_le_iff_ne_zero]
  intro hzero
  have hhomePos := (c.pos_spec hg (hhome x)).2
  rw [hzero] at hhomePos
  exact hoff 0 (Nat.zero_le _) hhomePos.symm

omit [DecidableEq α] in
/-- A key with its home in front of a free slot rests in front of it. -/
theorem rest_before {t : ι → α} {L : Nat} (hfree : t (c.next^[L] g) = empty)
    (hreach : Reachable c home empty t) {x : α} (hx : x ≠ empty) (hpresent : Present c t x)
    (hle : c.pos g (home x) ≤ L) :
    ∃ m, c.pos g (home x) ≤ m ∧ m < L ∧ t (c.next^[m] g) = x := by
  obtain ⟨k, -, hkx, hwalk⟩ := hreach x hx hpresent
  have hahead := c.iterate_ahead hg (hhome x)
  refine ⟨c.pos g (home x) + k, Nat.le_add_right _ k, ?_, by rw [← hahead, hkx]⟩
  by_contra hpast
  have hat : t (c.next^[L - c.pos g (home x)] (home x)) = empty := by
    rw [hahead, Nat.add_sub_cancel' hle, hfree]
  rcases Nat.lt_or_eq_of_le (by omega : L - c.pos g (home x) ≤ k) with hlt | heq
  · exact hwalk _ hlt hat
  · rw [heq, hkx] at hat
    exact hx hat

end Gap

section SameKeys
variable {t t' : ι → α} (hreach : Reachable c home empty t) (hreach' : Reachable c home empty t')
  (hd : Distinct c empty t) (hd' : Distinct c empty t') (hgap : HasGap c empty t)
  (hgap' : HasGap c empty t') (hsame : ∀ x, x ≠ empty → (Present c t x ↔ Present c t' x))
include hhome hreach hreach' hd' hgap' hsame

/-- A slot that is free in one of the tables is free in the other: the keys that rest in the run
up to it would have one slot less to rest in. -/
theorem occupied_subset : occupied c empty t' ⊆ occupied c empty t := by
  intro j hj
  obtain ⟨hslot, hfull⟩ := Finset.mem_filter.mp hj
  refine Finset.mem_filter.mpr ⟨hslot, fun hfree => ?_⟩
  obtain ⟨g, hg, hgfree, L, hL, hLj, hrun⟩ := last_gap hgap' hslot
  have hmove : ∀ i ∈ Finset.Icc 1 L, ∃ m ∈ Finset.Icc 1 (L - 1),
      t (c.next^[m] g) = t' (c.next^[i] g) := by
    intro i hi
    rw [Finset.mem_Icc] at hi
    have hx := hrun i hi.1 hi.2
    obtain ⟨hone, k, -, hk⟩ := home_ahead hhome hg hgfree hreach' hd' hx (by omega) rfl
    obtain ⟨m, hlow, hhigh, hm⟩ := rest_before hhome hg (hLj.symm ▸ hfree) hreach hx
      ((hsame _ hx).mpr ⟨_, c.iterate_mem hg i, rfl⟩) (by omega)
    exact ⟨m, Finset.mem_Icc.mpr (by omega), hm⟩
  choose! m hm hkeys using hmove
  have hLpos : L ≠ 0 := by
    rintro rfl
    exact hfull (hLj ▸ hgfree)
  obtain ⟨i, hi, i', hi', hne, hmm⟩ := Finset.exists_ne_map_eq_of_card_lt_of_maps_to
    (by simp only [Nat.card_Icc]; omega : (Finset.Icc 1 (L - 1)).card < (Finset.Icc 1 L).card) hm
  have hkey : t' (c.next^[i] g) = t' (c.next^[i'] g) := by
    rw [← hkeys i hi, ← hkeys i' hi', hmm]
  rw [Finset.mem_Icc] at hi hi'
  apply hne
  exact c.iterate_injOn hg (Finset.mem_coe.mpr (Finset.mem_range.mpr (by omega)))
    (Finset.mem_coe.mpr (Finset.mem_range.mpr (by omega)))
    (hd' (mem_occupied.mpr ⟨c.iterate_mem hg i, hrun i hi.1 hi.2⟩)
      (mem_occupied.mpr ⟨c.iterate_mem hg i', hrun i' hi'.1 hi'.2⟩) hkey)

include hd hgap

theorem occupied_eq : occupied c empty t = occupied c empty t' :=
  Finset.Subset.antisymm
    (occupied_subset hhome hreach' hreach hd hgap fun x hx => (hsame x hx).symm)
    (occupied_subset hhome hreach hreach' hd' hgap' hsame)

/-- A search that misses looks at the same slots in both tables. -/
theorem probes_miss {y : α} (hmiss : ¬ Present c t y) (hy : y ≠ empty) :
    probes c home empty t y = probes c home empty t' y := by
  have hocc := occupied_eq hhome hreach hreach' hd hd' hgap hgap' hsame
  apply scanCount_congr
  intro i
  have hmem := c.iterate_mem (hhome y) i
  have hno : t (c.next^[i] (home y)) ≠ y := fun h => hmiss ⟨_, hmem, h⟩
  have hno' : t' (c.next^[i] (home y)) ≠ y := fun h => hmiss ((hsame y hy).mpr ⟨_, hmem, h⟩)
  have hslot : t (c.next^[i] (home y)) = empty ↔ t' (c.next^[i] (home y)) = empty := by
    have h := Finset.ext_iff.mp hocc (c.next^[i] (home y))
    simp only [occupied, Finset.mem_filter, hmem, true_and, ne_eq, not_iff_not] at h
    exact h
  simp [stopsAt, hno, hno', hslot]

end SameKeys

include hhome in
/-- The cost of all hits and the ways from a free slot to the homes add up to the ways to the
occupied slots. -/
theorem sum_probes {t : ι → α} (hreach : Reachable c home empty t) (hd : Distinct c empty t)
    {g : ι} (hg : g ∈ c.slots) (hfree : t g = empty) :
    ∑ x ∈ stored c empty t, (probes c home empty t x).getD 0 +
        ∑ x ∈ stored c empty t, c.pos g (home x) =
      ∑ j ∈ occupied c empty t, (c.pos g j + 1) := by
  rw [← Finset.sum_add_distrib, stored, Finset.sum_image hd]
  apply Finset.sum_congr rfl
  intro j hj
  obtain ⟨hslot, hx⟩ := Finset.mem_filter.mp hj
  obtain ⟨hlt, hpos⟩ := c.pos_spec hg hslot
  obtain ⟨-, k, hprobes, hk⟩ := home_ahead hhome hg hfree hreach hd hx hlt (by rw [hpos])
  rw [hprobes, Option.getD_some]
  omega

include hhome in
/-- All searches that hit cost the same in both tables, taken together. -/
theorem sum_probes_eq {t t' : ι → α} (hreach : Reachable c home empty t)
    (hreach' : Reachable c home empty t') (hd : Distinct c empty t) (hd' : Distinct c empty t')
    (hgap : HasGap c empty t) (hgap' : HasGap c empty t')
    (hsame : ∀ x, x ≠ empty → (Present c t x ↔ Present c t' x)) :
    ∑ x ∈ stored c empty t, (probes c home empty t x).getD 0 =
      ∑ x ∈ stored c empty t, (probes c home empty t' x).getD 0 := by
  have hocc := occupied_eq hhome hreach hreach' hd hd' hgap hgap' hsame
  have hstored : stored c empty t = stored c empty t' := by
    ext x
    rw [mem_stored, mem_stored]
    exact and_congr_right (hsame x)
  obtain ⟨g, hg, hfree⟩ := hgap
  have hfree' : t' g = empty := by
    by_contra hfull
    have hmem : g ∈ occupied c empty t := hocc ▸ Finset.mem_filter.mpr ⟨hg, hfull⟩
    exact (Finset.mem_filter.mp hmem).2 hfree
  have hsum := sum_probes hhome hreach hd hg hfree
  have hsum' := sum_probes hhome hreach' hd' hg hfree'
  rw [← hstored, ← hocc] at hsum'
  omega

/-! Tables that insertions fill. -/

section Filled
include hhome

theorem insertAll_distinct (xs : List α) {t t' : ι → α} (hreach : Reachable c home empty t)
    (hd : Distinct c empty t) (h : insertAll c home empty xs t = some t') : Distinct c empty t' := by
  induction xs generalizing t with
  | nil =>
    cases h
    exact hd
  | cons x xs ih =>
    rw [insertAll] at h
    by_cases hx : x = empty
    · rw [if_pos hx] at h
      exact ih hreach hd h
    · rw [if_neg hx] at h
      obtain ⟨t₁, hins, hrest⟩ := Option.bind_eq_some_iff.mp h
      exact ih (insert_spec hhome hx hreach hins).1 (insert_distinct hhome hx hreach hd hins) hrest

omit [DecidableEq α] [DecidableEq ι] hhome in
theorem reachable_empty : Reachable c home empty fun _ => empty :=
  fun _ hx hp => absurd hp (not_present_const hx)

/-- What the order of the insertions, and keys inserted twice, leave as it is. -/
theorem insertAll_probes {xs ys : List α} {t t' : ι → α}
    (hkeys : ∀ x, x ≠ empty → (x ∈ xs ↔ x ∈ ys))
    (h : insertAll c home empty xs (fun _ => empty) = some t) (hgap : HasGap c empty t)
    (h' : insertAll c home empty ys (fun _ => empty) = some t') (hgap' : HasGap c empty t') :
    (∀ y, y ≠ empty → y ∉ xs → probes c home empty t y = probes c home empty t' y) ∧
      ∑ x ∈ xs.toFinset.erase empty, (probes c home empty t x).getD 0 =
        ∑ x ∈ xs.toFinset.erase empty, (probes c home empty t' x).getD 0 := by
  obtain ⟨hreach, hpresent⟩ := insertAll_present hhome xs reachable_empty h
  obtain ⟨hreach', hpresent'⟩ := insertAll_present hhome ys reachable_empty h'
  have hd := insertAll_distinct hhome xs reachable_empty distinct_const h
  have hd' := insertAll_distinct hhome ys reachable_empty distinct_const h'
  have hin : ∀ x, x ≠ empty → (Present c t x ↔ x ∈ xs) := fun x hx => by
    rw [hpresent x hx, or_iff_left (not_present_const hx)]
  have hsame : ∀ x, x ≠ empty → (Present c t x ↔ Present c t' x) := fun x hx => by
    rw [hin x hx, hkeys x hx, hpresent' x hx, or_iff_left (not_present_const hx)]
  have hstored : stored c empty t = xs.toFinset.erase empty := by
    ext x
    rw [mem_stored, Finset.mem_erase, List.mem_toFinset]
    exact and_congr_right (hin x)
  constructor
  · intro y hy hmiss
    exact probes_miss hhome hreach hreach' hd hd' hgap hgap' hsame (fun hp => hmiss ((hin y hy).mp hp)) hy
  · have hsum := sum_probes_eq hhome hreach hreach' hd hd' hgap hgap' hsame
    rwa [hstored] at hsum

omit hhome in
/-- Keys of which no two share a home are put at home. -/
theorem home_of_insertAll {known : α → Prop}
    (hinj : ∀ x y, known x → known y → home x = home y → x = y) {ys : List α}
    (hys : ∀ y ∈ ys, known y) {t t' : ι → α}
    (ht : ∀ j, t j ≠ empty → known (t j) ∧ home (t j) = j)
    (h : insertAll c home empty ys t = some t') : ∀ j, t' j ≠ empty → home (t' j) = j := by
  induction ys generalizing t with
  | nil =>
    cases h
    exact fun j hj => (ht j hj).2
  | cons y ys ih =>
    have hrest := fun z hz => hys z (List.mem_cons_of_mem y hz)
    rw [insertAll] at h
    by_cases hy : y = empty
    · rw [if_pos hy] at h
      exact ih hrest ht h
    · rw [if_neg hy] at h
      obtain ⟨t₁, hins, hafter⟩ := Option.bind_eq_some_iff.mp h
      obtain ⟨j, hj, rfl⟩ := Option.map_eq_some_iff.mp hins
      have hloc : home y = j := by
        obtain ⟨k, -, hk, -, hbefore⟩ := locate_spec hj
        cases k with
        | zero => exact hk
        | succ k =>
          obtain ⟨hfull, hother⟩ := hbefore 0 (Nat.succ_pos k)
          obtain ⟨hknown, hat⟩ := ht _ hfull
          exact absurd (hinj _ y hknown (hys y List.mem_cons_self) hat) hother
      refine ih hrest ?_ hafter
      intro i hi
      by_cases hij : i = j
      · subst hij
        rw [Function.update_self]
        exact ⟨hys y List.mem_cons_self, hloc⟩
      · rw [Function.update_of_ne hij] at hi ⊢
        exact ht i hi

/-- If no two keys share a home, a search for any of them looks at one slot. -/
theorem probes_of_homes_apart {xs : List α} {t : ι → α}
    (hinj : ∀ x ∈ xs, ∀ y ∈ xs, home x = home y → x = y)
    (h : insertAll c home empty xs (fun _ => empty) = some t) {x : α} (hx : x ∈ xs)
    (hne : x ≠ empty) : probes c home empty t x = some 1 := by
  have hhomes : ∀ j, t j ≠ empty → home (t j) = j := by
    apply home_of_insertAll (fun x y hx hy => hinj x hx y hy) (fun y hy => hy) _ h
    exact fun j hj => absurd rfl hj
  obtain ⟨j, hslot, hj⟩ := ((insertAll_present hhome xs reachable_empty h).2 x hne).mpr (Or.inl hx)
  have hat : home x = j := by
    have h := hhomes j (by rwa [hj])
    rwa [hj] at h
  have hpos : 0 < c.slots.card := Finset.card_pos.mpr ⟨j, hslot⟩
  apply scanCount_of_stop hpos
  · simp [stopsAt, hat, hj]
  · exact fun i hi => absurd hi (Nat.not_lt_zero i)

omit hhome in
/-- Keys that share one home are put into the slots from there on, in their order. -/
theorem row_of_insertAll {h₀ : ι} (hmem : h₀ ∈ c.slots) (ys zs : List α)
    (hone : ∀ y ∈ ys, home y = h₀) (hnodup : (zs ++ ys).Nodup) (hne : ∀ y ∈ zs ++ ys, y ≠ empty)
    {t t' : ι → α} (ht : ∀ n < c.slots.card, t (c.next^[n] h₀) = (zs[n]?).getD empty)
    (h : insertAll c home empty ys t = some t') :
    ∀ n < c.slots.card, t' (c.next^[n] h₀) = ((zs ++ ys)[n]?).getD empty := by
  induction ys generalizing zs t with
  | nil =>
    cases h
    rwa [List.append_nil]
  | cons y ys ih =>
    have hy : y ≠ empty := hne y (List.mem_append_right zs List.mem_cons_self)
    have hnew : y ∉ zs := fun hz =>
      (List.nodup_append.mp hnodup).2.2 y hz y List.mem_cons_self rfl
    rw [insertAll, if_neg hy] at h
    obtain ⟨t₁, hins, hafter⟩ := Option.bind_eq_some_iff.mp h
    obtain ⟨j, hj, rfl⟩ := Option.map_eq_some_iff.mp hins
    obtain ⟨k, hk, hkj, hstop, hbefore⟩ := locate_spec hj
    rw [hone y List.mem_cons_self] at hkj hbefore
    have hend : k = zs.length := by
      rcases Nat.lt_trichotomy k zs.length with hlt | heq | hgt
      · have hat := ht k hk
        rw [hkj, List.getElem?_eq_getElem hlt, Option.getD_some] at hat
        have hold : zs[k] ∈ zs := List.getElem_mem hlt
        rcases hstop with hfree | hfound
        · exact absurd (hat.symm.trans hfree) (hne _ (List.mem_append_left _ hold))
        · exact absurd (hfound.symm.trans hat ▸ hold) hnew
      · exact heq
      · have hat := ht zs.length (by omega)
        rw [List.getElem?_eq_none le_rfl, Option.getD_none] at hat
        exact absurd hat (hbefore _ hgt).1
    subst hend
    rw [List.append_cons] at hnodup hne ⊢
    apply ih (zs ++ [y]) (fun x hx => hone x (List.mem_cons_of_mem y hx)) hnodup hne _ hafter
    intro n hn
    by_cases hlast : n = zs.length
    · subst hlast
      rw [hkj, Function.update_self, List.getElem?_concat_length, Option.getD_some]
    · have hother : c.next^[n] h₀ ≠ j := fun heq => hlast
        (c.iterate_injOn hmem (Finset.mem_coe.mpr (Finset.mem_range.mpr hn))
          (Finset.mem_coe.mpr (Finset.mem_range.mpr hk)) (heq.trans hkj.symm))
      rw [Function.update_of_ne hother, ht n hn]
      rcases Nat.lt_or_gt_of_ne hlast with hlt | hgt
      · rw [List.getElem?_append_left hlt]
      · have hlong : (zs ++ [y]).length ≤ n := by
          rw [List.length_append, List.length_singleton]
          omega
        rw [List.getElem?_eq_none hgt.le, List.getElem?_eq_none hlong]

/-- If all keys share one home, the search for each looks at those inserted before it. -/
theorem probes_of_one_home {xs : List α} {t : ι → α} {h₀ : ι} (hone : ∀ x ∈ xs, home x = h₀)
    (hnodup : xs.Nodup) (hne : ∀ x ∈ xs, x ≠ empty) (hlen : xs.length ≤ c.slots.card)
    (h : insertAll c home empty xs (fun _ => empty) = some t) {i : Nat} (hi : i < xs.length) :
    probes c home empty t xs[i] = some (i + 1) := by
  have hmem : h₀ ∈ c.slots := hone _ (List.getElem_mem hi) ▸ hhome _
  have hrow := row_of_insertAll hmem xs [] hone hnodup hne (fun n _ => rfl) h
  have hat : ∀ n, n ≤ i → ∃ hn : n < xs.length, t (c.next^[n] (home xs[i])) = xs[n] := by
    intro n hn
    refine ⟨by omega, ?_⟩
    rw [hone _ (List.getElem_mem hi), hrow n (by omega), List.nil_append,
      List.getElem?_eq_getElem (by omega), Option.getD_some]
  apply scanCount_of_stop (by omega)
  · obtain ⟨_, hfound⟩ := hat i le_rfl
    simp [stopsAt, hfound]
  · intro n hn
    obtain ⟨hlt, hpassed⟩ := hat n hn.le
    have hother : xs[n] ≠ xs[i] := fun heq => by
      have hidx := (List.Nodup.getElem_inj_iff hnodup).mp heq
      omega
    simp [stopsAt, hpassed, hne _ (List.getElem_mem hlt), hother]

end Filled

end Table

end PcapyNg.LinearProbing
