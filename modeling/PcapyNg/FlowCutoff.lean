import PcapyNg.FlowHeads

/-!
# A flow beyond its cutoff

The count of a slot goes up with every packet of its flow, below the cutoff and above it, and
is an `unsigned int`. A flow nobody evicts is past its cutoff until the count starts over, and
then it is reported as a new connection once more.
-/

namespace PcapyNg
open SlotCounter
set_option autoImplicit false

/-- Where the item with `n` occurrences of `b` before it stands. -/
theorem exists_occurrence {α β : Type} [DecidableEq β] {g : α → Option β} {b : β} {xs : List α}
    {n : Nat} (h : n < (xs.filterMap g).count b) :
    ∃ pre x post, xs = pre ++ x :: post ∧ g x = some b ∧ (pre.filterMap g).count b = n := by
  induction xs generalizing n with
  | nil => exact absurd h (Nat.not_lt_zero n)
  | cons x xs ih =>
    by_cases hx : g x = some b
    · rw [List.filterMap_cons_some hx, List.count_cons_self] at h
      cases n with
      | zero => exact ⟨[], x, xs, rfl, hx, rfl⟩
      | succ n =>
        obtain ⟨pre, y, post, rfl, hy, hcount⟩ := ih (Nat.lt_of_succ_lt_succ h)
        refine ⟨x :: pre, y, post, rfl, hy, ?_⟩
        rw [List.filterMap_cons_some hx, List.count_cons_self, hcount]
    · have hskip : ∀ zs : List α, ((x :: zs).filterMap g).count b = (zs.filterMap g).count b := by
        intro zs
        cases hg : g x with
        | none => rw [List.filterMap_cons_none hg]
        | some c =>
          have hne : c ≠ b := by
            intro hc
            rw [hg, hc] at hx
            exact hx rfl
          rw [List.filterMap_cons_some hg, List.count_cons_of_ne hne]
      rw [hskip] at h
      obtain ⟨pre, y, post, rfl, hy, hcount⟩ := ih h
      refine ⟨x :: pre, y, post, rfl, hy, ?_⟩
      rw [hskip, hcount]

/-- Packet number `i` of the flow `fl`, counted from 0, is a flow head exactly when `i` is below
the cutoff. -/
def StaysPast (cfg : ClassCfg) (set : Option AddrSet) (f₀ : FlowTab) (flowCutoff : UInt32)
    (fl : Flow) (ps : List Packet) : Prop :=
  ∃ ks flowtab,
    classifyAll (fun flowtab p =>
        classifyGeneric cfg (setPtr set) flowtab flowCutoff p.bytes p.caplen) (some f₀) ps =
      .ok (ks, flowtab) ∧
    ∀ pre p post, ps = pre ++ p :: post → trackedFlow cfg set p = some fl →
      (ks[pre.length]? = some 1 ↔ (trackedFlows cfg set pre).count fl < flowCutoff.toNat)

/-- No packet of another flow in the run has the slot of `fl`. -/
def Uncontested (cfg : ClassCfg) (set : Option AddrSet) (f₀ : FlowTab) (fl : Flow)
    (ps : List Packet) : Prop :=
  ∀ g ∈ trackedFlows cfg set ps, f₀.slot g.key = f₀.slot fl.key → g = fl

section Run
variable {cfg : ClassCfg} {set : Option AddrSet} {alloc : FlowTabAlloc} {bits flowCutoff : UInt32}
  {f₀ : FlowTab} {fl : Flow}

/-- Uncontested, a packet is a head exactly when its number modulo 2^32 is below the cutoff. -/
theorem head_iff_mod (hbuild : flowtabBuild alloc bits = some f₀) (hcut : flowCutoff ≠ 0)
    {pre post : List Packet} {p : Packet} (halone : Uncontested cfg set f₀ fl (pre ++ p :: post))
    (ht : trackedFlow cfg set p = some fl) :
    (classAll (genericStep cfg set flowCutoff) (some f₀) (pre ++ p :: post)).1[pre.length]? =
        some 1 ↔
      (trackedFlows cfg set pre).count fl % 2 ^ 32 < flowCutoff.toNat := by
  obtain ⟨f, hrun, hf⟩ := (Recalls.fresh hbuild).run cfg set hcut pre
  have hmask : f₀.slot = slotOf (1 <<< bits - 1) := by
    rw [flowtabBuild_eq_some hbuild]
    rfl
  have hrecent : recent (slotOf (1 <<< bits - 1)) (trackedKeys cfg set pre).reverse fl.key =
      (trackedFlows cfg set pre).count fl := by
    apply recent_key_eq
    intro g hg hs
    rw [← hmask] at hs
    exact halone g ((mem_filterMap_run post ht).2 g hg) hs
  have hseen := (hf.seen fl.key).1
  rw [List.append_nil, hrecent] at hseen
  have hlt : (flowSeen f fl.key).1 < flowCutoff ↔
      (trackedFlows cfg set pre).count fl % 2 ^ 32 < flowCutoff.toNat := by
    rw [hseen, UInt32.lt_iff_toNat_lt, UInt32.toNat_ofNat']
  rw [classAll_getElem, hrun, genericStep_tracked hcut f ht, ← hlt]
  by_cases hhead : (flowSeen f fl.key).1 < flowCutoff
  · rw [if_pos hhead]
    exact iff_of_true rfl hhead
  · rw [if_neg hhead]
    exact iff_of_false (by simp) hhead

variable (hoff : cfg.l2Off.toNat ≤ 64) (hbuild : flowtabBuild alloc bits = some f₀)
  (hcut : 1 ≤ flowCutoff) {ps : List Packet} (halone : Uncontested cfg set f₀ fl ps)
include hoff hbuild hcut halone

/-- Packet number 2^32 finds the count at 0. -/
theorem StaysPast.count_le (h : StaysPast cfg set f₀ flowCutoff fl ps) :
    (trackedFlows cfg set ps).count fl ≤ 2 ^ 32 := by
  rcases h with ⟨ks, flowtab, hks, hheads⟩
  by_contra hmany
  have hpos : 1 ≤ flowCutoff.toNat := UInt32.le_iff_toNat_le.mp hcut
  obtain ⟨pre, p, post, rfl, hp, hcount⟩ := exists_occurrence (Nat.lt_of_not_le hmany)
  have hfl : trackedFlow cfg set p = some fl := hp
  have hpre : (trackedFlows cfg set pre).count fl = 2 ^ 32 := hcount
  rw [classifyAll_eq (fun flowtab (p : Packet) =>
    classifyGeneric_eq cfg hoff set flowtab flowCutoff p)] at hks
  obtain rfl := (Prod.mk.inj (Except.ok.inj hks)).1
  have hmod := head_iff_mod hbuild (UInt32.pos_iff_ne_zero.mp hcut) halone hfl
  have hhead := (hheads pre p post rfl hfl).mp (hmod.mpr (by rw [hpre]; omega))
  have hlt := flowCutoff.toNat_lt
  omega

theorem staysPast_of_count_le (hfew : (trackedFlows cfg set ps).count fl ≤ 2 ^ 32) :
    StaysPast cfg set f₀ flowCutoff fl ps := by
  refine ⟨_, _, classifyAll_eq (fun flowtab p =>
    classifyGeneric_eq cfg hoff set flowtab flowCutoff p) (some f₀) ps, ?_⟩
  intro pre p post hps hfl
  subst hps
  have hlt : (trackedFlows cfg set pre).count fl < 2 ^ 32 := by
    rw [trackedFlows, List.filterMap_append, List.filterMap_cons_some hfl, List.count_append,
      List.count_cons_self] at hfew
    rw [trackedFlows]
    omega
  have hmod := head_iff_mod hbuild (UInt32.pos_iff_ne_zero.mp hcut) halone hfl
  rw [Nat.mod_eq_of_lt hlt] at hmod
  exact hmod

end Run

/-- An uncontested flow stays past its cutoff exactly if it has no more than 2^32 packets. -/
theorem flow_stays_past_cutoff_iff (cfg : ClassCfg) (hoff : cfg.l2Off.toNat ≤ 64)
    (set : Option AddrSet) (alloc : FlowTabAlloc) (bits flowCutoff : UInt32) (f₀ : FlowTab)
    (hbuild : flowtabBuild alloc bits = some f₀) (hcut : 1 ≤ flowCutoff) (fl : Flow)
    (ps : List Packet) (halone : Uncontested cfg set f₀ fl ps) :
    StaysPast cfg set f₀ flowCutoff fl ps ↔ (trackedFlows cfg set ps).count fl ≤ 2 ^ 32 := by
  constructor
  · exact StaysPast.count_le hoff hbuild hcut halone
  · exact staysPast_of_count_le hoff hbuild hcut halone

theorem uncontested_replicate (cfg : ClassCfg) (set : Option AddrSet) (f₀ : FlowTab) {p : Packet}
    {fl : Flow} (hp : trackedFlow cfg set p = some fl) (n : Nat) :
    Uncontested cfg set f₀ fl (List.replicate n p) ∧
      (trackedFlows cfg set (List.replicate n p)).count fl = n := by
  have hflows : trackedFlows cfg set (List.replicate n p) = List.replicate n fl := by
    rw [trackedFlows, List.filterMap_replicate_of_some hp]
  constructor
  · intro g hg _
    rw [hflows] at hg
    exact List.eq_of_mem_replicate hg
  · rw [hflows, List.count_replicate_self]

theorem udpPacket_tracked :
    trackedFlow ⟨53, [], [], 14, 0⟩ none udpPacket = some (flowAt udpPacket.bytes 14) := by decide

theorem flow_stays_past_cutoff_iff_udp :
    StaysPast ⟨53, [], [], 14, 0⟩ none ⟨fun _ => 0, fun _ => 0, 15⟩ 1 (flowAt udpPacket.bytes 14)
      [udpPacket, udpPacket] := by
  obtain ⟨halone, hcount⟩ := uncontested_replicate ⟨53, [], [], 14, 0⟩ none
    ⟨fun _ => 0, fun _ => 0, 15⟩ udpPacket_tracked 2
  exact (flow_stays_past_cutoff_iff ⟨53, [], [], 14, 0⟩ (by decide) none {} 4 1 _ rfl (by decide) _ _
    halone).mpr (hcount.trans_le (by decide))

/-- Packet number 2^32 of a flow that nobody contests is a flow head again. -/
theorem long_flow_is_head_again :
    Uncontested ⟨53, [], [], 14, 0⟩ none ⟨fun _ => 0, fun _ => 0, 1048575⟩
        (flowAt udpPacket.bytes 14) (List.replicate (2 ^ 32 + 1) udpPacket) ∧
      ¬ StaysPast ⟨53, [], [], 14, 0⟩ none ⟨fun _ => 0, fun _ => 0, 1048575⟩ 1
        (flowAt udpPacket.bytes 14) (List.replicate (2 ^ 32 + 1) udpPacket) := by
  obtain ⟨halone, hcount⟩ := uncontested_replicate ⟨53, [], [], 14, 0⟩ none
    ⟨fun _ => 0, fun _ => 0, 1048575⟩ udpPacket_tracked (2 ^ 32 + 1)
  have hbuild : flowtabBuild {} 20 = some ⟨fun _ => 0, fun _ => 0, 1048575⟩ := rfl
  refine ⟨halone, ?_⟩
  intro h
  have hle := h.count_le (by decide) hbuild (by decide) halone
  omega

end PcapyNg
