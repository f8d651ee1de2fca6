import PcapyNg.ClassifyRun

/-!
# Flow heads against an exact dictionary

The generic classifier counts packets per slot and forgets a flow when another takes
its slot; `flow_heads` of the benchmark keeps every flow in a dictionary. Forgetting can
only make a flow look new again, so the table reports every head the dictionary does.
-/

namespace PcapyNg
open SlotCounter
set_option autoImplicit false

/-- The flow a packet is counted under; `none` when it does not reach `flow_seen`. -/
def trackedFlow (cfg : ClassCfg) (set : Option AddrSet) (p : Packet) : Option Flow :=
  match header cfg.l2Off.toNat p.bytes with
  | none => none
  | some l3 =>
    if AddrMatch set p.bytes l3 then none
    else if HasPorts p.bytes l3 then some (flowAt p.bytes l3) else none

def trackedFlows (cfg : ClassCfg) (set : Option AddrSet) (ps : List Packet) : List Flow :=
  ps.filterMap (trackedFlow cfg set)

def trackedKeys (cfg : ClassCfg) (set : Option AddrSet) (ps : List Packet) : List UInt64 :=
  (trackedFlows cfg set ps).map Flow.key

/-- One round of `flow_heads`: `n = get(key, 0) + 1; seen[key] = n; if n <= cutoff: admitted += 1`. -/
def flowHeadsStep (cutoff : Nat) (st : (Flow → Nat) × Nat) (key : Flow) : (Flow → Nat) × Nat :=
  let n := st.1 key + 1
  (Function.update st.1 key n, if n ≤ cutoff then st.2 + 1 else st.2)

def flowHeads (cutoff : Nat) (keys : List Flow) : (Flow → Nat) × Nat :=
  keys.foldl (flowHeadsStep cutoff) (fun _ => 0, 0)

theorem flowHeads_eq (cutoff : Nat) (keys : List Flow) :
    flowHeads cutoff keys = (fun f => keys.count f, exactHeads cutoff keys.reverse) := by
  induction keys using List.reverseRecOn with
  | nil => rfl
  | append_singleton keys key ih =>
    rw [flowHeads, List.foldl_append, ← flowHeads, ih, List.reverse_append]
    simp only [List.foldl_cons, List.foldl_nil, flowHeadsStep, Prod.mk.injEq]
    constructor
    · funext f
      by_cases hf : f = key
      · subst f
        simp
      · simp [hf, List.count_append, Ne.symm hf]
    · simp only [List.reverse_cons, List.reverse_nil, List.nil_append, List.singleton_append,
        exactHeads, List.count_reverse, Nat.lt_iff_add_one_le]
      split <;> rfl

/-- What the table holds after packets with the keys `h`, newest first. -/
def Recalls (mask : UInt32) (h : List UInt64) (f : FlowTab) : Prop :=
  f.mask = mask ∧ Remembers (slotOf mask) 0 (· + 1) h f.table

theorem Recalls.fresh {alloc : FlowTabAlloc} {bits : UInt32} {f : FlowTab}
    (hf : flowtabBuild alloc bits = some f) : Recalls (1 <<< bits - 1) [] f := by
  rw [flowtabBuild_eq_some hf]
  exact ⟨rfl, Remembers.fresh 0⟩

theorem Recalls.seen {mask : UInt32} {h : List UInt64} {f : FlowTab} (hf : Recalls mask h f)
    (key : UInt64) :
    (flowSeen f key).1 = UInt32.ofNat (recent (slotOf mask) h key) ∧
      Recalls mask (key :: h) (flowSeen f key).2 := by
  rcases hf with ⟨rfl, hr⟩
  have hseen := hr.seen key
  rw [succ_iterate] at hseen
  rw [flowSeen_eq_touch]
  exact ⟨hseen, rfl, hr.step key⟩

theorem Recalls.head_iff (flowCutoff : UInt32) {mask : UInt32} {h : List UInt64} {f : FlowTab} (hf : Recalls mask h f)
    (hsmall : h.length < 2 ^ 32) (key : UInt64) :
    (flowSeen f key).1 < flowCutoff ↔
      recent (slotOf mask) h key < flowCutoff.toNat := by
  have hle : recent (slotOf mask) h key ≤ h.length :=
    (recent_le_count _ h key).trans List.count_le_length
  rw [(hf.seen key).1, UInt32.lt_iff_toNat_lt, UInt32.toNat_ofNat', Nat.mod_eq_of_lt (by omega)]

section Counting
variable {ρ : Type} {step : Option FlowTab → ρ → Nat × Option FlowTab} {track : ρ → Option Flow}
  {head : Nat} {flowCutoff : UInt32}

/-- A packet of a tracked flow is counted, and is a `head` below the cutoff; no other packet is
either. -/
structure CountsFlows (step : Option FlowTab → ρ → Nat × Option FlowTab) (track : ρ → Option Flow)
    (head : Nat) (flowCutoff : UInt32) : Prop where
  tracked : ∀ f p fl, track p = some fl →
    (step (some f) p).2 = some (flowSeen f fl.key).2 ∧
      ((step (some f) p).1 = head ↔ (flowSeen f fl.key).1 < flowCutoff)
  untracked : ∀ f p, track p = none →
    (step (some f) p).2 = some f ∧ (step (some f) p).1 ≠ head

def keysOf (track : ρ → Option Flow) (ps : List ρ) : List UInt64 :=
  (ps.filterMap track).map Flow.key

theorem keysOf_length_le (ps : List ρ) : (keysOf track ps).length ≤ ps.length := by
  unfold keysOf
  rw [List.length_map]
  exact List.length_filterMap_le _ _

theorem keysOf_skip {p : ρ} (ht : track p = none) (ps : List ρ) :
    keysOf track (p :: ps) = keysOf track ps := by
  unfold keysOf
  rw [List.filterMap_cons_none ht]

theorem keysOf_cons {p : ρ} {fl : Flow} (ht : track p = some fl) (ps : List ρ) :
    keysOf track (p :: ps) = fl.key :: keysOf track ps := by
  unfold keysOf
  rw [List.filterMap_cons_some ht]
  rfl

namespace CountsFlows
variable (hc : CountsFlows step track head flowCutoff) {mask : UInt32} {h : List UInt64} {f : FlowTab}
include hc

/-- A run extends the history by the keys it tracked. -/
theorem run (hf : Recalls mask h f) (ps : List ρ) :
    ∃ f', (classAll step (some f) ps).2 = some f' ∧
      Recalls mask ((keysOf track ps).reverse ++ h) f' := by
  induction ps generalizing h f with
  | nil => exact ⟨f, rfl, hf⟩
  | cons p ps ih =>
    cases ht : track p with
    | none =>
      obtain ⟨f', hrun, hf'⟩ := ih hf
      refine ⟨f', ?_, ?_⟩
      · simp only [classAll, (hc.untracked f p ht).1, hrun]
      · rw [keysOf_skip ht]
        exact hf'
    | some fl =>
      obtain ⟨f', hrun, hf'⟩ := ih (hf.seen fl.key).2
      refine ⟨f', ?_, ?_⟩
      · simp only [classAll, (hc.tracked f p fl ht).1, hrun]
      · rw [keysOf_cons ht, List.reverse_cons, List.append_assoc]
        exact hf'

theorem count_heads (hf : Recalls mask h f) (ps : List ρ) (hsmall : h.length + ps.length < 2 ^ 32) :
    (classAll step (some f) ps).1.count head + heads (slotOf mask) flowCutoff.toNat h =
      heads (slotOf mask) flowCutoff.toNat ((keysOf track ps).reverse ++ h) := by
  induction ps generalizing h f with
  | nil => exact Nat.zero_add _
  | cons p ps ih =>
    rw [List.length_cons] at hsmall
    cases ht : track p with
    | none =>
      obtain ⟨htab, hne⟩ := hc.untracked f p ht
      simp only [classAll, htab, keysOf_skip ht, List.count_cons_of_ne hne]
      exact ih hf (by omega)
    | some fl =>
      obtain ⟨htab, hhead⟩ := hc.tracked f p fl ht
      have hrest := ih (hf.seen fl.key).2 (by rw [List.length_cons]; omega)
      simp only [heads, ← hf.head_iff flowCutoff (by omega) fl.key, ← hhead] at hrest
      simp only [classAll, htab, keysOf_cons ht, List.reverse_cons, List.append_assoc,
        List.singleton_append, ← hrest, List.count_cons, beq_iff_eq]
      omega

theorem count_fresh (hf : Recalls mask [] f) {ps : List ρ} (hlen : ps.length < 2 ^ 32) :
    (classAll step (some f) ps).1.count head =
      heads (slotOf mask) flowCutoff.toNat (keysOf track ps).reverse := by
  have hcount := hc.count_heads hf ps (by rwa [List.length_nil, Nat.zero_add])
  rwa [List.append_nil, heads, Nat.add_zero] at hcount

/-- Where a packet of a run stands among the earlier ones of its slot. -/
theorem head_iff (hf : Recalls mask [] f) {pre : List ρ} (post : List ρ) {p : ρ} {fl : Flow}
    (hlen : pre.length < 2 ^ 32) (ht : track p = some fl) :
    (classAll step (some f) (pre ++ p :: post)).1[pre.length]? = some head ↔
      recent (slotOf mask) (keysOf track pre).reverse fl.key < flowCutoff.toNat := by
  obtain ⟨f', hrun, hf'⟩ := hc.run hf pre
  rw [List.append_nil] at hf'
  have hsmall : (keysOf track pre).reverse.length < 2 ^ 32 := by
    rw [List.length_reverse]
    exact (keysOf_length_le pre).trans_lt hlen
  rw [classAll_getElem, hrun, ← hf'.head_iff flowCutoff hsmall fl.key, Option.some_inj]
  exact (hc.tracked f' p fl ht).2

theorem not_head (hf : Recalls mask [] f) {pre post : List ρ} {p : ρ} (ht : track p = none) :
    (classAll step (some f) (pre ++ p :: post)).1[pre.length]? ≠ some head := by
  obtain ⟨f', hrun, -⟩ := hc.run hf pre
  rw [classAll_getElem, hrun]
  intro hhead
  exact (hc.untracked f' p ht).2 (Option.some.inj hhead)

end CountsFlows

/-- Without a table there is no head, if no packet is one alone. -/
theorem tableless_run (hstep : ∀ p, (step none p).2 = none ∧ (step none p).1 ≠ head) (ps : List ρ) :
    head ∉ (classAll step none ps).1 := by
  induction ps with
  | nil => exact List.not_mem_nil
  | cons p ps ih =>
    rw [classAll, (hstep p).1]
    exact fun hmem => (List.mem_cons.mp hmem).elim (fun heq => (hstep p).2 heq.symm) ih

end Counting

section Generic
variable (cfg : ClassCfg) (set : Option AddrSet) (flowCutoff : UInt32)

def genericStep (flowtab : Option FlowTab) (p : Packet) : Nat × Option FlowTab :=
  genericClass cfg set flowtab flowCutoff p.bytes

variable {cfg set flowCutoff}

theorem trackedFlow_some {p : Packet} {fl : Flow} (h : trackedFlow cfg set p = some fl) :
    ∃ l3, header cfg.l2Off.toNat p.bytes = some l3 ∧ ¬ AddrMatch set p.bytes l3 ∧
      HasPorts p.bytes l3 ∧ flowAt p.bytes l3 = fl := by
  unfold trackedFlow at h
  split at h
  · cases h
  · next l3 hhdr =>
    split at h
    · cases h
    · next hm =>
      split at h
      · next hports => exact ⟨l3, hhdr, hm, hports, Option.some.inj h⟩
      · cases h

theorem trackedFlow_found {p : Packet} {l3 : Nat} (hhdr : header cfg.l2Off.toNat p.bytes = some l3)
    (hm : ¬ AddrMatch set p.bytes l3) (hports : HasPorts p.bytes l3) :
    trackedFlow cfg set p = some (flowAt p.bytes l3) := by
  rw [trackedFlow, hhdr]
  simp only [if_neg hm, if_pos hports]

/-- A packet that reaches `flow_seen` is counted once and is a head below the cutoff. -/
theorem genericStep_tracked (hcut : flowCutoff ≠ 0) (f : FlowTab) {p : Packet} {fl : Flow}
    (h : trackedFlow cfg set p = some fl) :
    genericStep cfg set flowCutoff (some f) p =
      (if (flowSeen f fl.key).1 < flowCutoff then 1 else 0, some (flowSeen f fl.key).2) := by
  obtain ⟨l3, hhdr, hm, hports, rfl⟩ := trackedFlow_some h
  rw [genericStep, genericClass_found hhdr, genericAt_counted _ f hm hcut hports]

variable (flowCutoff) in
theorem genericStep_untracked (f : FlowTab) {p : Packet} (h : trackedFlow cfg set p = none) :
    (genericStep cfg set flowCutoff (some f) p).2 = some f ∧
      (genericStep cfg set flowCutoff (some f) p).1 ≠ 1 := by
  rw [genericStep]
  cases hhdr : header cfg.l2Off.toNat p.bytes with
  | none =>
    rw [genericClass_not_found hhdr]
    exact ⟨rfl, Nat.zero_ne_one⟩
  | some l3 =>
    rw [genericClass_found hhdr]
    by_cases hm : AddrMatch set p.bytes l3
    · rw [genericAt_hit _ _ hm]
      exact ⟨rfl, (by decide : 2 ≠ 1)⟩
    · have hports : ¬ HasPorts p.bytes l3 := by
        intro hports
        rw [trackedFlow_found hhdr hm hports] at h
        cases h
      rw [genericAt_silent _ _ hm hports]
      exact ⟨rfl, Nat.zero_ne_one⟩

theorem generic_counts (hcut : flowCutoff ≠ 0) :
    CountsFlows (genericStep cfg set flowCutoff) (trackedFlow cfg set) 1 flowCutoff where
  tracked := by
    intro f p fl ht
    rw [genericStep_tracked hcut f ht]
    refine ⟨rfl, ?_⟩
    by_cases hhead : (flowSeen f fl.key).1 < flowCutoff <;> simp [hhead]
  untracked := fun f _ ht => genericStep_untracked flowCutoff f ht

variable (cfg set) in
theorem Recalls.run (hcut : flowCutoff ≠ 0) {mask : UInt32} {h : List UInt64} {f : FlowTab}
    (hf : Recalls mask h f) (ps : List Packet) :
    ∃ f', (classAll (genericStep cfg set flowCutoff) (some f) ps).2 = some f' ∧
      Recalls mask ((trackedKeys cfg set ps).reverse ++ h) f' :=
  (generic_counts hcut).run hf ps

variable {alloc : FlowTabAlloc} {bits : UInt32} {f₀ : FlowTab}

theorem head_iff_recent (hbuild : flowtabBuild alloc bits = some f₀) (hcut : flowCutoff ≠ 0)
    {pre : List Packet} (post : List Packet) {p : Packet} {fl : Flow} (hlen : pre.length < 2 ^ 32)
    (ht : trackedFlow cfg set p = some fl) :
    (classAll (genericStep cfg set flowCutoff) (some f₀) (pre ++ p :: post)).1[pre.length]? =
        some 1 ↔
      recent (slotOf (1 <<< bits - 1)) (trackedKeys cfg set pre).reverse fl.key <
        flowCutoff.toNat :=
  (generic_counts hcut).head_iff (Recalls.fresh hbuild) post hlen ht

theorem untracked_not_head (hbuild : flowtabBuild alloc bits = some f₀) (hcut : flowCutoff ≠ 0)
    {pre post : List Packet} {p : Packet} (ht : trackedFlow cfg set p = none) :
    (classAll (genericStep cfg set flowCutoff) (some f₀) (pre ++ p :: post)).1[pre.length]? ≠
      some 1 :=
  (generic_counts hcut).not_head (Recalls.fresh hbuild) ht

theorem count_one_eq_heads (hbuild : flowtabBuild alloc bits = some f₀) (hcut : flowCutoff ≠ 0)
    {ps : List Packet} (hlen : ps.length < 2 ^ 32) :
    (classAll (genericStep cfg set flowCutoff) (some f₀) ps).1.count 1 =
      heads (slotOf (1 <<< bits - 1)) flowCutoff.toNat (trackedKeys cfg set ps).reverse :=
  (generic_counts hcut).count_fresh (Recalls.fresh hbuild) hlen

end Generic

theorem mem_filterMap_run {ρ : Type} {track : ρ → Option Flow} {pre : List ρ} (post : List ρ) {p : ρ}
    {fl : Flow} (ht : track p = some fl) :
    fl ∈ (pre ++ p :: post).filterMap track ∧
      ∀ g ∈ pre.filterMap track, g ∈ (pre ++ p :: post).filterMap track := by
  simp only [List.filterMap_append, List.filterMap_cons, ht, List.mem_append, List.mem_cons,
    true_or, or_true, true_and]
  exact fun g hg => Or.inl hg

/-- If no other flow has the key of `fl`, its key is counted as often as the flow itself. -/
theorem count_key_eq {flows : List Flow} {fl : Flow} (halone : ∀ g ∈ flows, g.key = fl.key → g = fl) :
    (flows.map Flow.key).reverse.count fl.key = flows.count fl := by
  rw [List.count_reverse]
  exact count_map_of_injOn Flow.key halone

/-- Without a rival in its slot the table and the dictionary count a flow alike. -/
theorem recent_key_eq {slot : UInt64 → UInt32} {flows : List Flow} {fl : Flow}
    (halone : ∀ g ∈ flows, slot g.key = slot fl.key → g = fl) :
    recent slot (flows.map Flow.key).reverse fl.key = flows.count fl := by
  rw [recent_eq_count, count_key_eq fun g hg hk => halone g hg (congrArg slot hk)]
  intro x hx hs
  obtain ⟨g, hg, rfl⟩ := List.mem_map.mp (List.mem_reverse.mp hx)
  rw [halone g hg hs]

theorem flowHeads_fst (cutoff : Nat) (keys : List Flow) (fl : Flow) :
    (flowHeads cutoff keys).1 fl = keys.count fl := by
  rw [flowHeads_eq]

/-- Every flow is admitted `cutoff` times at most, and as often as it occurs below that. -/
theorem flowHeads_snd (cutoff : Nat) (keys : List Flow) :
    (flowHeads cutoff keys).2 = ∑ fl ∈ keys.toFinset, min cutoff (keys.count fl) := by
  rw [flowHeads_eq]
  simp only [exactHeads_eq_sum, List.count_reverse, List.toFinset_reverse]

theorem flowHeads_le_heads {slot : UInt64 → UInt32} {flows : List Flow} (cutoff : Nat)
    (hinj : ∀ f ∈ flows, ∀ g ∈ flows, f.key = g.key → f = g) :
    (flowHeads cutoff flows).2 ≤ heads slot cutoff (flows.map Flow.key).reverse := by
  have hmap : exactHeads cutoff (flows.reverse.map Flow.key) = exactHeads cutoff flows.reverse :=
    exactHeads_map cutoff Flow.key fun f hf g hg =>
      hinj f (List.mem_reverse.mp hf) g (List.mem_reverse.mp hg)
  rw [flowHeads_eq, ← List.map_reverse, ← hmap]
  exact exactHeads_le_heads slot cutoff _

/-- Per packet and in total, what a run reports against the dictionary of its flows. -/
theorem CountsFlows.against_dictionary {ρ : Type} {step : Option FlowTab → ρ → Nat × Option FlowTab}
    {track : ρ → Option Flow} {head : Nat} {flowCutoff mask : UInt32} {f : FlowTab}
    (hc : CountsFlows step track head flowCutoff) (hf : Recalls mask [] f) {ps : List ρ}
    (hlen : ps.length < 2 ^ 32) :
    (∀ pre p post, ps = pre ++ p :: post →
      (track p = none → (classAll step (some f) ps).1[pre.length]? ≠ some head) ∧
      ∀ fl, track p = some fl →
        ((classAll step (some f) ps).1[pre.length]? = some head ↔
          recent (slotOf mask) (keysOf track pre).reverse fl.key < flowCutoff.toNat) ∧
        ((∀ g ∈ ps.filterMap track, g.key = fl.key → g = fl) →
          (pre.filterMap track).count fl < flowCutoff.toNat →
          (classAll step (some f) ps).1[pre.length]? = some head) ∧
        ((∀ a ∈ ps.filterMap track, ∀ b ∈ ps.filterMap track,
            slotOf mask a.key = slotOf mask b.key → a = b) →
          ((classAll step (some f) ps).1[pre.length]? = some head ↔
            (flowHeads flowCutoff.toNat (pre.filterMap track)).1 fl + 1 ≤ flowCutoff.toNat))) ∧
    ((∀ a ∈ ps.filterMap track, ∀ b ∈ ps.filterMap track, a.key = b.key → a = b) →
      (flowHeads flowCutoff.toNat (ps.filterMap track)).2 =
          ∑ fl ∈ (ps.filterMap track).toFinset, min flowCutoff.toNat ((ps.filterMap track).count fl) ∧
        ∑ fl ∈ (ps.filterMap track).toFinset,
            min flowCutoff.toNat ((ps.filterMap track).count fl) ≤
          (classAll step (some f) ps).1.count head) := by
  refine ⟨fun pre p post hps => ?_, fun hinj => ?_⟩
  · subst hps
    refine ⟨hc.not_head hf, fun fl ht => ?_⟩
    have hpre : pre.length < 2 ^ 32 := by
      rw [List.length_append] at hlen
      omega
    obtain ⟨hfl, hsub⟩ := mem_filterMap_run post ht
    have hhead := hc.head_iff hf post hpre ht
    refine ⟨hhead, fun halone hcount => ?_, fun hslots => ?_⟩
    · have hle := recent_le_count (slotOf mask) (keysOf track pre).reverse fl.key
      rw [keysOf, count_key_eq fun g hg => halone g (hsub g hg)] at hle
      exact hhead.mpr (hle.trans_lt hcount)
    · have heq : recent (slotOf mask) (keysOf track pre).reverse fl.key = _ :=
        recent_key_eq fun g hg hs => hslots g (hsub g hg) fl hfl hs
      rw [hhead, heq, flowHeads_fst]
      exact Nat.lt_iff_add_one_le
  · refine ⟨flowHeads_snd _ _, ?_⟩
    rw [← flowHeads_snd, hc.count_fresh hf hlen]
    exact flowHeads_le_heads _ hinj

theorem flow_heads_never_hidden (cfg : ClassCfg) (hoff : cfg.l2Off.toNat ≤ 64)
    (set : Option AddrSet) (alloc : FlowTabAlloc) (bits flowCutoff : UInt32) (f₀ : FlowTab)
    (hbuild : flowtabBuild alloc bits = some f₀) (hcut : 1 ≤ flowCutoff) (ps : List Packet)
    (hlen : ps.length < 2 ^ 32) :
    let slot := slotOf (1 <<< bits - 1)
    let N := flowCutoff.toNat
    let flows := trackedFlows cfg set ps
    ∃ ks flowtab,
      classifyAll (fun flowtab p =>
          classifyGeneric cfg (setPtr set) flowtab flowCutoff p.bytes p.caplen) (some f₀) ps =
        .ok (ks, flowtab) ∧
      (∀ pre p post, ps = pre ++ p :: post →
        (trackedFlow cfg set p = none → ks[pre.length]? ≠ some 1) ∧
        ∀ fl, trackedFlow cfg set p = some fl →
          (ks[pre.length]? = some 1 ↔ recent slot (trackedKeys cfg set pre).reverse fl.key < N) ∧
          ((∀ g ∈ flows, g.key = fl.key → g = fl) → (trackedFlows cfg set pre).count fl < N →
            ks[pre.length]? = some 1) ∧
          ((∀ f ∈ flows, ∀ g ∈ flows, slot f.key = slot g.key → f = g) →
            (ks[pre.length]? = some 1 ↔ (flowHeads N (trackedFlows cfg set pre)).1 fl + 1 ≤ N))) ∧
      ((∀ f ∈ flows, ∀ g ∈ flows, f.key = g.key → f = g) →
        (flowHeads N flows).2 = ∑ fl ∈ flows.toFinset, min N (flows.count fl) ∧
        ∑ fl ∈ flows.toFinset, min N (flows.count fl) ≤ ks.count 1) := by
  intro slot N flows
  have hne : flowCutoff ≠ 0 := by
    rintro rfl
    exact absurd hcut (by decide)
  have hrun := classifyAll_eq (fun flowtab p =>
    classifyGeneric_eq cfg hoff set flowtab flowCutoff p) (some f₀) ps
  exact ⟨_, _, hrun, (generic_counts hne).against_dictionary (Recalls.fresh hbuild) hlen⟩

/-- A UDP packet from 10.0.0.1 port 61786 to 10.0.0.2 port 2036, whose flow has the slot of
`udpPacket`'s. -/
def rivalPacket : Packet where
  bytes := [0, 0, 0, 0, 0, 2, 0, 0, 0, 0, 0, 1, 0x08, 0x00,
    0x45, 0, 0, 28, 0, 0, 0, 0, 64, 17, 0, 0, 10, 0, 0, 1, 10, 0, 0, 2,
    0xf1, 0x5a, 0x07, 0xf4, 0, 8, 0, 0]
  small := by decide

/-- Each flow takes the slot from the other, which is then at its beginning again. -/
theorem flow_heads_never_hidden_udp :
    let slot := slotOf ((1 : UInt32) <<< (20 : UInt32) - 1)
    slot (flowAt udpPacket.bytes 14).key = slot (flowAt rivalPacket.bytes 14).key ∧
    ∃ ks flowtab,
      classifyAll (fun flowtab p =>
          classifyGeneric ⟨53, [], [], 14, 0⟩ (setPtr none) flowtab 1 p.bytes p.caplen)
        (flowtabBuild {} 20) [udpPacket, udpPacket, rivalPacket, udpPacket] = .ok (ks, flowtab) ∧
      ks[0]? = some 1 ∧ ks[1]? ≠ some 1 ∧ ks[2]? = some 1 ∧ ks[3]? = some 1 ∧ 2 ≤ ks.count 1 := by
  obtain ⟨ks, flowtab, hrun, hheads, htotal⟩ := flow_heads_never_hidden ⟨53, [], [], 14, 0⟩
    (by decide) none {} 20 1 _ rfl (by decide) [udpPacket, udpPacket, rivalPacket, udpPacket]
    (by decide)
  have hudp : trackedFlow ⟨53, [], [], 14, 0⟩ none udpPacket =
      some (flowAt udpPacket.bytes 14) := by decide
  have hrival : trackedFlow ⟨53, [], [], 14, 0⟩ none rivalPacket =
      some (flowAt rivalPacket.bytes 14) := by decide
  refine ⟨by decide, ks, flowtab, hrun, ?_, fun h => ?_, ?_, ?_, ?_⟩
  · exact ((hheads [] udpPacket _ rfl).2 _ hudp).1.mpr (by decide)
  · exact absurd (((hheads [udpPacket] udpPacket _ rfl).2 _ hudp).1.mp h) (by decide)
  · exact ((hheads [udpPacket, udpPacket] rivalPacket _ rfl).2 _ hrival).2.1 (by decide) (by decide)
  · exact ((hheads [udpPacket, udpPacket, rivalPacket] udpPacket _ rfl).2 _ hudp).1.mpr (by decide)
  · obtain ⟨hsum, hle⟩ := htotal (by decide)
    rw [← hsum] at hle
    exact (show 2 ≤ (flowHeads _ _).2 by decide).trans hle

end PcapyNg
