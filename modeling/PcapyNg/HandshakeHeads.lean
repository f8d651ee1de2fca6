import PcapyNg.FlowRestart

/-!
# Handshakes of the security profile

Behind the port rules and the address set, the security profile counts what is left on the
TLS ports in the table that the generic profile uses for every flow, and reports the packets
below the cutoff as handshakes.
-/

namespace PcapyNg
open SlotCounter ReadLoop
set_option autoImplicit false

/-- The flow a packet is counted under in the security profile. -/
def handshakeFlow (cfg : ClassCfg) (set : Option AddrSet) (r : Record) : Option Flow :=
  match header cfg.l2Off.toNat r.data with
  | none => none
  | some l3 =>
    if transportClass cfg r.data l3 = 2 ∧ ¬ AddrMatch set r.data l3 ∧ HasPorts r.data l3 ∧
        mtIsTlsPort cfg (sportAt r.data l3) (dportAt r.data l3) then some (flowAt r.data l3)
    else none

section Refine
variable {cfg : ClassCfg} {set : Option AddrSet} {flowCutoff : UInt32}

theorem transportClass_ne_head (p : Bytes) (l3 : Nat) : transportClass cfg p l3 ≠ 4 := by
  unfold transportClass
  split_ifs <;> omega

theorem refineAt_counted {p : Bytes} {l3 : Nat} (hcls : transportClass cfg p l3 = 2)
    (hm : ¬ AddrMatch set p l3)
    (hport : HasPorts p l3 ∧ mtIsTlsPort cfg (sportAt p l3) (dportAt p l3)) (f : FlowTab) :
    refineAt cfg set (some f) flowCutoff p l3 =
      (if (flowSeen f (flowAt p l3).key).1 < flowCutoff then 4 else 2,
        some (flowSeen f (flowAt p l3).key).2) := by
  unfold refineAt
  rw [if_neg (not_not.mpr hcls), if_neg hm]
  exact if_pos hport

theorem refineAt_uncounted {p : Bytes} {l3 : Nat} (hcls : transportClass cfg p l3 = 2)
    (hm : ¬ AddrMatch set p l3)
    (hport : ¬ (HasPorts p l3 ∧ mtIsTlsPort cfg (sportAt p l3) (dportAt p l3))) (f : FlowTab) :
    refineAt cfg set (some f) flowCutoff p l3 = (2, some f) := by
  unfold refineAt
  rw [if_neg (not_not.mpr hcls), if_neg hm]
  exact if_neg hport

theorem handshakeFlow_some {r : Record} {fl : Flow} (h : handshakeFlow cfg set r = some fl) :
    ∃ l3, header cfg.l2Off.toNat r.data = some l3 ∧ transportClass cfg r.data l3 = 2 ∧
      ¬ AddrMatch set r.data l3 ∧
      (HasPorts r.data l3 ∧ mtIsTlsPort cfg (sportAt r.data l3) (dportAt r.data l3)) ∧
      flowAt r.data l3 = fl := by
  unfold handshakeFlow at h
  cases hhdr : header cfg.l2Off.toNat r.data with
  | none =>
    rw [hhdr] at h
    cases h
  | some l3 =>
    simp only [hhdr] at h
    split at h
    · next hall => exact ⟨l3, rfl, hall.1, hall.2.1, hall.2.2, Option.some.inj h⟩
    · cases h

theorem handshakeFlow_none {r : Record} {l3 : Nat} (h : handshakeFlow cfg set r = none)
    (hhdr : header cfg.l2Off.toNat r.data = some l3) :
    ¬ (transportClass cfg r.data l3 = 2 ∧ ¬ AddrMatch set r.data l3 ∧
      HasPorts r.data l3 ∧ mtIsTlsPort cfg (sportAt r.data l3) (dportAt r.data l3)) := by
  intro hall
  unfold handshakeFlow at h
  simp only [hhdr] at h
  rw [if_pos hall] at h
  cases h

theorem refine_counts : CountsFlows
    (fun flowtab (r : Record) => refineClass cfg set flowtab flowCutoff r.data)
    (handshakeFlow cfg set) 4 flowCutoff where
  tracked := by
    intro f r fl ht
    obtain ⟨l3, hhdr, hcls, hm, hport, rfl⟩ := handshakeFlow_some ht
    rw [refineClass_found hhdr, refineAt_counted hcls hm hport]
    refine ⟨rfl, ?_⟩
    by_cases hlt : (flowSeen f (flowAt r.data l3).key).1 < flowCutoff <;> simp [hlt]
  untracked := by
    intro f r ht
    cases hhdr : header cfg.l2Off.toNat r.data with
    | none =>
      rw [refineClass_not_found hhdr]
      exact ⟨rfl, (by decide : 2 ≠ 4)⟩
    | some l3 =>
      rw [refineClass_found hhdr]
      by_cases hcls : transportClass cfg r.data l3 = 2
      · by_cases hm : AddrMatch set r.data l3
        · rw [refineAt_hit _ _ hcls hm]
          exact ⟨rfl, (by decide : 3 ≠ 4)⟩
        · rw [refineAt_uncounted hcls hm (fun hport =>
            handshakeFlow_none ht hhdr ⟨hcls, hm, hport⟩)]
          exact ⟨rfl, (by decide : 2 ≠ 4)⟩
      · rw [refineAt_rule _ _ hcls]
        exact ⟨rfl, transportClass_ne_head r.data l3⟩

variable (cfg set flowCutoff) in
/-- Without a table nothing is a handshake. -/
theorem refineClass_tableless (p : Bytes) :
    (refineClass cfg set none flowCutoff p).2 = none ∧
      (refineClass cfg set none flowCutoff p).1 ≠ 4 := by
  cases hhdr : header cfg.l2Off.toNat p with
  | none =>
    rw [refineClass_not_found hhdr]
    exact ⟨rfl, (by decide : 2 ≠ 4)⟩
  | some l3 =>
    rw [refineClass_found hhdr]
    by_cases hcls : transportClass cfg p l3 = 2
    · by_cases hm : AddrMatch set p l3
      · rw [refineAt_hit _ _ hcls hm]
        exact ⟨rfl, (by decide : 3 ≠ 4)⟩
      · unfold refineAt
        rw [if_neg (not_not.mpr hcls), if_neg hm]
        exact ⟨rfl, (by decide : 2 ≠ 4)⟩
    · rw [refineAt_rule _ _ hcls]
      exact ⟨rfl, transportClass_ne_head p l3⟩

end Refine

theorem classes_refine {alloc : LoopAlloc} {args : LoopArgs} {cl : Classifier}
    {set : Option AddrSet} (hsetup : loopSetup filteredProfileError alloc args = .ok (.ok cl))
    (hioc : cl.ioc = setPtr set) (hprofile : args.profile = 1) (rs : List Record) :
    cl.classes rs = .ok (classAll (fun flowtab (r : Record) =>
      refineClass cl.cfg set flowtab cl.flowCutoff r.data) cl.flowtab rs) := by
  have hcfg := loopSetup_cfg hsetup
  have hsecurity : cl.cfg.profile = 1 := by
    rw [classCfg_profile hcfg, hprofile]
    decide
  rw [Classifier.classes_eq (classCfg_l2Off hcfg) hioc]
  congr 2
  funext flowtab r
  exact if_pos hsecurity

/-- With no callback that raises: every packet of a flow on a TLS port is a handshake as long as
its flow is below the cutoff, unless another flow has the same key. -/
theorem handshakes_never_hidden (lib : Libpcap) (alloc : LoopAlloc) (args : LoopArgs)
    (cl : Classifier) (set : Option AddrSet)
    (hsetup : loopSetup filteredProfileError alloc args = .ok (.ok cl))
    (hioc : cl.ioc = setPtr set) (hprofile : args.profile = 1) (f : PyFunc)
    (hf : ∀ before call, f before call = none) (pp : PcapObject) (c : Capture)
    (hpcap : pp.pcap = some c) (hbrk : c.brk = false)
    (hlen : (due args.cnt.toInt c.pending).length < 2 ^ 32) :
    let rs := due args.cnt.toInt c.pending
    let slot := slotOf (1 <<< (20 : UInt32) - 1)
    let N := cl.flowCutoff.toNat
    let track := handshakeFlow cl.cfg set
    let flows := rs.filterMap track
    ∃ ks o pp',
      pLoopFiltered lib alloc pp args f = .ok (o, pp', delivered args.admitMask 100 rs ks) ∧
      ks.length = rs.length ∧
      (cl.flowtab = none → 4 ∉ ks) ∧
      (cl.flowtab ≠ none →
        (∀ pre r post, rs = pre ++ r :: post →
          (track r = none → ks[pre.length]? ≠ some 4) ∧
          ∀ fl, track r = some fl →
            (ks[pre.length]? = some 4 ↔ recent slot (keysOf track pre).reverse fl.key < N) ∧
            ((∀ g ∈ flows, g.key = fl.key → g = fl) → (pre.filterMap track).count fl < N →
              ks[pre.length]? = some 4) ∧
            ((∀ f ∈ flows, ∀ g ∈ flows, slot f.key = slot g.key → f = g) →
              (ks[pre.length]? = some 4 ↔ (flowHeads N (pre.filterMap track)).1 fl + 1 ≤ N))) ∧
        ((∀ f ∈ flows, ∀ g ∈ flows, f.key = g.key → f = g) →
          (flowHeads N flows).2 = ∑ fl ∈ flows.toFinset, min N (flows.count fl) ∧
          ∑ fl ∈ flows.toFinset, min N (flows.count fl) ≤ ks.count 4)) := by
  intro rs slot N track flows
  have hks := classes_refine hsetup hioc hprofile rs
  obtain ⟨c', -, hrun⟩ := loopFiltered_quiet lib alloc pp args f hpcap hbrk hsetup hks
    (firstRaise_of_never hf _ _)
  have hbase : profileBase cl.cfg = 100 := by
    rw [loopSetup_base hsetup, if_pos hprofile]
  rw [hbase] at hrun
  refine ⟨_, _, _, hrun, classAll_length _ _ _, ?_, ?_⟩
  · intro hnone
    rw [hnone]
    exact tableless_run (fun r => refineClass_tableless cl.cfg set cl.flowCutoff r.data) rs
  · intro hsome
    rcases loopSetup_flowtab hsetup with hnone | ⟨f₀, hbuild, htab, -⟩
    · exact absurd hnone hsome
    · rw [htab]
      exact refine_counts.against_dictionary (Recalls.fresh hbuild) hlen

/-- A datagram from 10.0.0.1 to port 443 of 10.0.0.2. -/
def quicRecord : Record where
  hdr := ⟨1, 0, 42, 42⟩
  data := [0, 0, 0, 0, 0, 1, 0, 0, 0, 0, 0, 2, 0x08, 0x00,
    0x45, 0, 0, 28, 0, 0, 0, 0, 64, 17, 0, 0, 10, 0, 0, 1, 10, 0, 0, 2,
    0xc3, 0x50, 0x01, 0xbb, 0, 8, 0, 0]
  captured := rfl

/-- With cutoff 1 the first of two packets of a flow is its handshake. -/
theorem handshakes_never_hidden_quic :
    ∃ ks o pp',
      pLoopFiltered .offline {} ⟨some ⟨[quicRecord, quicRecord], .eof, false⟩, [], 0⟩
          { cnt := -1, admitMask := 16, flowCutoff := 1, profile := 1 } (fun _ _ => none) =
        .ok (o, pp', delivered 16 100 [quicRecord, quicRecord] ks) ∧
      ks[0]? = some 4 ∧ ks[1]? ≠ some 4 := by
  have hflow : handshakeFlow ⟨53, mtDpiPortsDefault, mtTlsPortsDefault, 14, 1⟩ none quicRecord =
      some (flowAt quicRecord.data 14) := by decide
  obtain ⟨ks, o, pp', hrun, -, -, hheads⟩ := handshakes_never_hidden .offline {}
    { cnt := -1, admitMask := 16, flowCutoff := 1, profile := 1 } _ none rfl rfl rfl
    (fun _ _ => none) (fun _ _ => rfl) ⟨some ⟨[quicRecord, quicRecord], .eof, false⟩, [], 0⟩ _ rfl
    rfl (by decide)
  obtain ⟨hone, -⟩ := hheads nofun
  refine ⟨ks, o, pp', hrun, ?_, fun h => ?_⟩
  · exact ((hone [] quicRecord [quicRecord] rfl).2 _ hflow).1.mpr (by decide)
  · exact absurd (((hone [quicRecord] quicRecord [] rfl).2 _ hflow).1.mp h) (by decide)

end PcapyNg
