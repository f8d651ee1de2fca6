import PcapyNg.EqualWork
import PcapyNg.FlowRestart

/-!
# The dictionary of `flow_heads` and the flow table

Python counts flows in a dictionary that forgets nothing. Packet by packet the table admits what
the dictionary admits as long as no two flows share a slot, and never fewer packets in all.
-/

namespace PcapyNg
open ReadLoop SlotCounter
set_option autoImplicit false

def Flow.swapped (f : Flow) : Flow := { f with src := swap32 f.src, dst := swap32 f.dst }

theorem Flow.swapped_inj {f g : Flow} (h : f.swapped = g.swapped) : f = g := by
  rcases f with ⟨src, dst, sport, dport, proto⟩
  rcases g with ⟨src', dst', sport', dport', proto'⟩
  simp only [Flow.swapped, Flow.mk.injEq] at h ⊢
  exact ⟨swap32_inj h.1, swap32_inj h.2.1, h.2.2⟩

/-- The key that Python counts a packet under. -/
def pyFlow (b : Bytes) : Option Flow :=
  match header 14 b with
  | none => none
  | some l3 => if protoAt b l3 = 6 ∨ protoAt b l3 = 17 then some (parsedAt b l3) else none

def chooseHead (cutoff : Nat) (seen : Flow → Nat) (r : Record) : (Flow → Nat) × Bool :=
  match pyFlow r.data with
  | none => (seen, false)
  | some fl => (Function.update seen fl (seen fl + 1), seen fl + 1 ≤ cutoff)

/-- The ports of a TCP or UDP packet are captured, behind a header of full length. -/
def PortsCaptured (b : Bytes) : Prop :=
  ∀ l3, header 14 b = some l3 → protoAt b l3 = 6 ∨ protoAt b l3 = 17 → HasPorts b l3

theorem admitHead_eq (cutoff : Nat) (seen : Flow → Nat) {r : Record} (h : Agrees r.data) :
    admitHead cutoff seen r.data = .ok (chooseHead cutoff seen r) := by
  rw [admitHead, parseIpv4_of_agrees h, chooseHead, pyFlow]
  cases header 14 r.data with
  | none => rfl
  | some l3 =>
    have hproto := (parsedAt_addrs r.data l3).2.2
    simp only [Option.map_some, bind, Except.bind, hproto]
    by_cases hp : protoAt r.data l3 = 6 ∨ protoAt r.data l3 = 17
    · rw [if_neg (by rwa [← not_or, not_not]), if_pos hp]
      rfl
    · rw [if_pos (by rwa [← not_or]), if_neg hp]
      rfl

/-- With its ports captured, Python and C count a packet under the same flow. -/
theorem pyFlow_eq {r : Record} (hports : PortsCaptured r.data) :
    pyFlow r.data = (trackedFlow benchCfg none r.packet).map Flow.swapped := by
  have h14 : header benchCfg.l2Off.toNat r.packet.bytes = header 14 r.data := rfl
  have hno : ∀ l3, ¬ AddrMatch none r.data l3 := by
    rintro l3 (⟨_, h, _⟩ | ⟨_, h, _⟩) <;> cases h
  rw [pyFlow, trackedFlow, h14]
  cases hhdr : header 14 r.data with
  | none => rfl
  | some l3 =>
    have hbytes : r.packet.bytes = r.data := rfl
    simp only [hbytes, if_neg (hno l3)]
    by_cases hp : protoAt r.data l3 = 6 ∨ protoAt r.data l3 = 17
    · have hhas := hports l3 hhdr hp
      rw [if_pos hp, if_pos hhas, Option.map_some, parsedAt, if_pos ⟨hp, hhas.2.2⟩, wordBE_eq,
        wordBE_eq]
      rfl
    · rw [if_neg hp, if_neg fun h => hp h.1]
      rfl

theorem admits_two_iff (k : Nat) : Admits 2 k ↔ k = 1 := by
  have hbits : (2 : Int32).toBitVec = BitVec.twoPow 32 1 := rfl
  rw [Admits, hbits, BitVec.getLsbD_twoPow]
  simp [eq_comm]

section Heads
variable {flowCutoff : UInt32} (hcut : flowCutoff ≠ 0)

/-- What ties the table and the dictionary together before the packets `rs`: both hold the flows
`hist` counted so far, newest first, and no two flows of the run share a slot. -/
structure SameHistory (mask : UInt32) (seen : Flow → Nat) (flowtab : Option FlowTab)
    (rs : List Record) (hist : List Flow) (f : FlowTab) : Prop where
  table : flowtab = some f
  recalls : Recalls mask (hist.map Flow.key) f
  counted : ∀ fl : Flow, seen fl.swapped = hist.count fl
  apart : ∀ g ∈ hist ++ trackedFlows benchCfg none (rs.map Record.packet),
    ∀ h ∈ hist ++ trackedFlows benchCfg none (rs.map Record.packet),
      slotOf mask g.key = slotOf mask h.key → g = h
  small : hist.length + rs.length < 2 ^ 32

include hcut in
theorem SameHistory.step {mask : UInt32} {seen : Flow → Nat} {flowtab : Option FlowTab} {r : Record}
    {rs : List Record} {hist : List Flow} {f : FlowTab} (hports : PortsCaptured r.data)
    (h : SameHistory mask seen flowtab (r :: rs) hist f) :
    (Admits 2 (benchStep none flowCutoff flowtab r).1 ↔
        (chooseHead flowCutoff.toNat seen r).2 = true) ∧
      ∃ hist' f', SameHistory mask (chooseHead flowCutoff.toNat seen r).1
        (benchStep none flowCutoff flowtab r).2 rs hist' f' := by
  obtain ⟨rfl, hrecalls, hcounted, hapart, hsmall⟩ := h
  have hstep : benchStep none flowCutoff (some f) r =
      genericStep benchCfg none flowCutoff (some f) r.packet := rfl
  have hflow := pyFlow_eq hports
  rw [admits_two_iff, hstep, chooseHead, hflow]
  rw [List.length_cons] at hsmall
  cases ht : trackedFlow benchCfg none r.packet with
  | none =>
    obtain ⟨htab, hne⟩ := genericStep_untracked flowCutoff f ht
    have hrest : trackedFlows benchCfg none ((r :: rs).map Record.packet) =
        trackedFlows benchCfg none (rs.map Record.packet) := by simp [trackedFlows, ht]
    rw [hrest] at hapart
    refine ⟨iff_of_false hne Bool.false_ne_true, hist, f, ?_⟩
    exact ⟨htab, hrecalls, hcounted, hapart, by omega⟩
  | some fl =>
    have hrest : trackedFlows benchCfg none ((r :: rs).map Record.packet) =
        fl :: trackedFlows benchCfg none (rs.map Record.packet) := by simp [trackedFlows, ht]
    rw [hrest] at hapart
    have hrival : ∀ g ∈ hist.reverse, slotOf mask g.key = slotOf mask fl.key → g = fl := fun g hg =>
      hapart g (List.mem_append_left _ (List.mem_reverse.mp hg)) fl
        (List.mem_append_right _ List.mem_cons_self)
    have hrecent := recent_key_eq hrival
    rw [List.map_reverse, List.reverse_reverse, List.count_reverse] at hrecent
    have hhead := hrecalls.head_iff flowCutoff (by rw [List.length_map]; omega) fl.key
    rw [hrecent, ← hcounted] at hhead
    rw [genericStep_tracked hcut f ht]
    refine ⟨?_, fl :: hist, _, rfl, (hrecalls.seen fl.key).2, ?_, ?_, ?_⟩
    · rw [ite_eq_left_iff, Option.map_some, decide_eq_true_iff, ← Nat.lt_iff_add_one_le, ← hhead]
      exact ⟨fun h => not_not.mp fun hn => Nat.zero_ne_one (h hn), fun h hn => absurd h hn⟩
    · intro g
      simp only [Option.map_some]
      by_cases hg : g = fl
      · subst hg
        rw [Function.update_self, List.count_cons_self, hcounted]
      · rw [Function.update_of_ne (fun h => hg (Flow.swapped_inj h)),
          List.count_cons_of_ne (Ne.symm hg), hcounted]
    · have hsub : ∀ g, g ∈ fl :: hist ++ trackedFlows benchCfg none (rs.map Record.packet) →
          g ∈ hist ++ fl :: trackedFlows benchCfg none (rs.map Record.packet) := by
        intro g hg
        simp only [List.cons_append, List.mem_cons, List.mem_append] at hg ⊢
        rcases hg with hg | hg | hg
        · exact Or.inr (Or.inl hg)
        · exact Or.inl hg
        · exact Or.inr (Or.inr hg)
      exact fun g hg h hh => hapart g (hsub g hg) h (hsub h hh)
    · rw [List.length_cons]
      omega

include hcut in
theorem offered_heads {mask : UInt32} {f : FlowTab} (hfresh : Recalls mask [] f) {rs : List Record}
    (hports : ∀ r ∈ rs, PortsCaptured r.data)
    (hapart : ∀ g ∈ trackedFlows benchCfg none (rs.map Record.packet),
      ∀ h ∈ trackedFlows benchCfg none (rs.map Record.packet),
        slotOf mask g.key = slotOf mask h.key → g = h) (hlen : rs.length < 2 ^ 32) :
    offered 2 0 rs (classAll (benchStep none flowCutoff) (some f) rs).1 =
      (chosen (chooseHead flowCutoff.toNat) (fun _ => 0) rs).map fun r => (1, r.data) := by
  refine offered_eq_chosen (fun seen flowtab xs => (∀ r ∈ xs, PortsCaptured r.data) ∧
    ∃ hist f, SameHistory mask seen flowtab xs hist f) ?_ ⟨hports, [], f, ?_⟩
  · rintro seen flowtab r xs ⟨hxs, hist, g, hsame⟩
    obtain ⟨hiff, hnext⟩ := hsame.step hcut (hxs r List.mem_cons_self)
    refine ⟨hiff, ?_, fun x hx => hxs x (List.mem_cons_of_mem r hx), hnext⟩
    rw [admits_two_iff]
    intro hk
    rw [hk]
    rfl
  · exact ⟨rfl, hfresh, fun _ => rfl, hapart, by simpa using hlen⟩

end Heads

/-- Python admits as many packets as its dictionary has heads. -/
theorem chosen_dictionary (cutoff : Nat) (rs : List Record) :
    (chosen (chooseHead cutoff) (fun _ => 0) rs).length =
      (flowHeads cutoff (rs.filterMap fun r => pyFlow r.data)).2 := by
  have hrun : ∀ st : (Flow → Nat) × Nat,
      ((rs.filterMap fun r => pyFlow r.data).foldl (flowHeadsStep cutoff) st).2 =
        st.2 + (chosen (chooseHead cutoff) st.1 rs).length := by
    induction rs with
    | nil => exact fun _ => rfl
    | cons r rs ih =>
      intro st
      rw [chosen, chooseHead, List.length_append]
      cases hflow : pyFlow r.data with
      | none =>
        simp only [List.filterMap_cons, hflow, ih]
        simp
      | some fl =>
        simp only [List.filterMap_cons, hflow, List.foldl_cons, ih, flowHeadsStep, decide_eq_true_iff]
        by_cases hn : st.1 fl + 1 ≤ cutoff
        · rw [if_pos hn, if_pos hn, List.length_singleton, Nat.add_assoc]
        · rw [if_neg hn, if_neg hn, List.length_nil, Nat.zero_add]
  have h := hrun (fun _ => 0, 0)
  rw [Nat.zero_add] at h
  exact h.symm

theorem pyFlows_eq {rs : List Record} (hports : ∀ r ∈ rs, PortsCaptured r.data) :
    (rs.filterMap fun r => pyFlow r.data) =
      (trackedFlows benchCfg none (rs.map Record.packet)).map Flow.swapped := by
  rw [trackedFlows, List.filterMap_map, List.map_filterMap]
  apply List.filterMap_congr
  exact fun r hr => pyFlow_eq (hports r hr)

/-- Either side's byte order counts alike. -/
theorem chosen_heads (cutoff : Nat) {rs : List Record} (hports : ∀ r ∈ rs, PortsCaptured r.data) :
    (chosen (chooseHead cutoff) (fun _ => 0) rs).length =
      (flowHeads cutoff (trackedFlows benchCfg none (rs.map Record.packet))).2 := by
  rw [chosen_dictionary, pyFlows_eq hports, flowHeads_eq, flowHeads_eq, ← List.map_reverse]
  exact exactHeads_map cutoff Flow.swapped fun f _ g _ => Flow.swapped_inj

theorem benchSetup_heads (text : String) (mask : Int32) {addrB : Bytes} {set : Option AddrSet}
    (hioc : buildIoc {} (some addrB) = .ok (setPtr set)) {cutoff : Nat} (hpos : 0 < cutoff)
    (hsmall : cutoff < 2 ^ 31) :
    loopSetup text {} (benchArgs mask addrB (Int32.ofNat cutoff)) =
      .ok (.ok ⟨benchCfg, setPtr set, flowtabBuild {} 20, UInt32.ofNat cutoff⟩) := by
  have hgt : Int32.ofNat cutoff > 0 := by
    have hzero : (0 : Int32).toInt = 0 := rfl
    rw [gt_iff_lt, Int32.lt_iff_toInt_lt, Int32.toInt_ofNat_of_lt hsmall, hzero]
    omega
  have hword : (Int32.ofNat cutoff).toUInt32 = UInt32.ofNat cutoff := rfl
  have hne : UInt32.ofNat cutoff ≠ 0 := by
    intro h
    have hnat := congrArg UInt32.toNat h
    rw [UInt32.toNat_ofNat_of_lt' (by omega : cutoff < 2 ^ 32)] at hnat
    exact absurd hnat (Nat.ne_of_gt hpos)
  rw [benchSetup text mask _ hioc, if_pos hgt, hword, if_pos hne]

section Cutoff
variable {cutoff : Nat} (hpos : 0 < cutoff) (hmax : cutoff < 2 ^ 31)
include hpos hmax

theorem cutoff_word : (UInt32.ofNat cutoff).toNat = cutoff ∧ UInt32.ofNat cutoff ≠ 0 := by
  have hword : (UInt32.ofNat cutoff).toNat = cutoff :=
    UInt32.toNat_ofNat_of_lt' (by omega : cutoff < 2 ^ 32)
  refine ⟨hword, fun h => ?_⟩
  rw [h] at hword
  exact absurd hword.symm (Nat.ne_of_gt hpos)

variable (lib : Libpcap) {pp : PcapObject} {rs : List Record} {calls : Nat}
  (hpcap : pp.pcap = some ⟨rs, .eof, false⟩)
  (hagree : ∀ r ∈ rs, Agrees r.data ∧ PortsCaptured r.data) (hlen : rs.length < 2 ^ 32)
  (hcalls : rs.length < calls)
include hpcap hagree hlen hcalls

/-- What the two counting runs return, by the flows they count. -/
theorem counted_heads :
    let flows := trackedFlows benchCfg none (rs.map Record.packet)
    let slot := slotOf ((1 : UInt32) <<< 20 - 1)
    ∃ admitted dropped classes pp' made res,
      pLoopFiltered lib {} pp (benchArgs 2 [] (Int32.ofNat cutoff)) (fun _ _ => none) =
          .ok (.ret (admitted :: dropped :: classes), pp', made) ∧
        pyFlowHeads lib cutoff calls pp = .ok (.ret res) ∧
        res.admitted = (flowHeads cutoff (rs.filterMap fun r => pyFlow r.data)).2 ∧
        ((∀ f ∈ flows, ∀ g ∈ flows, f.key = g.key → f = g) → res.admitted ≤ made.length) ∧
        ((∀ f ∈ flows, ∀ g ∈ flows, slot f.key = slot g.key → f = g) →
          made.length = res.admitted) := by
  intro flows slot
  obtain ⟨hword, hne⟩ := cutoff_word hpos hmax
  have hnone : buildIoc {} (some []) = .ok (setPtr none) := rfl
  have hbuild : flowtabBuild {} 20 = some _ := rfl
  have hports : ∀ r ∈ rs, PortsCaptured r.data := fun r hr => (hagree r hr).2
  have hones : ∀ ks : List Nat, (ks.countP fun k => Admits 2 k) = ks.count 1 := by
    intro ks
    apply List.countP_congr
    intro k _
    rw [decide_eq_true_iff, admits_two_iff, beq_iff_eq]
  have hclasses := benchClasses none (flowtabBuild {} 20) (UInt32.ofNat cutoff) rs
  obtain ⟨pp', made, hfiltered, hmade, hpy⟩ :=
    counting_runs lib (fun _ => 0) hpcap hcalls (fun text => benchSetup_heads text 2 hnone hpos hmax)
      hclasses fun r hr seen => admitHead_eq cutoff seen (hagree r hr).1
  refine ⟨_, _, _, _, _, _, hfiltered, hpy, chosen_dictionary cutoff rs, ?_, ?_⟩
  · intro hkeys
    have hmapped : (rs.map Record.packet).length < 2 ^ 32 := by rwa [List.length_map]
    have hcount : (classAll (genericStep benchCfg none (UInt32.ofNat cutoff)) (some _)
        (rs.map Record.packet)).1.count 1 = _ := count_one_eq_heads hbuild hne hmapped
    rw [classAll_map, hword] at hcount
    rw [hmade, hones]
    exact (chosen_heads cutoff hports).trans_le
      ((flowHeads_le_heads cutoff hkeys).trans_eq hcount.symm)
  · intro hslots
    have hoffered := offered_heads hne (Recalls.fresh hbuild) hports hslots hlen
    rw [hword] at hoffered
    have hadmitted := congrArg List.length hoffered
    rw [offered_length 2 0 (classAll_length _ _ rs), List.length_map] at hadmitted
    exact hmade.trans hadmitted

end Cutoff

/-- The table admits at least as many packets as the dictionary of Python, and where no two flows
share a slot, the same packets. -/
theorem flow_heads_equal_work (lib : Libpcap) (pp : PcapObject) (rs : List Record)
    (hpcap : pp.pcap = some ⟨rs, .eof, false⟩)
    (hagree : ∀ r ∈ rs, Agrees r.data ∧ PortsCaptured r.data)
    (hsmall : ∀ r ∈ rs, r.hdr.caplen.toNat + 5 < 2 ^ 32) (hlen : rs.length < 2 ^ 32) (cutoff : Nat)
    (hpos : 0 < cutoff) (hmax : cutoff < 2 ^ 31) (calls : Nat) (hcalls : rs.length < calls) :
    let flows := trackedFlows benchCfg none (rs.map Record.packet)
    let slot := slotOf ((1 : UInt32) <<< 20 - 1)
    ((∀ f ∈ flows, ∀ g ∈ flows, f.key = g.key → f = g) →
      ∃ admitted dropped classes pp' made res,
        pLoopFiltered lib {} pp (benchArgs 2 [] (Int32.ofNat cutoff)) (fun _ _ => none) =
            .ok (.ret (admitted :: dropped :: classes), pp', made) ∧
          pyFlowHeads lib cutoff calls pp = .ok (.ret res) ∧ res.admitted ≤ made.length ∧
          res.admitted = ∑ f ∈ flows.toFinset, min cutoff (flows.count f)) ∧
    ((∀ f ∈ flows, ∀ g ∈ flows, slot f.key = slot g.key → f = g) →
      EqualCounts lib pp (benchArgs 2 [] (Int32.ofNat cutoff)) (pyFlowHeads lib cutoff calls pp) ∧
        EqualBuffers lib pp (benchArgs 2 [] (Int32.ofNat cutoff))
          (bufferFlowHeads lib cutoff calls pp)) := by
  intro flows slot
  have hports : ∀ r ∈ rs, PortsCaptured r.data := fun r hr => (hagree r hr).2
  constructor
  · intro hkeys
    obtain ⟨admitted, dropped, classes, pp', made, res, hfiltered, hpy, hheads, hle, -⟩ :=
      counted_heads hpos hmax lib hpcap hagree hlen hcalls
    refine ⟨admitted, dropped, classes, pp', made, res, hfiltered, hpy, hle hkeys, ?_⟩
    rw [hheads, ← chosen_dictionary, chosen_heads cutoff hports, flowHeads_snd]
  · intro hslots
    obtain ⟨hword, hne⟩ := cutoff_word hpos hmax
    have hnone : buildIoc {} (some []) = .ok (setPtr none) := rfl
    have hbuild : flowtabBuild {} 20 = some _ := rfl
    have hsetup := fun text => benchSetup_heads text 2 hnone hpos hmax
    have hclasses := benchClasses none (flowtabBuild {} 20) (UInt32.ofNat cutoff) rs
    have hchoose : ∀ r ∈ rs, ∀ seen,
        admitHead cutoff seen r.data = .ok (chooseHead cutoff seen r) :=
      fun r hr seen => admitHead_eq cutoff seen (hagree r hr).1
    have hoffered := offered_heads hne (Recalls.fresh hbuild) hports hslots hlen
    rw [hword] at hoffered
    exact ⟨equalCounts_of_offered lib hpcap hcalls hsetup hclasses hchoose hoffered,
      equalBuffers_of_offered lib hpcap hcalls hsetup hclasses hchoose hsmall hoffered rfl⟩

theorem flow_heads_equal_work_udp :
    EqualCounts .offline udpTwice (benchArgs 2 [] (Int32.ofNat 1)) (pyFlowHeads .offline 1 3 udpTwice) ∧
      EqualBuffers .offline udpTwice (benchArgs 2 [] (Int32.ofNat 1))
        (bufferFlowHeads .offline 1 3 udpTwice) := by
  have hports : PortsCaptured udpRecord.data := by
    intro l3 hl3 _
    obtain rfl : 14 = l3 := Option.some.inj hl3
    decide
  have hflows : trackedFlows benchCfg none ([udpRecord, udpRecord].map Record.packet) =
      List.replicate 2 (flowAt udpRecord.data 14) := by decide
  have h := flow_heads_equal_work .offline udpTwice [udpRecord, udpRecord] rfl
    (by simp [udpRecord_agrees, hports]) (by decide) (by decide) 1 (by decide) (by decide) 3
    (by decide)
  refine h.2 fun f hf g hg _ => ?_
  rw [hflows] at hf hg
  rw [List.eq_of_mem_replicate hf, List.eq_of_mem_replicate hg]

end PcapyNg
