import PcapyNg.PacketView

/-!
# Non-first IP fragments

Neither classifier looks at the fragment offset. The bytes behind the IP header of a
later fragment are therefore read as ports and flags like those of any other packet.
-/

namespace PcapyNg
set_option autoImplicit false

/-- The 13-bit fragment offset of the header at `l3`. -/
def fragOffset (p : Bytes) (l3 : Nat) : Nat :=
  (byteAt p (l3 + 6) &&& 0x1f).toNat * 256 + (byteAt p (l3 + 7)).toNat

def GenericPortless (cfg : ClassCfg) (set : Option AddrSet) (flowtab : Option FlowTab)
    (flowCutoff : UInt32) (p : Packet) : Prop :=
  ∃ cls, classifyGeneric cfg (setPtr set) flowtab flowCutoff p.bytes p.caplen = .ok (cls, flowtab) ∧
    (cls = 0 ∨ cls = 2)

def RefinePortless (cfg : ClassCfg) (set : Option AddrSet) (flowtab : Option FlowTab)
    (flowCutoff : UInt32) (p : Packet) : Prop :=
  ∃ cls, classifyRefine cfg (setPtr set) flowtab flowCutoff p.bytes p.caplen = .ok (cls, flowtab) ∧
    (cls = 2 ∨ cls = 3)

/-- No rule that reads ports or flags fires on the bytes behind the header at `l3`. -/
def PortRulesSilent (cfg : ClassCfg) (set : Option AddrSet) (flowtab : Option FlowTab)
    (flowCutoff : UInt32) (p : Bytes) (l3 : Nat) : Prop :=
  HasPorts p l3 → ¬ IsDns cfg p l3 ∧ ¬ (HasFlags p l3 ∧ (IsSyn p l3 ∨ IsHttp cfg p l3)) ∧
    (AddrMatch set p l3 ∨ flowtab = none ∨
      (flowCutoff = 0 ∧ ¬ mtIsTlsPort cfg (sportAt p l3) (dportAt p l3)))

instance (cfg : ClassCfg) (set : Option AddrSet) (flowCutoff : UInt32) (p : Bytes) (l3 : Nat) :
    Decidable (PortRulesSilent cfg set none flowCutoff p l3) := by
  unfold PortRulesSilent
  infer_instance

theorem transportClass_eq_two_iff (cfg : ClassCfg) (p : Bytes) (l3 : Nat) :
    transportClass cfg p l3 = 2 ↔
      (HasPorts p l3 → ¬ IsDns cfg p l3 ∧ ¬ (HasFlags p l3 ∧ (IsSyn p l3 ∨ IsHttp cfg p l3))) := by
  unfold transportClass
  by_cases hp : HasPorts p l3 <;> by_cases hd : IsDns cfg p l3 <;> by_cases hf : HasFlags p l3 <;>
    by_cases hs : IsSyn p l3 <;> by_cases hh : IsHttp cfg p l3 <;> simp [hp, hd, hf, hs, hh]

theorem transportClass_ne_three (cfg : ClassCfg) (p : Bytes) (l3 : Nat) :
    transportClass cfg p l3 ≠ 3 := by
  unfold transportClass
  repeat' split
  all_goals decide

theorem genericAt_portless_iff (set : Option AddrSet) (flowtab : Option FlowTab)
    (flowCutoff : UInt32) (p : Bytes) (l3 : Nat) :
    (∃ cls, genericAt set flowtab flowCutoff p l3 = (cls, flowtab) ∧ (cls = 0 ∨ cls = 2)) ↔
      (HasPorts p l3 → AddrMatch set p l3 ∨ flowtab = none ∨ flowCutoff = 0) := by
  unfold genericAt
  by_cases hm : AddrMatch set p l3
  · simp [hm]
  · cases flowtab with
    | none => simp [hm]
    | some f =>
      by_cases ht : flowCutoff ≠ 0 ∧ HasPorts p l3
      · have hne := flowSeen_ne f (flowAt p l3).key
        simp [hm, ht, hne]
      · simp only [hm, if_false, if_neg ht]
        simp
        tauto

theorem refineAt_portless_iff (cfg : ClassCfg) (set : Option AddrSet) (flowtab : Option FlowTab)
    (flowCutoff : UInt32) (p : Bytes) (l3 : Nat) :
    (∃ cls, refineAt cfg set flowtab flowCutoff p l3 = (cls, flowtab) ∧ (cls = 2 ∨ cls = 3)) ↔
      transportClass cfg p l3 = 2 ∧ (HasPorts p l3 → AddrMatch set p l3 ∨ flowtab = none ∨
        ¬ mtIsTlsPort cfg (sportAt p l3) (dportAt p l3)) := by
  have h3 := transportClass_ne_three cfg p l3
  unfold refineAt
  by_cases hc : transportClass cfg p l3 = 2
  · by_cases hm : AddrMatch set p l3
    · simp [hc, hm]
    · cases flowtab with
      | none => simp [hc, hm]
      | some f =>
        by_cases ht : HasPorts p l3 ∧ mtIsTlsPort cfg (sportAt p l3) (dportAt p l3)
        · have hne := flowSeen_ne f (flowAt p l3).key
          simp [hc, hm, ht, hne]
        · simp only [hc, hm, if_false, if_neg ht]
          simpa using fun hp => by simpa using fun htls => ht ⟨hp, htls⟩
  · simp [hc, h3]

/-- The two classifiers keep away from ports and flow table exactly when no rule fires on the bytes
behind the IP header. The fragment offset plays no part on either side. -/
theorem portless_iff (cfg : ClassCfg) (hoff : cfg.l2Off.toNat ≤ 64) (set : Option AddrSet)
    (flowtab : Option FlowTab) (flowCutoff : UInt32) (p : Packet) (l3 : UInt32)
    (hloc : locateIpv4 cfg.l2Off p.bytes p.caplen = .ok (some l3)) :
    GenericPortless cfg set flowtab flowCutoff p ∧ RefinePortless cfg set flowtab flowCutoff p ↔
      PortRulesSilent cfg set flowtab flowCutoff p.bytes l3.toNat := by
  have hhdr := header_of_locate hoff hloc
  simp only [GenericPortless, RefinePortless, classifyGeneric_eq cfg hoff,
    classifyRefine_eq cfg hoff, Except.ok.injEq, genericClass, refineClass, hhdr,
    genericAt_portless_iff, refineAt_portless_iff, transportClass_eq_two_iff, PortRulesSilent]
  constructor
  · rintro ⟨hgeneric, htransport, hrefine⟩ hports
    obtain ⟨hdns, htcp⟩ := htransport hports
    refine ⟨hdns, htcp, ?_⟩
    rcases hgeneric hports with hm | hnone | hcut
    · exact Or.inl hm
    · exact Or.inr (Or.inl hnone)
    · exact (hrefine hports).imp_right (Or.imp_right fun htls => ⟨hcut, htls⟩)
  · intro h
    refine ⟨fun hports => ?_, fun hports => ⟨(h hports).1, (h hports).2.1⟩, fun hports => ?_⟩
    · exact (h hports).2.2.imp_right (Or.imp_right And.left)
    · exact (h hports).2.2.imp_right (Or.imp_right And.right)

/-- For a non-first fragment the two classifiers keep away from ports and flow table exactly when
no rule fires on its payload. -/
theorem fragment_portless_iff (cfg : ClassCfg) (hoff : cfg.l2Off.toNat ≤ 64)
    (set : Option AddrSet) (flowtab : Option FlowTab) (flowCutoff : UInt32) (p : Packet)
    (l3 : UInt32) (hloc : locateIpv4 cfg.l2Off p.bytes p.caplen = .ok (some l3))
    (_hfrag : fragOffset p.bytes l3.toNat ≠ 0) :
    GenericPortless cfg set flowtab flowCutoff p ∧ RefinePortless cfg set flowtab flowCutoff p ↔
      PortRulesSilent cfg set flowtab flowCutoff p.bytes l3.toNat :=
  portless_iff cfg hoff set flowtab flowCutoff p l3 hloc

/-- A fragment at offset 185 from 10.0.0.1 to 10.0.0.2 whose payload starts like a DNS datagram. -/
def fragmentPacket : Packet where
  bytes := [0, 0, 0, 0, 0, 2, 0, 0, 0, 0, 0, 1, 0x08, 0x00,
    0x45, 0, 0, 28, 0, 1, 0x00, 0xb9, 64, 17, 0, 0, 10, 0, 0, 1, 10, 0, 0, 2,
    0x00, 0x35, 0x07, 0xd0, 0, 8, 0, 0]
  small := by decide

theorem fragment_portless_iff_silent :
    GenericPortless ⟨5353, [], [], 14, 0⟩ none none 0 fragmentPacket ∧
      RefinePortless ⟨5353, [], [], 14, 0⟩ none none 0 fragmentPacket :=
  (fragment_portless_iff ⟨5353, [], [], 14, 0⟩ (by decide) none none 0 fragmentPacket 14 (by decide)
    (by decide)).mpr (by decide)

/-- Payload bytes taken for ports: a FLOW_HEAD in one profile, DNS in the other. -/
theorem fragment_read_as_ports :
    fragOffset fragmentPacket.bytes 14 = 185 ∧
      ¬ GenericPortless ⟨53, [], [], 14, 0⟩ none (flowtabBuild {} 4) 1 fragmentPacket ∧
      ¬ RefinePortless ⟨53, [], [], 14, 0⟩ none none 0 fragmentPacket := by
  have hgen : (classifyGeneric ⟨53, [], [], 14, 0⟩ none (flowtabBuild {} 4) 1 fragmentPacket.bytes
      fragmentPacket.caplen).map Prod.fst = .ok 1 := by decide
  have href : (classifyRefine ⟨53, [], [], 14, 0⟩ none none 0 fragmentPacket.bytes
      fragmentPacket.caplen).map Prod.fst = .ok 0 := by decide
  have hptr : setPtr none = none := rfl
  refine ⟨by decide, ?_, ?_⟩
  · intro hex
    rcases hex with ⟨cls, h, hcls⟩
    rw [hptr] at h
    rw [h] at hgen
    rcases hcls with rfl | rfl <;> cases hgen
  · intro hex
    rcases hex with ⟨cls, h, hcls⟩
    rw [hptr] at h
    rw [h] at href
    rcases hcls with rfl | rfl <;> cases href

end PcapyNg
