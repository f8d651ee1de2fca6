import PcapyNg.ProfileAgreement

/-!
# Ethernet frames that do not carry IPv4

Neither header search looks at the ethertype: four bits of a byte decide. Any protocol
whose payload starts with the nibble 4, or any tag whose control word does, is read as an
IPv4 header, and then its bytes are looked up, matched and counted like those of one.
-/

namespace PcapyNg
set_option autoImplicit false

/-- The ethertype found at `i`, behind `tags` VLAN tags at most. -/
def etherTypeFrom (p : Bytes) : Nat → Nat → UInt16
  | 0, i => portAt p i
  | tags + 1, i => if vlanTpidBefore p (i + 2) then etherTypeFrom p tags (i + 4) else portAt p i

def etherType (p : Bytes) : UInt16 := etherTypeFrom p 2 12

/-- Both profiles call the packet OTHER and leave the flow table alone. -/
def OtherUntouched (cfg : ClassCfg) (set : Option AddrSet) (flowtab : Option FlowTab)
    (flowCutoff : UInt32) (p : Packet) : Prop :=
  classifyGeneric cfg (setPtr set) flowtab flowCutoff p.bytes p.caplen = .ok (0, flowtab) ∧
    classifyRefine cfg (setPtr set) flowtab flowCutoff p.bytes p.caplen = .ok (2, flowtab)

/-- No rule fires on what stands at `l3`, read as an IPv4 packet. -/
def AllRulesSilent (cfg : ClassCfg) (set : Option AddrSet) (flowtab : Option FlowTab)
    (flowCutoff : UInt32) (p : Bytes) (l3 : Nat) : Prop :=
  ¬ AddrMatch set p l3 ∧ PortRulesSilent cfg set flowtab flowCutoff p l3

theorem genericAt_other_iff (set : Option AddrSet) (flowtab : Option FlowTab)
    (flowCutoff : UInt32) (p : Bytes) (l3 : Nat) :
    genericAt set flowtab flowCutoff p l3 = (0, flowtab) ↔
      ¬ AddrMatch set p l3 ∧ (HasPorts p l3 → flowtab = none ∨ flowCutoff = 0) := by
  have hmatch : (genericAt set flowtab flowCutoff p l3).1 = 2 ↔ AddrMatch set p l3 :=
    genericAt_match_iff flowtab flowCutoff
  have hportless := genericAt_portless_iff set flowtab flowCutoff p l3
  constructor
  · intro h
    have hm : ¬ AddrMatch set p l3 := by
      intro hm
      rw [h] at hmatch
      cases hmatch.mpr hm
    refine ⟨hm, ?_⟩
    intro hports
    exact (hportless.mp ⟨0, h, Or.inl rfl⟩ hports).resolve_left hm
  · intro hex
    rcases hex with ⟨hm, hrules⟩
    obtain ⟨cls, h, hcls⟩ := hportless.mpr fun hports => Or.inr (hrules hports)
    rcases hcls with rfl | rfl
    · exact h
    · rw [h] at hmatch
      exact absurd (hmatch.mp rfl) hm

theorem refineAt_other_iff (cfg : ClassCfg) (set : Option AddrSet) (flowtab : Option FlowTab)
    (flowCutoff : UInt32) (p : Bytes) (l3 : Nat) :
    refineAt cfg set flowtab flowCutoff p l3 = (2, flowtab) ↔
      transportClass cfg p l3 = 2 ∧ ¬ AddrMatch set p l3 ∧ (HasPorts p l3 → flowtab = none ∨
        ¬ mtIsTlsPort cfg (sportAt p l3) (dportAt p l3)) := by
  have haddr := refineAt_addr_iff cfg set flowtab flowCutoff p l3
  have hportless := refineAt_portless_iff cfg set flowtab flowCutoff p l3
  constructor
  · intro h
    obtain ⟨hc, hrules⟩ := hportless.mp ⟨2, h, Or.inl rfl⟩
    have hm : ¬ AddrMatch set p l3 := by
      intro hm
      rw [h] at haddr
      cases haddr.mpr ⟨hc, hm⟩
    refine ⟨hc, hm, ?_⟩
    intro hports
    exact (hrules hports).resolve_left hm
  · intro hex
    rcases hex with ⟨hc, hm, hrules⟩
    obtain ⟨cls, h, hcls⟩ := hportless.mpr ⟨hc, fun hports => Or.inr (hrules hports)⟩
    rcases hcls with rfl | rfl
    · exact h
    · rw [h] at haddr
      exact absurd (haddr.mp rfl).2 hm

theorem silent_iff (cfg : ClassCfg) (set : Option AddrSet) (flowtab : Option FlowTab)
    (flowCutoff : UInt32) (p : Bytes) (l3 : Nat) :
    (genericAt set flowtab flowCutoff p l3 = (0, flowtab) ∧
        refineAt cfg set flowtab flowCutoff p l3 = (2, flowtab)) ↔
      AllRulesSilent cfg set flowtab flowCutoff p l3 := by
  rw [genericAt_other_iff, refineAt_other_iff, transportClass_eq_two_iff, AllRulesSilent,
    PortRulesSilent]
  constructor
  · intro hex
    rcases hex with ⟨⟨hm, hgeneric⟩, htransport, -, hrefine⟩
    refine ⟨hm, ?_⟩
    intro hports
    obtain ⟨hdns, htcp⟩ := htransport hports
    refine ⟨hdns, htcp, Or.inr ?_⟩
    rcases hgeneric hports with hnone | hcut
    · exact Or.inl hnone
    · exact (hrefine hports).imp_right fun htls => ⟨hcut, htls⟩
  · intro hex
    rcases hex with ⟨hm, h⟩
    refine ⟨⟨hm, ?_⟩, ?_, hm, ?_⟩
    · intro hports
      exact ((h hports).2.2.resolve_left hm).imp_right And.left
    · intro hports
      exact ⟨(h hports).1, (h hports).2.1⟩
    · intro hports
      exact ((h hports).2.2.resolve_left hm).imp_right And.right

/-- A frame is OTHER in both profiles exactly when the search for a version nibble finds nothing in
it, or no rule fires where it finds something. The ethertype plays no part. -/
theorem otherUntouched_iff (cfg : ClassCfg) (hl2 : cfg.l2Off = 14) (set : Option AddrSet)
    (flowtab : Option FlowTab) (flowCutoff : UInt32) (p : Packet) :
    OtherUntouched cfg set flowtab flowCutoff p ↔
      ∀ l3, header 14 p.bytes = some l3 → AllRulesSilent cfg set flowtab flowCutoff p.bytes l3 := by
  have hoff : cfg.l2Off.toNat ≤ 64 := by
    rw [hl2]
    decide
  have h14 : cfg.l2Off.toNat = 14 := by
    rw [hl2]
    rfl
  rw [OtherUntouched, classifyGeneric_eq cfg hoff, classifyRefine_eq cfg hoff]
  cases hhdr : header 14 p.bytes with
  | none =>
    rw [← h14] at hhdr
    rw [genericClass_not_found hhdr, refineClass_not_found hhdr]
    exact iff_of_true ⟨rfl, rfl⟩ nofun
  | some l3 =>
    rw [← h14] at hhdr
    rw [genericClass_found hhdr, refineClass_found hhdr, Except.ok.injEq, Except.ok.injEq, silent_iff]
    constructor
    · intro h l3' hl3'
      cases hl3'
      exact h
    · intro h
      exact h l3 rfl

/-- A frame of another ethertype is OTHER in both profiles exactly when no rule fires where the
search for a version nibble finds something in it. -/
theorem foreign_frame_other_iff (cfg : ClassCfg) (hl2 : cfg.l2Off = 14) (set : Option AddrSet)
    (flowtab : Option FlowTab) (flowCutoff : UInt32) (p : Packet)
    (_hforeign : etherType p.bytes ≠ 0x0800) :
    OtherUntouched cfg set flowtab flowCutoff p ↔
      ∀ l3, header 14 p.bytes = some l3 → AllRulesSilent cfg set flowtab flowCutoff p.bytes l3 :=
  otherUntouched_iff cfg hl2 set flowtab flowCutoff p

/-- An ARP request for 10.0.0.2. -/
def arpFrame : Packet where
  bytes := [255, 255, 255, 255, 255, 255, 0, 0, 0, 0, 0, 1, 0x08, 0x06,
    0, 1, 0x08, 0x00, 6, 4, 0, 1, 0, 0, 0, 0, 0, 1, 10, 0, 0, 1, 0, 0, 0, 0, 0, 0, 10, 0, 0, 2]
  small := by decide

theorem foreign_frame_other_iff_arp :
    OtherUntouched ⟨53, [80], [443], 14, 1⟩ none (flowtabBuild {} 4) 1 arpFrame :=
  (foreign_frame_other_iff ⟨53, [80], [443], 14, 1⟩ rfl none (flowtabBuild {} 4) 1 arpFrame
    (by decide)).mpr fun l3 h => absurd (h.symm.trans (by decide : header 14 arpFrame.bytes = none))
      nofun

/-- An IPv6 frame from 2001:db8::35:0:1 with an 802.1Q tag of priority 2. -/
def taggedIpv6 : Packet where
  bytes := [0, 0, 0, 0, 0, 2, 0, 0, 0, 0, 0, 1, 0x81, 0x00, 0x45, 0x00, 0x86, 0xdd,
    0x60, 0, 0, 0, 0, 17, 0x3a, 64,
    0x20, 0x01, 0x0d, 0xb8, 0, 0, 0, 0, 0x00, 0x35, 0, 0, 0, 0, 0, 1,
    0x20, 0x01, 0x0d, 0xb8, 0, 0, 0, 0, 0, 0, 0, 0, 0, 0, 0, 2,
    128, 0, 0, 0, 0, 1, 0, 1, 0, 0, 0, 0, 0, 0, 0, 0, 0]
  small := by decide

/-- An IPv6 packet that is a FLOW_HEAD in one profile and DNS in the other. -/
theorem tagged_ipv6_is_dns :
    etherType taggedIpv6.bytes = 0x86dd ∧
      (classifyGeneric ⟨53, [80], [443], 14, 0⟩ none (flowtabBuild {} 4) 1 taggedIpv6.bytes
        taggedIpv6.caplen).map Prod.fst = .ok 1 ∧
      (classifyRefine ⟨53, [80], [443], 14, 1⟩ none none 0 taggedIpv6.bytes
        taggedIpv6.caplen).map Prod.fst = .ok 0 ∧
      ¬ OtherUntouched ⟨53, [80], [443], 14, 0⟩ none (flowtabBuild {} 4) 1 taggedIpv6 := by
  have hgen : (classifyGeneric ⟨53, [80], [443], 14, 0⟩ none (flowtabBuild {} 4) 1 taggedIpv6.bytes
      taggedIpv6.caplen).map Prod.fst = .ok 1 := by decide
  refine ⟨by decide, hgen, by decide, ?_⟩
  intro hex
  rcases hex with ⟨h, -⟩
  have hptr : setPtr none = none := rfl
  rw [hptr] at h
  rw [h] at hgen
  cases hgen

end PcapyNg
