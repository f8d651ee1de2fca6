import PcapyNg.Fragments

/-!
# The two profiles on addresses

Header search and address lookup are written once for each profile. They agree on every
packet: the security profile reports an address exactly where the generic one does and
`mt_classify` has no better class for the packet.
-/

namespace PcapyNg
set_option autoImplicit false

theorem refineAt_addr_iff (cfg : ClassCfg) (set : Option AddrSet) (flowtab : Option FlowTab)
    (flowCutoff : UInt32) (p : Bytes) (l3 : Nat) :
    (refineAt cfg set flowtab flowCutoff p l3).1 = 3 ↔
      transportClass cfg p l3 = 2 ∧ AddrMatch set p l3 := by
  rcases refineAt_rules flowtab flowCutoff cfg set p l3 with
    ⟨hcls, heq⟩ | ⟨hcls, hm, heq⟩ | ⟨hcls, hm, hrange⟩
  · rw [heq]
    exact iff_of_false (transportClass_ne_three cfg p l3) (fun h => hcls h.1)
  · exact iff_of_true heq ⟨hcls, hm⟩
  · exact iff_of_false (by omega) (fun h => hm h.2)

/-- On a matching address the security profile never falls through to OTHER or HANDSHAKE. -/
theorem refineAt_of_match (cfg : ClassCfg) {set : Option AddrSet} (flowtab : Option FlowTab)
    (flowCutoff : UInt32) {p : Bytes} {l3 : Nat} (hm : AddrMatch set p l3) :
    (refineAt cfg set flowtab flowCutoff p l3).1 =
      if transportClass cfg p l3 = 2 then 3 else transportClass cfg p l3 := by
  by_cases hc : transportClass cfg p l3 = 2
  · rw [refineAt_hit flowtab flowCutoff hc hm, if_pos hc]
  · rw [refineAt_rule flowtab flowCutoff hc, if_neg hc]

theorem transportClass_ne_four (cfg : ClassCfg) (p : Bytes) (l3 : Nat) :
    transportClass cfg p l3 ≠ 4 := by
  unfold transportClass
  repeat' split
  all_goals decide

/-- Both profiles find the same header, and report an address for the same packets up to the
classes `mt_classify` prefers. -/
theorem profiles_agree_on_addresses (cfg cfg' : ClassCfg) (hoff : cfg.l2Off.toNat ≤ 64)
    (hl2 : cfg'.l2Off = cfg.l2Off) (set : Option AddrSet) (flowtab flowtab' : Option FlowTab)
    (flowCutoff flowCutoff' : UInt32) (p : Packet) :
    ∃ cls o hdr refined f generic f',
      mtClassify cfg p.bytes p.caplen = .ok (cls, o) ∧
      locateIpv4 cfg.l2Off p.bytes p.caplen = .ok hdr ∧
      classifyRefine cfg (setPtr set) flowtab flowCutoff p.bytes p.caplen = .ok (refined, f) ∧
      classifyGeneric cfg' (setPtr set) flowtab' flowCutoff' p.bytes p.caplen = .ok (generic, f') ∧
      (∀ l3, o.ipv4 = true ∧ o.l3 = some l3 ↔ hdr = some l3) ∧ (o.ipv4 = false ↔ hdr = none) ∧
      (refined = 3 ↔ cls = 2 ∧ generic = 2) ∧
      (generic = 2 → refined ≠ 2 ∧ refined ≠ 4) := by
  have hoff' : cfg'.l2Off.toNat ≤ 64 := by
    rw [hl2]
    exact hoff
  rw [classifyRefine_eq cfg hoff, classifyGeneric_eq cfg' hoff']
  rcases header_search p hoff with ⟨r, hloc, hsearch, hhdr, hr, hlen⟩ | ⟨hloc, hsearch, hhdr⟩
  · obtain ⟨o, hmt, hipv4, hl3, -⟩ := mtClassify_some cfg hsearch hr hlen
    have hhdr' : header cfg'.l2Off.toNat p.bytes = some r.toNat := by rw [hl2, hhdr]
    rw [refineClass_found hhdr, genericClass_found hhdr']
    refine ⟨_, o, some r, (refineAt cfg set flowtab flowCutoff p.bytes r.toNat).1, _,
      (genericAt set flowtab' flowCutoff' p.bytes r.toNat).1, _, hmt, hloc, rfl, rfl, ?_, ?_, ?_, ?_⟩
    · intro l3
      rw [hipv4, hl3]
      exact and_iff_right rfl
    · rw [hipv4]
      exact iff_of_false nofun nofun
    · rw [refineAt_addr_iff, genericAt_match_iff]
    · intro hgeneric
      have hm := (genericAt_match_iff _ _).mp hgeneric
      have h4 := transportClass_ne_four cfg p.bytes r.toNat
      rw [refineAt_of_match cfg _ _ hm]
      split
      · exact ⟨by decide, by decide⟩
      · exact ⟨by assumption, h4⟩
  · have hhdr' : header cfg'.l2Off.toNat p.bytes = none := by rw [hl2, hhdr]
    rw [refineClass_not_found hhdr, genericClass_not_found hhdr']
    refine ⟨2, {}, none, 2, _, 0, _, mtClassify_none cfg hsearch, hloc, rfl, rfl, ?_, ?_, ?_, nofun⟩
    · intro l3
      exact iff_of_false nofun nofun
    · exact iff_of_true rfl rfl
    · exact iff_of_false nofun nofun

/-- A packet from an address of the set. -/
theorem profiles_agree_on_addresses_udp :
    ∃ set : Option AddrSet, ipsetBuild {} [10, 0, 0, 1] = .ok (setPtr set) ∧
    ∃ cls o hdr refined f generic f',
      mtClassify ⟨53, [], [], 14, 1⟩ udpPacket.bytes udpPacket.caplen = .ok (cls, o) ∧
      locateIpv4 14 udpPacket.bytes udpPacket.caplen = .ok hdr ∧
      classifyRefine ⟨53, [], [], 14, 1⟩ (setPtr set) none 0 udpPacket.bytes udpPacket.caplen =
        .ok (refined, f) ∧
      classifyGeneric ⟨53, [], [], 14, 0⟩ (setPtr set) none 0 udpPacket.bytes udpPacket.caplen =
        .ok (generic, f') ∧
      (∀ l3, o.ipv4 = true ∧ o.l3 = some l3 ↔ hdr = some l3) ∧ (o.ipv4 = false ↔ hdr = none) ∧
      (refined = 3 ↔ cls = 2 ∧ generic = 2) ∧ (generic = 2 → refined ≠ 2 ∧ refined ≠ 4) ∧
      generic = 2 ∧ refined = 3 := by
  obtain ⟨s, hbuild, -⟩ := ipsetBuild_spec [10, 0, 0, 1] (by decide)
  obtain ⟨cls, o, hdr, refined, f, generic, f', hmt, hloc, hrefined, hgeneric, hsame, hnone, haddr,
    hprefer⟩ := profiles_agree_on_addresses ⟨53, [], [], 14, 1⟩ ⟨53, [], [], 14, 0⟩ (by decide) rfl
      (some s) none none 0 0 udpPacket
  have hcls : cls = 2 := by
    have h : (mtClassify ⟨53, [], [], 14, 1⟩ udpPacket.bytes udpPacket.caplen).map Prod.fst =
        .ok 2 := by decide
    rw [hmt] at h
    exact Except.ok.inj h
  have hmatch : generic = 2 := by
    have h : ((ipsetBuild {} [10, 0, 0, 1]).bind fun set =>
        (classifyGeneric ⟨53, [], [], 14, 0⟩ set none 0 udpPacket.bytes
          udpPacket.caplen).map Prod.fst) = .ok 2 := by decide
    rw [hbuild] at h
    exact Except.ok.inj ((congrArg (Except.map Prod.fst) hgeneric).symm.trans h)
  exact ⟨some s, hbuild, cls, o, hdr, refined, f, generic, f', hmt, hloc, hrefined, hgeneric, hsame,
    hnone, haddr, hprefer, hmatch, haddr.mpr ⟨hcls, hmatch⟩⟩

end PcapyNg
