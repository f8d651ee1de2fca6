import PcapyNg.Padding

/-!
# Shorter and longer captures of one packet

Every check of the classifiers that passes on a prefix of a packet passes on a longer one, so
a larger snaplen adds matches and takes none away. A class of the security profile may still
change: what was noise on an address or a first TLS packet can turn out to be a SYN or HTTP.
-/

namespace PcapyNg
set_option autoImplicit false

/-- The packet as a capture with snaplen `n` has it. -/
def Packet.truncate (p : Packet) (n : Nat) : Packet where
  bytes := p.bytes.take n
  small := by
    have hle := List.length_take_le' n p.bytes
    have hsmall := p.small
    omega

theorem Packet.truncate_append (p : Packet) {n m : Nat} (h : n ≤ m) :
    ∃ more, (p.truncate m).bytes = (p.truncate n).bytes ++ more := by
  refine ⟨(p.bytes.take m).drop n, ?_⟩
  have htake : p.bytes.take n = (p.bytes.take m).take n := by
    rw [List.take_take, Nat.min_eq_left h]
  change p.bytes.take m = p.bytes.take n ++ (p.bytes.take m).drop n
  rw [htake, List.take_append_drop]

section Longer
variable {p : Bytes} (more : Bytes) {l3 : Nat} (h : l3 + 20 ≤ p.length)
include h

theorem isHttp_append {cfg : ClassCfg} (hports : HasPorts p l3) (hflags : HasFlags p l3)
    (hhttp : IsHttp cfg p l3) : IsHttp cfg (p ++ more) l3 := by
  obtain ⟨hs, hd⟩ := ports_append more h hports
  rcases hhttp with ⟨hhl, hpay, hwatched⟩
  refine ⟨?_, ?_, ?_⟩
  · rw [tcpHlAt_append more h hflags]
    exact hhl
  · rw [tcpHlAt_append more h hflags, l4At_append more h, List.length_append]
    omega
  · rw [hs, hd]
    exact hwatched

/-- A rule of `mt_classify` that names a class on the prefix names it on the longer capture. -/
theorem transportClass_append {cfg : ClassCfg} (hcls : transportClass cfg p l3 ≠ 2) :
    transportClass cfg (p ++ more) l3 = transportClass cfg p l3 := by
  unfold transportClass at hcls ⊢
  by_cases hports : HasPorts p l3
  · have hdns := isDns_append more h hports cfg
    rw [if_pos hports] at hcls ⊢
    rw [if_pos (hasPorts_append more h hports)]
    by_cases hd : IsDns cfg p l3
    · rw [if_pos hd, if_pos (hdns.mpr hd)]
    rw [if_neg hd] at hcls ⊢
    rw [if_neg fun hd' => hd (hdns.mp hd')]
    by_cases hflags : HasFlags p l3
    · have hsyn := isSyn_append more h hflags
      rw [if_pos hflags] at hcls ⊢
      rw [if_pos (hasFlags_append more h hflags)]
      by_cases hs : IsSyn p l3
      · rw [if_pos hs, if_pos (hsyn.mpr hs)]
      rw [if_neg hs] at hcls ⊢
      rw [if_neg fun hs' => hs (hsyn.mp hs')]
      by_cases hhttp : IsHttp cfg p l3
      · rw [if_pos hhttp, if_pos (isHttp_append more h hports hflags hhttp)]
      · rw [if_neg hhttp] at hcls
        exact absurd rfl hcls
    · rw [if_neg hflags] at hcls
      exact absurd rfl hcls
  · rw [if_neg hports] at hcls
    exact absurd rfl hcls

variable {set : Option AddrSet} {flowCutoff : UInt32}

/-- A class of the generic profile other than OTHER stays, and the flow table with it. -/
theorem genericAt_longer {flowtab : Option FlowTab}
    (hcls : (genericAt set flowtab flowCutoff p l3).1 ≠ 0) :
    genericAt set flowtab flowCutoff (p ++ more) l3 = genericAt set flowtab flowCutoff p l3 := by
  by_cases hm : AddrMatch set p l3
  · rw [genericAt_hit _ _ hm, genericAt_hit _ _ ((addrMatch_append more h set).mpr hm)]
  by_cases hports : HasPorts p l3
  · exact genericAt_append more h hports set flowtab flowCutoff
  · rw [genericAt_silent _ _ hm hports] at hcls
    exact absurd rfl hcls

/-- A table that is asked about the prefix is asked for the same flow of the longer capture. -/
theorem genericAt_asked {f : FlowTab}
    (hasked : (genericAt set (some f) flowCutoff p l3).2 ≠ some f) :
    genericAt set (some f) flowCutoff (p ++ more) l3 = genericAt set (some f) flowCutoff p l3 := by
  by_cases hm : AddrMatch set p l3
  · rw [genericAt_hit _ _ hm] at hasked
    exact absurd rfl hasked
  by_cases hports : HasPorts p l3
  · exact genericAt_append more h hports set (some f) flowCutoff
  · rw [genericAt_silent _ _ hm hports] at hasked
    exact absurd rfl hasked

theorem refineAt_longer {cfg : ClassCfg} {flowtab : Option FlowTab}
    (hcls : (refineAt cfg set flowtab flowCutoff p l3).1 ≠ 2) :
    (refineAt cfg set flowtab flowCutoff (p ++ more) l3).1 ≠ 2 := by
  by_cases hlong : transportClass cfg (p ++ more) l3 = 2
  · -- no rule of `mt_classify` fires on either capture: an address or a first TLS packet
    have hshort : transportClass cfg p l3 = 2 := by
      by_contra hne
      exact hne ((transportClass_append more h hne).symm.trans hlong)
    by_cases hm : AddrMatch set p l3
    · rw [refineAt_hit _ _ hlong ((addrMatch_append more h set).mpr hm)]
      exact (by decide : 3 ≠ 2)
    by_cases hports : HasPorts p l3
    · rwa [refineAt_padded cfg set flowtab flowCutoff h hports (hlong.trans hshort.symm)]
    · rw [refineAt_silent _ _ hshort hm hports] at hcls
      exact absurd rfl hcls
  · rw [refineAt_rule _ _ hlong]
    exact hlong

/-- DNS, HTTP and SYN are named by `mt_classify` alone, so they stay. -/
theorem refineAt_rule_longer {cfg : ClassCfg} {flowtab : Option FlowTab}
    (hcls : (refineAt cfg set flowtab flowCutoff p l3).1 = 0 ∨
      (refineAt cfg set flowtab flowCutoff p l3).1 = 1 ∨
      (refineAt cfg set flowtab flowCutoff p l3).1 = 5) :
    refineAt cfg set flowtab flowCutoff (p ++ more) l3 = refineAt cfg set flowtab flowCutoff p l3 := by
  have hrule : transportClass cfg p l3 ≠ 2 := by
    intro hnoise
    rcases refineAt_rules flowtab flowCutoff cfg set p l3 with h | h | h <;> omega
  have hsame := transportClass_append more h hrule
  rw [refineAt_rule _ _ hrule, refineAt_rule _ _ (by rwa [hsame]), hsame]

end Longer

/-! Whole packets. -/

/-- `classify_generic` asks the flow table `f` for `key`: its class and the table it leaves are
those of `flow_seen`. -/
def Consults (cfg : ClassCfg) (set : Option AddrSet) (f : FlowTab) (flowCutoff : UInt32)
    (p : Packet) (key : UInt64) : Prop :=
  classifyGeneric cfg (setPtr set) (some f) flowCutoff p.bytes p.caplen =
    .ok (if (flowSeen f key).1 < flowCutoff then 1 else 0, some (flowSeen f key).2)

/-- The verdicts of the generic profile on a shorter and on a longer capture. -/
def GenericKept (short long : Except Fault (Nat × Option FlowTab)) : Prop :=
  ∃ a b, short = .ok a ∧ long = .ok b ∧ (a.1 ≠ 0 → b.1 ≠ 0) ∧ (a.1 = 1 ∨ a.1 = 2 → b.1 = a.1)

/-- The verdicts of the security profile on a shorter and on a longer capture. -/
def RefineKept (short long : Except Fault (Nat × Option FlowTab)) : Prop :=
  ∃ a b, short = .ok a ∧ long = .ok b ∧ (a.1 ≠ 2 → b.1 ≠ 2) ∧
    (a.1 = 0 ∨ a.1 = 1 ∨ a.1 = 5 → b.1 = a.1)

section Captures
variable {cfg : ClassCfg} {set : Option AddrSet} {flowCutoff : UInt32} {p q : Packet} {more : Bytes}

theorem genericClass_longer {flowtab : Option FlowTab} (hq : q.bytes = p.bytes ++ more)
    (hcls : (genericClass cfg set flowtab flowCutoff p.bytes).1 ≠ 0) :
    genericClass cfg set flowtab flowCutoff q.bytes =
      genericClass cfg set flowtab flowCutoff p.bytes := by
  cases hhdr : header cfg.l2Off.toNat p.bytes with
  | none =>
    rw [genericClass_not_found hhdr] at hcls
    exact absurd rfl hcls
  | some l3 =>
    have hhdr' : header cfg.l2Off.toNat (p.bytes ++ more) = some l3 := headerFrom_append more hhdr
    rw [genericClass_found hhdr] at hcls
    rw [hq, genericClass_found hhdr, genericClass_found hhdr']
    exact genericAt_longer more (headerFrom_some hhdr).2.1 hcls

theorem genericClass_asked {f : FlowTab} (hq : q.bytes = p.bytes ++ more)
    (hasked : (genericClass cfg set (some f) flowCutoff p.bytes).2 ≠ some f) :
    genericClass cfg set (some f) flowCutoff q.bytes =
      genericClass cfg set (some f) flowCutoff p.bytes := by
  cases hhdr : header cfg.l2Off.toNat p.bytes with
  | none =>
    rw [genericClass_not_found hhdr] at hasked
    exact absurd rfl hasked
  | some l3 =>
    have hhdr' : header cfg.l2Off.toNat (p.bytes ++ more) = some l3 := headerFrom_append more hhdr
    rw [genericClass_found hhdr] at hasked
    rw [hq, genericClass_found hhdr, genericClass_found hhdr']
    exact genericAt_asked more (headerFrom_some hhdr).2.1 hasked

theorem refineClass_longer {flowtab : Option FlowTab} (hq : q.bytes = p.bytes ++ more) :
    ((refineClass cfg set flowtab flowCutoff p.bytes).1 ≠ 2 →
        (refineClass cfg set flowtab flowCutoff q.bytes).1 ≠ 2) ∧
      ((refineClass cfg set flowtab flowCutoff p.bytes).1 = 0 ∨
          (refineClass cfg set flowtab flowCutoff p.bytes).1 = 1 ∨
          (refineClass cfg set flowtab flowCutoff p.bytes).1 = 5 →
        (refineClass cfg set flowtab flowCutoff q.bytes).1 =
          (refineClass cfg set flowtab flowCutoff p.bytes).1) := by
  cases hhdr : header cfg.l2Off.toNat p.bytes with
  | none =>
    rw [refineClass_not_found hhdr]
    constructor
    · intro hcls
      exact absurd rfl hcls
    · intro hcls
      omega
  | some l3 =>
    have hhdr' : header cfg.l2Off.toNat (p.bytes ++ more) = some l3 := headerFrom_append more hhdr
    have hlen := (headerFrom_some hhdr).2.1
    rw [hq, refineClass_found hhdr, refineClass_found hhdr']
    constructor
    · exact refineAt_longer more hlen
    · intro hcls
      rw [refineAt_rule_longer more hlen hcls]

/-- Two keys asked for in one packet are the same. -/
theorem Consults.unique {f : FlowTab} {key key' : UInt64}
    (h : Consults cfg set f flowCutoff p key) (h' : Consults cfg set f flowCutoff p key') :
    key = key' := by
  rw [Consults, h', Except.ok.injEq, Prod.mk.injEq, Option.some_inj] at h
  exact flowSeen_key_injective h.2.symm

end Captures

/-- Capturing more of a packet never turns a class into OTHER. -/
theorem longer_capture_keeps_class (cfg : ClassCfg) (hoff : cfg.l2Off.toNat ≤ 64)
    (set : Option AddrSet) (flowtab : Option FlowTab) (flowCutoff : UInt32) (p : Packet) (n m : Nat)
    (hnm : n ≤ m) :
    GenericKept
        (classifyGeneric cfg (setPtr set) flowtab flowCutoff (p.truncate n).bytes
          (p.truncate n).caplen)
        (classifyGeneric cfg (setPtr set) flowtab flowCutoff (p.truncate m).bytes
          (p.truncate m).caplen) ∧
      RefineKept
        (classifyRefine cfg (setPtr set) flowtab flowCutoff (p.truncate n).bytes
          (p.truncate n).caplen)
        (classifyRefine cfg (setPtr set) flowtab flowCutoff (p.truncate m).bytes
          (p.truncate m).caplen) ∧
      ∀ f key, flowtab = some f → Consults cfg set f flowCutoff (p.truncate n) key →
        Consults cfg set f flowCutoff (p.truncate m) key := by
  obtain ⟨more, hmore⟩ := p.truncate_append hnm
  refine ⟨?_, ?_, ?_⟩
  · rw [classifyGeneric_eq cfg hoff, classifyGeneric_eq cfg hoff]
    refine ⟨_, _, rfl, rfl, ?_, ?_⟩
    · intro hcls
      rwa [genericClass_longer hmore hcls]
    · intro hcls
      rw [genericClass_longer hmore (by omega)]
  · rw [classifyRefine_eq cfg hoff, classifyRefine_eq cfg hoff]
    exact ⟨_, _, rfl, rfl, refineClass_longer hmore⟩
  · intro f key hf hkey
    rw [Consults, classifyGeneric_eq cfg hoff, Except.ok.injEq] at hkey ⊢
    rw [genericClass_asked hmore, hkey]
    rw [hkey]
    exact fun hsame => flowSeen_ne f key (Option.some.inj hsame)

/-- The ports of a packet cut behind them already name its flow. -/
theorem longer_capture_keeps_class_udp :
    GenericKept
        (classifyGeneric ⟨53, [], [], 14, 0⟩ none (flowtabBuild {} 4) 1 (udpPacket.truncate 38).bytes
          (udpPacket.truncate 38).caplen)
        (classifyGeneric ⟨53, [], [], 14, 0⟩ none (flowtabBuild {} 4) 1 (udpPacket.truncate 42).bytes
          (udpPacket.truncate 42).caplen) ∧
      RefineKept
        (classifyRefine ⟨53, [], [], 14, 0⟩ none (flowtabBuild {} 4) 1 (udpPacket.truncate 38).bytes
          (udpPacket.truncate 38).caplen)
        (classifyRefine ⟨53, [], [], 14, 0⟩ none (flowtabBuild {} 4) 1 (udpPacket.truncate 42).bytes
          (udpPacket.truncate 42).caplen) ∧
      ∀ f key, flowtabBuild {} 4 = some f →
        Consults ⟨53, [], [], 14, 0⟩ none f 1 (udpPacket.truncate 38) key →
        Consults ⟨53, [], [], 14, 0⟩ none f 1 (udpPacket.truncate 42) key :=
  longer_capture_keeps_class ⟨53, [], [], 14, 0⟩ (by decide) none (flowtabBuild {} 4) 1 udpPacket 38 42
    (by decide)

end PcapyNg
