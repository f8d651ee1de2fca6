import PcapyNg.Datagram
import PcapyNg.LoopSetup

/-!
# The security profile on well-formed packets

The six classes as priority rules over the fields of a packet, and that `classify_refine`
computes them from the bytes.
-/

namespace PcapyNg
set_option autoImplicit false

/-- A link header, an IP header and what it carries, captured to the end. -/
structure WirePacket where
  link : Bytes
  ip : Ipv4Header
  body : Transport
  small : (link ++ ipv4Bytes ip body).length < 2 ^ 32

def WirePacket.packet (p : WirePacket) : Packet := ⟨p.link ++ ipv4Bytes p.ip p.body, p.small⟩

namespace Transport

def ports : Transport → Option (UInt16 × UInt16)
  | .tcp h _ => some (h.sport, h.dport)
  | .udp h _ => some (h.sport, h.dport)
  | .other .. => none

/-- Source or destination port is one of `list`. -/
def onPort (t : Transport) (list : List UInt16) : Bool :=
  match t.ports with
  | some (s, d) => s ∈ list || d ∈ list
  | none => false

def bareSyn : Transport → Bool
  | .tcp h _ => h.flags = 0x02
  | _ => false

def bearsPayload : Transport → Bool
  | .tcp _ payload => payload ≠ []
  | _ => false

end Transport

/-- How many packets of the flow the table has counted. -/
def FlowTab.seen (f : FlowTab) (key : UInt64) : UInt32 :=
  if f.keys (f.slot key) = key then f.cnt (f.slot key) else 0

/-- The last rule, the only one that counts. -/
def handshakeRule (cfg : ClassCfg) (flowtab : Option FlowTab) (flowCutoff : UInt32)
    (p : WirePacket) : Nat × Option FlowTab :=
  match flowtab, p.body.ports with
  | some f, some (s, d) =>
    if p.body.onPort cfg.tlsPorts then
      let key := Flow.key ⟨p.ip.src, p.ip.dst, s, d, p.body.proto⟩
      (if f.seen key < flowCutoff then 4 else 2, some (flowSeen f key).2)
    else (2, some f)
  | flowtab, _ => (2, flowtab)

def securityClass (cfg : ClassCfg) (addrs : List UInt32) (flowtab : Option FlowTab)
    (flowCutoff : UInt32) (p : WirePacket) : Nat × Option FlowTab :=
  if p.body.onPort [cfg.dnsPort] then (0, flowtab)
  else if p.body.bareSyn then (5, flowtab)
  else if p.body.bearsPayload ∧ p.body.onPort cfg.dpiPorts then (1, flowtab)
  else if p.ip.src ∈ addrs ∨ p.ip.dst ∈ addrs then (3, flowtab)
  else handshakeRule cfg flowtab flowCutoff p

/-! The rules on the bytes. -/

theorem flowSeen_fst (f : FlowTab) (key : UInt64) : (flowSeen f key).1 = f.seen key := by
  have hslot : key.toUInt32 &&& f.mask = f.slot key := rfl
  simp only [flowSeen, hslot, FlowTab.seen]
  by_cases hkey : f.keys (f.slot key) = key
  · simp [hkey]
  · simp [hkey]

section Body
variable (cfg : ClassCfg) (h : Ipv4Header) (t : Transport)

theorem hasPorts_wire : HasPorts (ipv4Bytes h t) 0 ↔ t.ports.isSome = true := by
  have hcap := ipv4_captured h t 4
  rw [HasPorts, ipv4_proto, ipv4_ihl, hcap]
  cases t with
  | tcp u payload =>
    rw [tcp_length]
    exact iff_of_true ⟨Or.inl rfl, by omega, by omega⟩ rfl
  | udp u payload =>
    rw [udp_length]
    exact iff_of_true ⟨Or.inr rfl, by omega, by omega⟩ rfl
  | other proto hproto payload =>
    exact iff_of_false (fun hp => hp.1.elim hproto.1 hproto.2) Bool.false_ne_true

theorem ports_wire {s d : UInt16} (hports : t.ports = some (s, d)) :
    sportAt (ipv4Bytes h t) 0 = s ∧ dportAt (ipv4Bytes h t) 0 = d := by
  obtain ⟨hs, hd⟩ := ipv4_ports h t
  rw [hs, hd]
  cases t with
  | tcp u payload =>
    cases hports
    exact tcp_ports u payload
  | udp u payload =>
    cases hports
    exact udp_ports u payload
  | other => cases hports

theorem any_port_iff (list : List UInt16) (s d : UInt16) :
    (list.any fun port => s = port || d = port) = (s ∈ list || d ∈ list) := by
  rw [Bool.eq_iff_iff]
  simp only [List.any_eq_true, Bool.or_eq_true, decide_eq_true_eq]
  constructor
  · rintro ⟨port, hport, rfl | rfl⟩
    · exact Or.inl hport
    · exact Or.inr hport
  · rintro (hs | hd)
    · exact ⟨s, hs, Or.inl rfl⟩
    · exact ⟨d, hd, Or.inr rfl⟩

theorem onPort_of_ports {t : Transport} {s d : UInt16} (hports : t.ports = some (s, d))
    (list : List UInt16) :
    t.onPort list = list.any fun port => s = port || d = port := by
  rw [Transport.onPort, hports, any_port_iff]

theorem isDns_wire {t : Transport} {s d : UInt16} (hports : t.ports = some (s, d)) :
    IsDns cfg (ipv4Bytes h t) 0 ↔ t.onPort [cfg.dnsPort] = true := by
  obtain ⟨hs, hd⟩ := ports_wire h t hports
  rw [IsDns, hs, hd, Transport.onPort, hports]
  simp

theorem hasFlags_wire (u : TcpHeader) (payload : Bytes) :
    HasFlags (ipv4Bytes h (.tcp u payload)) 0 := by
  refine ⟨rfl, ?_⟩
  rw [ipv4_captured, tcp_length]
  omega

theorem isSyn_wire (u : TcpHeader) (payload : Bytes) :
    IsSyn (ipv4Bytes h (.tcp u payload)) 0 ↔ (Transport.tcp u payload).bareSyn = true := by
  rw [IsSyn, ipv4_transport, tcp_flags, Transport.bareSyn, decide_eq_true_eq]

theorem isHttp_wire (u : TcpHeader) (payload : Bytes) :
    IsHttp cfg (ipv4Bytes h (.tcp u payload)) 0 ↔
      (Transport.tcp u payload).bearsPayload = true ∧
        (Transport.tcp u payload).onPort cfg.dpiPorts = true := by
  have hports : (Transport.tcp u payload).ports = some (u.sport, u.dport) := rfl
  obtain ⟨hs, hd⟩ := ports_wire h _ hports
  have hhl : tcpHlAt (ipv4Bytes h (.tcp u payload)) 0 = 20 + u.options.bytes.length := by
    rw [tcpHlAt, ipv4_transport, tcp_offset]
  have hpay : l4At (ipv4Bytes h (.tcp u payload)) 0 + (20 + u.options.bytes.length) <
      (ipv4Bytes h (.tcp u payload)).length ↔ payload ≠ [] := by
    rw [← Nat.add_one_le_iff, Nat.add_assoc, ipv4_captured, tcp_length, ← List.length_pos_iff]
    omega
  rw [IsHttp, hhl, hpay, hs, hd, onPort_of_ports hports, Transport.bearsPayload, decide_eq_true_eq]
  constructor
  · exact fun hp => hp.2
  · exact fun hp => ⟨by omega, hp⟩

theorem transportClass_wire :
    transportClass cfg (ipv4Bytes h t) 0 =
      if t.onPort [cfg.dnsPort] then 0
      else if t.bareSyn then 5
      else if t.bearsPayload ∧ t.onPort cfg.dpiPorts then 1 else 2 := by
  have hports := hasPorts_wire h t
  cases t with
  | other proto hproto payload =>
    have hno : ¬ HasPorts (ipv4Bytes h (.other proto hproto payload)) 0 := fun hp => by
      cases hports.mp hp
    rw [transportClass, if_neg hno]
    rfl
  | udp u payload =>
    have hflags : ¬ HasFlags (ipv4Bytes h (.udp u payload)) 0 := by
      intro hf
      cases hf.1
    rw [transportClass, if_pos (hports.mpr rfl), if_neg hflags]
    simp only [isDns_wire cfg h (t := .udp u payload) rfl]
    rfl
  | tcp u payload =>
    rw [transportClass, if_pos (hports.mpr rfl), if_pos (hasFlags_wire h u payload)]
    simp only [isDns_wire cfg h (t := .tcp u payload) rfl, isSyn_wire, isHttp_wire]

theorem flowAt_wire {t : Transport} {s d : UInt16} (hports : t.ports = some (s, d)) :
    flowAt (ipv4Bytes h t) 0 = ⟨h.src, h.dst, s, d, t.proto⟩ := by
  obtain ⟨hs, hd⟩ := ports_wire h t hports
  rw [flowAt, ipv4_src, ipv4_dst, hs, hd, ipv4_proto]

theorem addrMatch_wire {addrs : List UInt32} {set : Option AddrSet}
    (hset : ∀ ip, SetMem set ip ↔ ip ∈ addrs) :
    AddrMatch set (ipv4Bytes h t) 0 ↔ h.src ∈ addrs ∨ h.dst ∈ addrs := by
  rw [AddrMatch, ipv4_src, ipv4_dst, hset, hset]

end Body

/-- What stands behind the link header is read as if it stood alone. -/
theorem sameFrom_link (link ip : Bytes) : SameFrom ip 0 (link ++ ip) link.length where
  byte i := by
    rw [Nat.zero_add]
    exact byteAt_append_right link ip i
  captured i := by
    rw [List.length_append]
    omega

theorem header_wire (p : WirePacket) :
    header p.link.length p.packet.bytes = some p.link.length := by
  have hlen : ¬ p.packet.bytes.length < p.link.length + 20 := by
    rw [WirePacket.packet, List.length_append, ipv4_length]
    omega
  apply headerFrom_found hlen
  have h0 := byteAt_append_right p.link (ipv4Bytes p.ip p.body) 0
  rw [Nat.add_zero] at h0
  rw [WirePacket.packet, h0]
  exact ipv4_version p.ip p.body

/-- The last rule: a table, ports, and one of them watched. -/
theorem handshake_wire (cfg : ClassCfg) (flowtab : Option FlowTab) (flowCutoff : UInt32)
    (p : WirePacket) :
    (match flowtab with
      | none => (2, none)
      | some f =>
        if HasPorts (ipv4Bytes p.ip p.body) 0 ∧
            mtIsTlsPort cfg (sportAt (ipv4Bytes p.ip p.body) 0) (dportAt (ipv4Bytes p.ip p.body) 0) then
          (if (flowSeen f (flowAt (ipv4Bytes p.ip p.body) 0).key).1 < flowCutoff then 4 else 2,
            some (flowSeen f (flowAt (ipv4Bytes p.ip p.body) 0).key).2)
        else (2, some f)) = handshakeRule cfg flowtab flowCutoff p := by
  unfold handshakeRule
  cases flowtab with
  | none => rfl
  | some f =>
    cases hports : p.body.ports with
    | none =>
      have hno : ¬ HasPorts (ipv4Bytes p.ip p.body) 0 := by
        rw [hasPorts_wire, hports]
        nofun
      simp only [hno, false_and, if_false]
    | some sd =>
      rcases sd with ⟨s, d⟩
      obtain ⟨hs, hd⟩ := ports_wire p.ip p.body hports
      have hyes : HasPorts (ipv4Bytes p.ip p.body) 0 := by
        rw [hasPorts_wire, hports]
        rfl
      have htls : mtIsTlsPort cfg s d = p.body.onPort cfg.tlsPorts :=
        (onPort_of_ports hports cfg.tlsPorts).symm
      simp only [hyes, hs, hd, htls, true_and, flowAt_wire p.ip hports, flowSeen_fst]

theorem refineAt_wire (cfg : ClassCfg) {addrs : List UInt32} {set : Option AddrSet}
    (hset : ∀ ip, SetMem set ip ↔ ip ∈ addrs) (flowtab : Option FlowTab) (flowCutoff : UInt32)
    (p : WirePacket) :
    refineAt cfg set flowtab flowCutoff (ipv4Bytes p.ip p.body) 0 =
      securityClass cfg addrs flowtab flowCutoff p := by
  have htrans := transportClass_wire cfg p.ip p.body
  have haddr := addrMatch_wire p.ip p.body hset
  unfold securityClass refineAt
  by_cases hdns : p.body.onPort [cfg.dnsPort] = true
  · rw [if_pos hdns] at htrans
    rw [htrans, if_pos hdns, if_pos (by decide)]
  rw [if_neg hdns] at htrans
  rw [if_neg hdns]
  by_cases hsyn : p.body.bareSyn = true
  · rw [if_pos hsyn] at htrans
    rw [htrans, if_pos hsyn, if_pos (by decide)]
  rw [if_neg hsyn] at htrans
  rw [if_neg hsyn]
  by_cases hhttp : p.body.bearsPayload = true ∧ p.body.onPort cfg.dpiPorts = true
  · rw [if_pos hhttp] at htrans
    rw [htrans, if_pos hhttp, if_pos (by decide)]
  rw [if_neg hhttp] at htrans
  rw [htrans, if_neg hhttp, if_neg (by decide)]
  by_cases hm : p.ip.src ∈ addrs ∨ p.ip.dst ∈ addrs
  · rw [if_pos (haddr.mpr hm), if_pos hm]
  rw [if_neg (fun h => hm (haddr.mp h)), if_neg hm]
  exact handshake_wire cfg flowtab flowCutoff p

/-- On a well-formed packet `classify_refine` computes the priority rules, and counts in the last
one only. -/
theorem security_class_of_wire (cfg : ClassCfg) (hoff : cfg.l2Off.toNat ≤ 64) (addrs : List UInt32)
    (set : Option AddrSet) (hset : ∀ ip, SetMem set ip ↔ ip ∈ addrs) (flowtab : Option FlowTab)
    (flowCutoff : UInt32) (p : WirePacket) (hlink : p.link.length = cfg.l2Off.toNat) :
    classifyRefine cfg (setPtr set) flowtab flowCutoff p.packet.bytes p.packet.caplen =
      .ok (securityClass cfg addrs flowtab flowCutoff p) := by
  have hhdr : header cfg.l2Off.toNat p.packet.bytes = some p.link.length := by
    rw [← hlink]
    exact header_wire p
  rw [classifyRefine_eq cfg hoff, refineClass_found hhdr]
  have hsame := (sameFrom_link p.link (ipv4Bytes p.ip p.body)).refine cfg set flowtab flowCutoff
  rw [← refineAt_wire cfg hset flowtab flowCutoff p, ← hsame]
  rfl

theorem packed_length (addrs : List UInt32) : (addrs.flatMap bytesLE).length = 4 * addrs.length := by
  induction addrs with
  | nil => rfl
  | cons a addrs ih =>
    rw [List.flatMap_cons, List.length_append, bytesLE_length, ih, List.length_cons]
    omega

theorem packedWords_flatMap (addrs : List UInt32) : packedWords (addrs.flatMap bytesLE) = addrs := by
  apply List.ext_getElem
  · rw [packedWords, List.length_map, List.length_range, packed_length]
    omega
  intro i hi hi'
  have hsplit : addrs.flatMap bytesLE = (addrs.take i).flatMap bytesLE ++
      (bytesLE addrs[i] ++ (addrs.drop (i + 1)).flatMap bytesLE) := by
    rw [← List.flatMap_cons, ← List.flatMap_append, List.cons_getElem_drop_succ,
      List.take_append_drop]
  have hpre : ((addrs.take i).flatMap bytesLE).length = 4 * i := by
    rw [packed_length, List.length_take]
    omega
  simp only [packedWords, List.getElem_map, List.getElem_range]
  rw [hsplit, ← hpre]
  exact wordAt_bytesLE _ _ _

/-- Every list of addresses is a set that `ipset_build` makes of their bytes. -/
theorem addrSet_of_list (addrs : List UInt32) (hne : ∀ ip ∈ addrs, ip ≠ 0)
    (hsmall : addrs.length ≤ 2 ^ 30) :
    ∃ set : Option AddrSet, buildIoc {} (some (addrs.flatMap bytesLE)) = .ok (setPtr set) ∧
      ∀ ip, SetMem set ip ↔ ip ∈ addrs := by
  have hlen := packed_length addrs
  rw [buildIoc]
  by_cases hempty : 4 ≤ (addrs.flatMap bytesLE).length
  · obtain ⟨s, hs, hmem⟩ := ipsetBuild_spec (addrs.flatMap bytesLE) (by omega)
    rw [if_pos hempty]
    refine ⟨some s, hs, ?_⟩
    intro ip
    rw [setMem_some, hmem, packedWords_flatMap]
    exact ⟨fun h => h.2, fun h => ⟨hne ip h, h⟩⟩
  · have hnil : addrs = [] := List.length_eq_zero_iff.mp (by omega)
    rw [if_neg hempty, hnil]
    refine ⟨none, rfl, ?_⟩
    intro ip
    exact iff_of_false (fun ⟨_, h, _⟩ => nomatch h) List.not_mem_nil

/-- An ICMP packet from 10.0.0.1 with one word of IP options, on Ethernet. -/
def icmpPacket : WirePacket where
  link := List.replicate 14 0
  ip := ⟨0, 7, true, 64, 0, 0x0100000a, 0x0200000a, ⟨[1, 1, 1, 0], 1, rfl, by decide⟩⟩
  body := .other 1 (by decide) [8, 0, 0, 0]
  small := by decide

theorem security_class_of_wire_icmp : ∃ ioc, buildIoc {} (some [10, 0, 0, 1]) = .ok ioc ∧
    classifyRefine ⟨53, [80], [443], 14, 1⟩ ioc none 0 icmpPacket.packet.bytes
      icmpPacket.packet.caplen = .ok (3, none) := by
  obtain ⟨set, hbuild, hset⟩ := addrSet_of_list [0x0100000a] (by simp) Nat.one_le_two_pow
  refine ⟨setPtr set, hbuild, ?_⟩
  rw [security_class_of_wire ⟨53, [80], [443], 14, 1⟩ (by decide) [0x0100000a] set hset none 0
    icmpPacket (by decide)]
  rfl

end PcapyNg
