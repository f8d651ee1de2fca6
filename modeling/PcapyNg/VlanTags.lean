import PcapyNg.PacketView

/-!
# VLAN tags in front of the IPv4 header

The header search looks at the version nibble before it looks at the TPID, so a tag
whose control word starts with 4 (priority 2, DEI clear) passes for an IPv4 header.
Every other tag is skipped, and skipping changes neither class nor flow table.
-/

namespace PcapyNg
set_option autoImplicit false

/-! What a classifier sees depends on the bytes from the header on, not on where they are. -/

/-- `q` from `l3'` on reads like `p` from `l3` on, and is captured as far. -/
structure SameFrom (p : Bytes) (l3 : Nat) (q : Bytes) (l3' : Nat) : Prop where
  byte : ∀ i, byteAt q (l3' + i) = byteAt p (l3 + i)
  captured : ∀ i, l3' + i ≤ q.length ↔ l3 + i ≤ p.length

section SameFrom
variable {p q : Bytes} {l3 l3' : Nat} (h : SameFrom p l3 q l3')
include h

theorem SameFrom.word (i : Nat) : wordAt q (l3' + i) = wordAt p (l3 + i) := by
  simp only [wordAt, Nat.add_assoc, h.byte]

theorem SameFrom.proto : protoAt q l3' = protoAt p l3 := h.byte 9

theorem SameFrom.ihl : ihlAt q l3' = ihlAt p l3 := by
  have h0 := h.byte 0
  rw [Nat.add_zero, Nat.add_zero] at h0
  simp only [ihlAt, h0]

theorem SameFrom.l4 : l4At q l3' = l3' + ihlAt p l3 := by
  rw [l4At, h.ihl]

theorem SameFrom.byte_l4 (i : Nat) : byteAt q (l4At q l3' + i) =
    byteAt p (l4At p l3 + i) := by
  rw [h.l4, l4At, Nat.add_assoc, Nat.add_assoc, h.byte]

theorem SameFrom.captured_l4 (i : Nat) :
    l4At q l3' + i ≤ q.length ↔ l4At p l3 + i ≤ p.length := by
  rw [h.l4, l4At, Nat.add_assoc, Nat.add_assoc, h.captured]

theorem SameFrom.ports : sportAt q l3' = sportAt p l3 ∧ dportAt q l3' = dportAt p l3 := by
  have h0 := h.byte_l4 0
  rw [Nat.add_zero, Nat.add_zero] at h0
  constructor
  · simp only [sportAt, portAt, h0, h.byte_l4]
  · simp only [dportAt, portAt, Nat.add_assoc, h.byte_l4]

theorem SameFrom.flow : flowAt q l3' = flowAt p l3 := by
  obtain ⟨hs, hd⟩ := h.ports
  simp only [flowAt, srcAt, dstAt, h.word, hs, hd, h.proto]

theorem SameFrom.addrMatch (set : Option AddrSet) : AddrMatch set q l3' ↔ AddrMatch set p l3 := by
  simp only [AddrMatch, srcAt, dstAt, h.word]

theorem SameFrom.hasPorts : HasPorts q l3' ↔ HasPorts p l3 := by
  simp only [HasPorts, h.proto, h.ihl, h.captured_l4]

theorem SameFrom.generic (set : Option AddrSet) (flowtab : Option FlowTab)
    (flowCutoff : UInt32) :
    genericAt set flowtab flowCutoff q l3' = genericAt set flowtab flowCutoff p l3 := by
  simp only [genericAt, h.addrMatch, h.hasPorts, h.flow]

theorem SameFrom.tcpHl : tcpHlAt q l3' = tcpHlAt p l3 := by
  simp only [tcpHlAt, h.byte_l4]

theorem SameFrom.http (cfg : ClassCfg) : IsHttp cfg q l3' ↔ IsHttp cfg p l3 := by
  obtain ⟨hs, hd⟩ := h.ports
  have hpay := h.captured_l4 (tcpHlAt p l3 + 1)
  simp only [← Nat.add_assoc, Nat.add_one_le_iff] at hpay
  simp only [IsHttp, h.tcpHl, hs, hd, hpay]

theorem SameFrom.transport (cfg : ClassCfg) :
    transportClass cfg q l3' = transportClass cfg p l3 := by
  obtain ⟨hs, hd⟩ := h.ports
  simp only [transportClass, h.hasPorts, IsDns, hs, hd, HasFlags, h.proto, h.captured_l4,
    IsSyn, h.byte_l4, h.http]

theorem SameFrom.refine (cfg : ClassCfg) (set : Option AddrSet) (flowtab : Option FlowTab)
    (flowCutoff : UInt32) :
    refineAt cfg set flowtab flowCutoff q l3' = refineAt cfg set flowtab flowCutoff p l3 := by
  obtain ⟨hs, hd⟩ := h.ports
  simp only [refineAt, h.transport, h.addrMatch, h.hasPorts, hs, hd, h.flow]

end SameFrom

/-! Tagged frames. -/

inductive Tpid where
  | dot1q
  | dot1ad
  deriving DecidableEq

structure VlanTag where
  tpid : Tpid
  tci : UInt16
  deriving DecidableEq

def VlanTag.bytes (t : VlanTag) : Bytes :=
  (match t.tpid with
    | .dot1q => [0x81, 0x00]
    | .dot1ad => [0x88, 0xa8]) ++ [(t.tci >>> 8).toUInt8, t.tci.toUInt8]

/-- Priority 2 with a clear DEI bit: the control word starts with the nibble 4. -/
def VlanTag.looksLikeIpv4 (t : VlanTag) : Bool := t.tci >>> 12 = 4

/-- An Ethernet frame with a captured IPv4 header: addresses, ethertype 0x0800, header. -/
structure Ipv4Frame where
  addrs : Bytes
  ip : Bytes
  addrs_length : addrs.length = 12
  ip_length : 20 ≤ ip.length
  version : byteAt ip 0 >>> 4 = 4

def Ipv4Frame.tagged (f : Ipv4Frame) (tags : List VlanTag) : Bytes :=
  f.addrs ++ tags.flatMap VlanTag.bytes ++ ([0x08, 0x00] ++ f.ip)

@[simp] theorem VlanTag.bytes_length (t : VlanTag) : t.bytes.length = 4 := by
  cases h : t.tpid <;> simp [VlanTag.bytes, h]

theorem tags_length (tags : List VlanTag) : (tags.flatMap VlanTag.bytes).length = 4 * tags.length := by
  induction tags with
  | nil => rfl
  | cons t tags ih =>
    rw [List.flatMap_cons, List.length_append, VlanTag.bytes_length, ih, List.length_cons]
    omega

theorem nibble_eq_iff (tci : UInt16) : (tci >>> 8).toUInt8 >>> 4 = 4 ↔ tci >>> 12 = 4 := by
  have hlt := tci.toNat_lt
  rw [← UInt8.toNat_inj, ← UInt16.toNat_inj, UInt8.toNat_shiftRight, UInt16.toNat_shiftRight,
    UInt16.toNat_toUInt8, UInt16.toNat_shiftRight]
  simp only [Nat.shiftRight_eq_div_pow]
  change tci.toNat / 2 ^ 8 % 2 ^ 8 / 2 ^ 4 = 4 ↔ tci.toNat / 2 ^ 12 = 4
  omega

theorem VlanTag.nibble_iff (t : VlanTag) :
    byteAt t.bytes 2 >>> 4 = 4 ↔ t.looksLikeIpv4 = true := by
  rw [VlanTag.looksLikeIpv4, decide_eq_true_iff, ← nibble_eq_iff]
  cases ht : t.tpid <;> simp [VlanTag.bytes, byteAt, ht]

section FirstTag
variable (pre ip : Bytes) (t : VlanTag) (tags : List VlanTag)

/-- The bytes of the first tag. -/
theorem byteAt_firstTag {i : Nat} (hi : i < 4) :
    byteAt (pre ++ List.flatMap VlanTag.bytes (t :: tags) ++ ([0x08, 0x00] ++ ip))
      (pre.length + i) = byteAt t.bytes i := by
  rw [List.append_assoc, byteAt_append_right, List.flatMap_cons, List.append_assoc,
    byteAt_append_left (by simpa using hi)]

theorem vlanTpidBefore_firstTag :
    vlanTpidBefore (pre ++ List.flatMap VlanTag.bytes (t :: tags) ++ ([0x08, 0x00] ++ ip))
      (pre.length + 2) = true := by
  have h0 := byteAt_firstTag pre ip t tags (by omega : 0 < 4)
  have h1 := byteAt_firstTag pre ip t tags (by omega : 1 < 4)
  rw [Nat.add_zero] at h0
  rw [vlanTpidBefore, Nat.add_sub_cancel, Nat.add_succ_sub_one, h0, h1]
  cases ht : t.tpid <;> simp [VlanTag.bytes, byteAt, ht]

end FirstTag

/-- With room for all tags the search stops at the first one that looks like IPv4, and behind
them all when there is none. -/
theorem headerFrom_tagged (pre ip : Bytes) (hip : 20 ≤ ip.length) (hv : byteAt ip 0 >>> 4 = 4)
    (tags : List VlanTag) (room : Nat) (hroom : tags.length ≤ room) :
    headerFrom (pre ++ tags.flatMap VlanTag.bytes ++ ([0x08, 0x00] ++ ip)) room (pre.length + 2) =
      some (pre.length + 2 + 4 * tags.findIdx VlanTag.looksLikeIpv4) := by
  induction tags generalizing pre room with
  | nil =>
    have hlen : ¬ (pre ++ List.flatMap VlanTag.bytes [] ++ ([0x08, 0x00] ++ ip)).length <
        pre.length + 2 + 20 := by
      simp
      omega
    have hbyte : byteAt (pre ++ List.flatMap VlanTag.bytes [] ++ ([0x08, 0x00] ++ ip))
        (pre.length + 2) = byteAt ip 0 := by
      rw [List.flatMap_nil, List.append_nil, byteAt_append_right]
      rfl
    exact headerFrom_found hlen (by rw [hbyte, hv])
  | cons t tags ih =>
    have hlen : ¬ (pre ++ List.flatMap VlanTag.bytes (t :: tags) ++ ([0x08, 0x00] ++ ip)).length <
        pre.length + 2 + 20 := by
      simp
      omega
    have hbyte := byteAt_firstTag pre ip t tags (by omega : 2 < 4)
    by_cases hfour : t.looksLikeIpv4 = true
    · rw [headerFrom_found hlen (by rw [hbyte, t.nibble_iff.mpr hfour]), List.findIdx_cons, hfour]
      rfl
    · obtain ⟨room, rfl⟩ : ∃ r, room = r + 1 := ⟨room - 1, by simp at hroom; omega⟩
      have hnext := ih (pre ++ t.bytes) room (by simpa using hroom)
      have hnot : ¬ byteAt (pre ++ List.flatMap VlanTag.bytes (t :: tags) ++ ([0x08, 0x00] ++ ip))
          (pre.length + 2) >>> 4 = 4 := by
        rw [hbyte, t.nibble_iff]
        exact hfour
      have hpre : pre ++ List.flatMap VlanTag.bytes (t :: tags) ++ ([0x08, 0x00] ++ ip) =
          (pre ++ t.bytes) ++ tags.flatMap VlanTag.bytes ++ ([0x08, 0x00] ++ ip) := by
        simp
      simp only [List.length_append, VlanTag.bytes_length] at hnext
      rw [headerFrom_skip hlen hnot (Nat.le_add_left 2 _) (vlanTpidBefore_firstTag pre ip t tags),
        hpre, (by omega : pre.length + 2 + 4 = pre.length + 4 + 2), hnext, List.findIdx_cons]
      simp [hfour]
      omega

theorem header_tagged (f : Ipv4Frame) (tags : List VlanTag) (htags : tags.length ≤ 2) :
    header 14 (f.tagged tags) = some (14 + 4 * tags.findIdx VlanTag.looksLikeIpv4) := by
  have h := headerFrom_tagged f.addrs f.ip f.ip_length f.version tags 2 htags
  rwa [f.addrs_length] at h

theorem sameFrom_tagged (f : Ipv4Frame) (tags : List VlanTag) :
    SameFrom (f.tagged []) 14 (f.tagged tags) (14 + 4 * tags.length) := by
  have hpre : ∀ ts : List VlanTag,
      (f.addrs ++ ts.flatMap VlanTag.bytes ++ [0x08, 0x00]).length = 14 + 4 * ts.length := by
    intro ts
    rw [List.length_append, List.length_append, f.addrs_length, tags_length]
    simp
    omega
  have hsplit : ∀ ts, f.tagged ts = (f.addrs ++ ts.flatMap VlanTag.bytes ++ [0x08, 0x00]) ++ f.ip := by
    intro ts
    simp [Ipv4Frame.tagged]
  have hbyte : ∀ ts i, byteAt (f.tagged ts) (14 + 4 * ts.length + i) = byteAt f.ip i := by
    intro ts i
    rw [hsplit, ← hpre, byteAt_append_right]
  have hlen : ∀ ts, (f.tagged ts).length = 14 + 4 * ts.length + f.ip.length := by
    intro ts
    rw [hsplit, List.length_append, hpre]
  constructor
  · intro i
    rw [hbyte, ← hbyte [] i]
    rfl
  · intro i
    rw [hlen, hlen, List.length_nil]
    omega

/-- Both header searches, started at 14, report the header at `k`. -/
def FindsHeaderAt (q : Packet) (k : Nat) : Prop :=
  locateIpv4 14 q.bytes q.caplen = .ok (some (UInt32.ofNat k)) ∧
    ∀ cfg : ClassCfg, cfg.l2Off = 14 → ∃ cls o, mtClassify cfg q.bytes q.caplen = .ok (cls, o) ∧
      o.ipv4 = true ∧ o.l3 = some (UInt32.ofNat k)

/-- Both classifiers give `q` the class and the flow-table update they give `p`. -/
def SameVerdict (p q : Packet) : Prop :=
  ∀ cfg : ClassCfg, cfg.l2Off = 14 → ∀ (set : Option AddrSet) (flowtab : Option FlowTab)
      (flowCutoff : UInt32),
    classifyGeneric cfg (setPtr set) flowtab flowCutoff q.bytes q.caplen =
        classifyGeneric cfg (setPtr set) flowtab flowCutoff p.bytes p.caplen ∧
      classifyRefine cfg (setPtr set) flowtab flowCutoff q.bytes q.caplen =
        classifyRefine cfg (setPtr set) flowtab flowCutoff p.bytes p.caplen

theorem findsHeaderAt_of_header {q : Packet} {k : Nat} (h : header 14 q.bytes = some k) :
    FindsHeaderAt q k := by
  have hl2 : (14 : UInt32).toNat = 14 := rfl
  have hoff : (14 : UInt32).toNat ≤ 64 := by decide
  rcases header_search q hoff with ⟨r, hloc, hsearch, hhdr, hr, hlen⟩ | ⟨_, _, hhdr⟩
  · have hk : r = UInt32.ofNat k := by
      rw [hl2, h] at hhdr
      rw [Option.some.inj hhdr, UInt32.ofNat_toNat]
    subst hk
    refine ⟨hloc, ?_⟩
    intro cfg hcfg
    obtain ⟨o, hmt, hipv4, hl3, _⟩ := mtClassify_some cfg (hcfg ▸ hsearch) hr hlen
    exact ⟨_, o, hmt, hipv4, hl3⟩
  · rw [hl2, h] at hhdr
    cases hhdr

theorem sameVerdict_of_sameFrom {p q : Packet} {k k' : Nat} (hp : header 14 p.bytes = some k)
    (hq : header 14 q.bytes = some k') (h : SameFrom p.bytes k q.bytes k') : SameVerdict p q := by
  intro cfg hcfg set flowtab flowCutoff
  have hoff : cfg.l2Off.toNat ≤ 64 := by rw [hcfg]; decide
  have h14 : cfg.l2Off.toNat = 14 := by rw [hcfg]; rfl
  rw [classifyGeneric_eq cfg hoff, classifyGeneric_eq cfg hoff, classifyRefine_eq cfg hoff,
    classifyRefine_eq cfg hoff, genericClass, genericClass, refineClass, refineClass, h14, hp, hq]
  exact ⟨congrArg _ (h.generic set flowtab flowCutoff),
    congrArg _ (h.refine cfg set flowtab flowCutoff)⟩

/-- One or two tags are transparent exactly when none of their control words starts with the
nibble 4. -/
theorem vlan_transparent_iff (f : Ipv4Frame) (tags : List VlanTag)
    (htags : tags.length = 1 ∨ tags.length = 2) (p q : Packet) (hp : p.bytes = f.tagged [])
    (hq : q.bytes = f.tagged tags) :
    FindsHeaderAt q (14 + 4 * tags.length) ∧ SameVerdict p q ↔
      ∀ t ∈ tags, t.tci >>> 12 ≠ 4 := by
  have hheader : header 14 q.bytes = some (14 + 4 * tags.findIdx VlanTag.looksLikeIpv4) := by
    rw [hq]
    exact header_tagged f tags (by omega)
  have hall : tags.findIdx VlanTag.looksLikeIpv4 = tags.length ↔ ∀ t ∈ tags, t.tci >>> 12 ≠ 4 := by
    rw [List.findIdx_eq_length]
    simp [VlanTag.looksLikeIpv4]
  rw [← hall]
  constructor
  · intro h
    rcases h with ⟨hfinds, _⟩
    have hfound := (findsHeaderAt_of_header hheader).1
    rw [hfinds.1] at hfound
    have hword := congrArg UInt32.toNat (Option.some.inj (Except.ok.inj hfound))
    have hle : tags.findIdx VlanTag.looksLikeIpv4 ≤ tags.length := List.findIdx_le_length
    rw [UInt32.toNat_ofNat', UInt32.toNat_ofNat'] at hword
    omega
  · intro hidx
    rw [hidx] at hheader
    refine ⟨findsHeaderAt_of_header hheader, ?_⟩
    have hplain : header 14 p.bytes = some 14 := by
      rw [hp, header_tagged f [] (by simp)]
      rfl
    exact sameVerdict_of_sameFrom hplain hheader (hp ▸ hq ▸ sameFrom_tagged f tags)

/-- A 20-byte header of a UDP packet from 10.0.0.1 port 1000 to 10.0.0.2 port 2000. -/
def udpFrame : Ipv4Frame where
  addrs := [0, 0, 0, 0, 0, 2, 0, 0, 0, 0, 0, 1]
  ip := [0x45, 0, 0, 28, 0, 0, 0, 0, 64, 17, 0, 0, 10, 0, 0, 1, 10, 0, 0, 2,
    0x03, 0xe8, 0x07, 0xd0, 0, 8, 0, 0]
  addrs_length := rfl
  ip_length := by decide
  version := by decide

theorem vlan_transparent_iff_qinq :
    FindsHeaderAt ⟨udpFrame.tagged [⟨.dot1ad, 0x0064⟩, ⟨.dot1q, 0xe00a⟩], by decide⟩ 22 ∧
      SameVerdict ⟨udpFrame.tagged [], by decide⟩
        ⟨udpFrame.tagged [⟨.dot1ad, 0x0064⟩, ⟨.dot1q, 0xe00a⟩], by decide⟩ :=
  (vlan_transparent_iff udpFrame [⟨.dot1ad, 0x0064⟩, ⟨.dot1q, 0xe00a⟩] (Or.inr rfl) _ _ rfl rfl).mpr
    (by decide)

/-- VLAN 100 with priority 2: the search stops at the tag itself, and the head of the flow is lost. -/
theorem vlan_priority_two_hides_header :
    ¬ FindsHeaderAt ⟨udpFrame.tagged [⟨.dot1q, 0x4064⟩], by decide⟩ 18 ∧
      ¬ SameVerdict ⟨udpFrame.tagged [], by decide⟩
        ⟨udpFrame.tagged [⟨.dot1q, 0x4064⟩], by decide⟩ := by
  constructor
  · intro h
    exact absurd h.1 (by decide)
  · intro h
    have hgen := (h ⟨53, [], [], 14, 0⟩ rfl none (flowtabBuild {} 4) 1).1
    exact absurd (congrArg (Except.map Prod.fst) hgen) (by decide)

end PcapyNg
