import PcapyNg.ClientHello
import PcapyNg.EqualHeads
import PcapyNg.Library.CarryFold

/-!
# The benchmark's capture and its manifest

The generator writes Ethernet frames from flows and random choices, and keeps count of what it
writes. Every IPv4 header it writes carries a checksum that verifies, the header search and
`parse_ipv4` find the same header in every frame, and the counts of the manifest are those of the
runs that the benchmark checks against it.
-/

namespace PcapyNg
open ReadLoop CarryFold
set_option autoImplicit false

/-- `int2bytes` -/
def int2bytes (v : UInt32) : Bytes := (bytesLE v).reverse

/-- `struct.unpack('!%dH')` of the data, a zero byte appended if their number is odd. -/
def wordsBE : Bytes → List Nat
  | [] => []
  | [a] => [a.toNat <<< 8]
  | a :: b :: rest => (a.toNat <<< 8 ||| b.toNat) :: wordsBE rest

def checksum (data : Bytes) : UInt16 := UInt16.ofNat (complement (2 ^ 16) (wordsBE data).sum)

namespace GenPcap

def eth (ethertype : UInt16) (vlan : Bool) : Bytes :=
  let hdr := [0x02, 0, 0, 0, 0, 0x01] ++ [0x02, 0, 0, 0, 0, 0x02]
  if vlan then hdr ++ (bytesBE ethPVlan ++ (bytesBE 0x0064 ++ bytesBE ethertype))
  else hdr ++ bytesBE ethertype

/-- `struct.pack('!BBHHHBBH4s4s', 0x45, 0, total, 0x1234, 0x4000, 64, proto, sum, ..)` -/
def ipv4Header (total : UInt16) (proto : UInt8) (sum : UInt16) (src dst : UInt32) : Bytes :=
  0x45 :: 0 :: (bytesBE total ++ (bytesBE 0x1234 ++ (bytesBE 0x4000 ++
    (64 :: proto :: (bytesBE sum ++ (int2bytes src ++ int2bytes dst))))))

/-- The header of `ipv4`, its checksum in place of the zero. -/
def ipv4Hdr (proto : UInt8) (src dst : UInt32) (payload : Bytes) : Bytes :=
  let hdr := ipv4Header (UInt16.ofNat (20 + payload.length)) proto 0 src dst
  hdr.take 10 ++ (bytesBE (checksum hdr) ++ hdr.drop 12)

def ipv4 (proto : UInt8) (src dst : UInt32) (payload : Bytes) : Bytes :=
  ipv4Hdr proto src dst payload ++ payload

def tcp (sport dport : UInt16) (flags : UInt8) (payload : Bytes) (seq : UInt32) : Bytes :=
  bytesBE sport ++ (bytesBE dport ++ (int2bytes seq ++ (int2bytes 0 ++
    (0x50 :: flags :: (bytesBE 8192 ++ (bytesBE 0 ++ (bytesBE 0 ++ payload)))))))

def udp (sport dport : UInt16) (payload : Bytes) : Bytes :=
  bytesBE sport ++ (bytesBE dport ++ (bytesBE (UInt16.ofNat (8 + payload.length)) ++
    (bytesBE 0 ++ payload)))

def icmp (payload : Bytes) : Bytes := 8 :: 0 :: (bytesBE 0 ++ (bytesBE 1 ++ (bytesBE 1 ++ payload)))

/-- What is drawn for an IPv6 packet. -/
structure Ipv6Draw where
  src : Bytes
  dst : Bytes
  payloadLen : Nat
  src_length : src.length = 16
  dst_length : dst.length = 16
  small : payloadLen < 200

def ipv6Packet (d : Ipv6Draw) : Bytes :=
  int2bytes 0x60000000 ++ (bytesBE (UInt16.ofNat d.payloadLen) ++ (17 :: 64 ::
    (d.src ++ (d.dst ++ List.replicate d.payloadLen 0))))

inductive Proto where
  | tcp
  | udp
  | icmp
  deriving DecidableEq

def Proto.number : Proto → UInt8
  | .tcp => 6
  | .udp => 17
  | .icmp => 1

/-- A flow as `build_flows` makes it: a host in 10/8, one outside of it, ports 0 for ICMP. -/
structure GenFlow where
  internal : UInt32
  external : UInt32
  proto : Proto
  sport : UInt16
  dport : UInt16
  internal_private : internal >>> 24 = 10
  external_public : external >>> 24 ≠ 10

/-- One round of the loop in `generate`: the flow, how often it was emitted before, and what is
drawn. A flow has fewer than 700 packets. -/
structure Round where
  flow : GenFlow
  index : Nat
  vlan : Bool
  ipv6 : Option Ipv6Draw
  plen : Nat
  index_lt : index < 700
  plen_le : plen ≤ 1400

namespace Round
variable (g : Round)

def outbound : Bool := g.index % 2 = 0
def src : UInt32 := if g.outbound then g.flow.internal else g.flow.external
def dst : UInt32 := if g.outbound then g.flow.external else g.flow.internal
def sport : UInt16 := if g.outbound then g.flow.sport else g.flow.dport
def dport : UInt16 := if g.outbound then g.flow.dport else g.flow.sport
def payload : Bytes := List.replicate g.plen 0

def flags : UInt8 :=
  if g.index = 0 then 0x02 else if g.index = 1 then 0x12 else if g.plen ≠ 0 then 0x18 else 0x10

def l4 : Bytes :=
  match g.flow.proto with
  | .tcp => tcp g.sport g.dport g.flags g.payload (UInt32.ofNat (g.index + 1))
  | .udp => udp g.sport g.dport g.payload
  | .icmp => icmp g.payload

def frame : Bytes :=
  match g.ipv6 with
  | some d => eth 0x86dd g.vlan ++ ipv6Packet d
  | none => eth ethPIp g.vlan ++ ipv4 g.flow.proto.number g.src g.dst g.l4

/-- The key of `flow_seen`. -/
def key : Flow := ⟨g.src, g.dst, g.sport, g.dport, g.flow.proto.number⟩

/-- The key under which the round is counted, if it is. -/
def tracked : Option Flow :=
  if g.ipv6.isNone ∧ (g.flow.proto.number = 6 ∨ g.flow.proto.number = 17) then some g.key else none

end Round

/-- `ext_counts`, `flow_seen` and `head_counts` for every cutoff. -/
structure Counts where
  extCounts : UInt32 → Nat
  flowSeen : Flow → Nat
  headCounts : Nat → Nat

/-- What a round adds to the counts; IPv6 packets are not counted. -/
def Counts.add (c : Counts) (g : Round) : Counts :=
  match g.ipv6 with
  | some _ => c
  | none =>
    let ext := Function.update c.extCounts g.flow.external (c.extCounts g.flow.external + 1)
    if g.flow.proto.number = 6 ∨ g.flow.proto.number = 17 then
      let seen := c.flowSeen g.key + 1
      ⟨ext, Function.update c.flowSeen g.key seen,
        fun cutoff => if seen ≤ cutoff then c.headCounts cutoff + 1 else c.headCounts cutoff⟩
    else { c with extCounts := ext }

def counts (gs : List Round) : Counts := gs.foldl Counts.add ⟨fun _ => 0, fun _ => 0, fun _ => 0⟩

/-- `expected_matches` of a set of these addresses. -/
def expectedMatches (c : Counts) (ips : List UInt32) : Nat := (ips.map c.extCounts).sum

/-! The header and its checksum. -/

section Header
variable (proto : UInt8) (src dst : UInt32) (payload : Bytes)

theorem ipv4Hdr_eq : ipv4Hdr proto src dst payload =
    ipv4Header (UInt16.ofNat (20 + payload.length)) proto
      (checksum (ipv4Header (UInt16.ofNat (20 + payload.length)) proto 0 src dst)) src dst := rfl

/-- The checksum word is one of the summands. -/
theorem sum_ipv4Header (total sum : UInt16) :
    (wordsBE (ipv4Header total proto sum src dst)).sum =
      (wordsBE (ipv4Header total proto 0 src dst)).sum + sum.toNat := by
  have hword : (sum >>> 8).toUInt8.toNat <<< 8 ||| sum.toUInt8.toNat = sum.toNat :=
    toNat_or_bytesBE sum
  have hzero : ((0 : UInt16) >>> 8).toUInt8.toNat <<< 8 ||| (0 : UInt16).toUInt8.toNat = 0 := rfl
  simp only [ipv4Header, bytesBE, int2bytes, bytesLE, List.reverse_cons, List.reverse_nil,
    List.nil_append, List.cons_append, wordsBE, List.sum_cons, hword, hzero]
  omega

/-- Every header that is written passes the test of its checksum. -/
theorem checksum_ipv4Hdr : checksum (ipv4Hdr proto src dst payload) = 0 := by
  have hbase : 2 ≤ 2 ^ 16 := by decide
  have hfold := foldCarry_add_complement hbase
    (wordsBE (ipv4Header (UInt16.ofNat (20 + payload.length)) proto 0 src dst)).sum
  have hsmall : complement (2 ^ 16)
      (wordsBE (ipv4Header (UInt16.ofNat (20 + payload.length)) proto 0 src dst)).sum < 2 ^ 16 := by
    rw [complement]
    omega
  have hword : (checksum (ipv4Header (UInt16.ofNat (20 + payload.length)) proto 0 src dst)).toNat =
      _ := UInt16.toNat_ofNat_of_lt' hsmall
  rw [ipv4Hdr_eq, checksum, sum_ipv4Header, hword, complement, hfold, Nat.sub_self]
  rfl

end Header

/-! The frames. -/

section Packet
variable (src dst : UInt32) (l4 : Bytes)

theorem ipv4_length (proto : UInt8) : (ipv4 proto src dst l4).length = 20 + l4.length := by
  rw [ipv4, List.length_append, ipv4Hdr_eq]
  rfl

theorem ipv4_begins (proto : UInt8) : Ipv4Begins (ipv4 proto src dst l4) := by
  have hlen := ipv4_length src dst l4 proto
  have hfirst : byteAt (ipv4 proto src dst l4) 0 = 0x45 := rfl
  have hihl : ((0x45 : UInt8) &&& 0x0f).toNat * 4 = 20 := rfl
  refine ⟨by omega, ?_, ?_, ?_⟩
  · rw [hfirst]
    rfl
  · rw [hfirst, hihl]
  · rw [hfirst, hihl]
    omega

theorem wordBE_int2bytes (pre : Bytes) (v : UInt32) (post : Bytes) :
    wordBE (pre ++ (int2bytes v ++ post)) pre.length = v := by
  have hbytes : int2bytes v = bytesLE (swap32 v) := (bytesLE_swap32 v).symm
  rw [wordBE_eq, hbytes, wordAt_bytesLE, swap32_swap32]

theorem ipv4_addrs (proto : UInt8) : wordBE (ipv4 proto src dst l4) 12 = src ∧
    wordBE (ipv4 proto src dst l4) 16 = dst :=
  ⟨wordBE_int2bytes ((ipv4Hdr proto src dst l4).take 12) src (int2bytes dst ++ l4),
    wordBE_int2bytes ((ipv4Hdr proto src dst l4).take 16) dst l4⟩

/-- The ports are the first words of the transport header. -/
theorem ipv4_ports {proto : UInt8} {s d : UInt16} {rest : Bytes}
    (hl4 : l4 = bytesBE s ++ (bytesBE d ++ rest)) (hproto : proto = 6 ∨ proto = 17) :
    HasPorts (ipv4 proto src dst l4) 0 ∧
      parsedAt (ipv4 proto src dst l4) 0 = ⟨src, dst, s, d, proto⟩ := by
  have hlen := ipv4_length src dst l4 proto
  have hprotoAt : protoAt (ipv4 proto src dst l4) 0 = proto := rfl
  have hfirst : byteAt (ipv4 proto src dst l4) 0 = 0x45 := rfl
  have hihlAt : ihlAt (ipv4 proto src dst l4) 0 = 20 := by
    rw [ihlAt, hfirst]
    rfl
  have hl4At : l4At (ipv4 proto src dst l4) 0 = 20 := by rw [l4At, hihlAt]
  have hroom : 4 ≤ l4.length := by
    rw [hl4, List.length_append, List.length_append, bytesBE_length, bytesBE_length]
    omega
  have hsplit : ipv4 proto src dst l4 = ipv4Hdr proto src dst l4 ++
      (bytesBE s ++ (bytesBE d ++ rest)) := by
    rw [ipv4, ← hl4]
  have hport : sportAt (ipv4 proto src dst l4) 0 = s := by
    rw [sportAt, hl4At, hsplit]
    exact portAt_bytesBE (ipv4Hdr proto src dst l4) s _
  have hport' : dportAt (ipv4 proto src dst l4) 0 = d := by
    rw [dportAt, hl4At, hsplit, ← List.append_assoc]
    exact portAt_bytesBE (ipv4Hdr proto src dst l4 ++ bytesBE s) d rest
  obtain ⟨hsrc, hdst⟩ := ipv4_addrs src dst l4 proto
  refine ⟨⟨?_, hihlAt.ge, ?_⟩, ?_⟩
  · rwa [hprotoAt]
  · rw [hl4At, hlen]
    omega
  · rw [parsedAt, if_pos ⟨by rwa [hprotoAt], by rw [hl4At, hlen]; omega⟩, hport, hport', hprotoAt,
      Nat.zero_add, Nat.zero_add, hsrc, hdst]

end Packet

namespace Round
variable (g : Round)

/-- The frame by its parts. -/
def ethFrame : EthFrame where
  addrs := [0x02, 0, 0, 0, 0, 0x01] ++ [0x02, 0, 0, 0, 0, 0x02]
  tags := if g.vlan then [⟨.dot1q, 0x0064⟩] else []
  ethertype := if g.ipv6.isSome then 0x86dd else ethPIp
  payload :=
    match g.ipv6 with
    | some d => ipv6Packet d
    | none => ipv4 g.flow.proto.number g.src g.dst g.l4
  addrs_length := rfl
  untagged := by
    cases g.ipv6 with
    | none => exact ⟨by decide, by decide⟩
    | some d => exact ⟨(by decide : (0x86dd : UInt16) ≠ _), (by decide : (0x86dd : UInt16) ≠ _)⟩

theorem frame_eq : g.frame = g.ethFrame.bytes := by
  have heth : ∀ ethertype (payload : Bytes), eth ethertype g.vlan ++ payload =
      [0x02, 0, 0, 0, 0, 0x01] ++ [0x02, 0, 0, 0, 0, 0x02] ++
        ((if g.vlan then [(⟨.dot1q, 0x0064⟩ : VlanTag)] else []).flatMap VlanTag.bytes ++
          (bytesBE ethertype ++ payload)) := by
    intro ethertype payload
    rw [eth]
    cases g.vlan
    · rfl
    · rfl
  unfold frame EthFrame.bytes ethFrame
  rcases g with ⟨flow, index, vlan, ipv6, plen, hindex, hplen⟩
  cases ipv6 with
  | none => exact heth _ _
  | some d => exact heth _ _

theorem plainlyTagged : PlainlyTagged g.ethFrame := by
  have htags : g.ethFrame.tags.length ≤ 1 := by
    rw [ethFrame]
    cases g.vlan <;> simp
  refine ⟨?_, ?_, fun hdeep => by omega⟩
  · intro i t ht _ _
    have hmem : t ∈ if g.vlan then [(⟨.dot1q, 0x0064⟩ : VlanTag)] else [] :=
      List.mem_of_getElem? ht
    obtain rfl : t = ⟨.dot1q, 0x0064⟩ := by
      cases hvlan : g.vlan <;> simp_all
    decide
  · rcases g with ⟨flow, index, vlan, ipv6, plen, hindex, hplen⟩
    intro _ _ hversion
    cases ipv6 with
    | none => exact ⟨rfl, ipv4_begins _ _ _ _⟩
    | some d => exact absurd hversion (by decide : ¬ (0x60 : UInt8) >>> 4 = 4)

theorem agrees : Agrees g.frame := by
  rw [frame_eq, agrees_frame_iff]
  exact g.plainlyTagged

/-- Where the header of the frame is, and what is read there. -/
theorem header_cases :
    (g.ipv6.isNone = false ∧ header 14 g.frame = none) ∨
      (g.ipv6.isNone = true ∧ ∃ l3, header 14 g.frame = some l3 ∧
        SameFrom (ipv4 g.flow.proto.number g.src g.dst g.l4) 0 g.frame l3) := by
  have hhdr := header_frame g.plainlyTagged
  have hsame := sameFrom_payload g.ethFrame
  rw [← frame_eq] at hhdr hsame
  rcases g with ⟨flow, index, vlan, ipv6, plen, hindex, hplen⟩
  cases ipv6 with
  | none =>
    refine Or.inr ⟨rfl, _, (hhdr _).mpr ⟨⟨rfl, ipv4_begins _ _ _ _⟩, rfl⟩, hsame⟩
  | some d =>
    refine Or.inl ⟨rfl, Option.eq_none_iff_forall_ne_some.mpr fun l3 hl3 => ?_⟩
    exact absurd ((hhdr l3).mp hl3).1.1 (by decide : (0x86dd : UInt16) ≠ ethPIp)

theorem l4_ports (hproto : g.flow.proto.number = 6 ∨ g.flow.proto.number = 17) :
    ∃ rest, g.l4 = bytesBE g.sport ++ (bytesBE g.dport ++ rest) := by
  rw [l4]
  cases hp : g.flow.proto with
  | tcp => exact ⟨_, rfl⟩
  | udp => exact ⟨_, rfl⟩
  | icmp =>
    rw [hp] at hproto
    exact absurd hproto (by decide)

theorem portsCaptured : PortsCaptured g.frame := by
  intro l3 hl3 hproto
  rcases g.header_cases with ⟨-, hnone⟩ | ⟨-, l3', hl3', hsame⟩
  · rw [hnone] at hl3
    cases hl3
  · obtain rfl : l3' = l3 := Option.some.inj (hl3'.symm.trans hl3)
    rw [hsame.proto] at hproto
    obtain ⟨rest, hl4⟩ := g.l4_ports hproto
    exact hsame.hasPorts.mpr (ipv4_ports g.src g.dst g.l4 hl4 hproto).1

theorem pyFlow_frame : pyFlow g.frame = g.tracked := by
  rw [pyFlow, tracked]
  rcases g.header_cases with ⟨hipv6, hnone⟩ | ⟨hipv6, l3, hl3, hsame⟩
  · rw [hnone, hipv6, if_neg fun h => Bool.false_ne_true h.1]
  · have hproto : protoAt g.frame l3 = g.flow.proto.number := hsame.proto
    rw [hl3, hipv6]
    simp only [hproto, true_and]
    by_cases hp : g.flow.proto.number = 6 ∨ g.flow.proto.number = 17
    · obtain ⟨rest, hl4⟩ := g.l4_ports hp
      rw [if_pos hp, if_pos hp, hsame.parsed, (ipv4_ports g.src g.dst g.l4 hl4 hp).2]
      rfl
    · rw [if_neg hp, if_neg hp]

/-- The packet is in a set with one of the flow's two hosts. -/
theorem hitsSet_frame (ips : List UInt32) :
    hitsSet ips g.frame = true ↔
      g.ipv6.isNone = true ∧ (g.flow.external ∈ ips ∨ g.flow.internal ∈ ips) := by
  rw [hitsSet]
  rcases g.header_cases with ⟨hipv6, hnone⟩ | ⟨hipv6, l3, hl3, hsame⟩
  · rw [hnone, hipv6]
    simp
  · obtain ⟨hsrc, hdst⟩ := ipv4_addrs g.src g.dst g.l4 g.flow.proto.number
    rw [hl3, hipv6, Option.any_some, decide_eq_true_iff, wordBE_eq, wordBE_eq, hsame.word,
      hsame.word, ← wordBE_eq, ← wordBE_eq, Nat.zero_add, Nat.zero_add, hsrc, hdst, src, dst]
    cases g.outbound <;> simp [or_comm]

end Round

/-! The counts of a run. -/

/-- What the counts hold after the rounds `gs`. -/
def Counts.after (gs : List Round) : Counts where
  extCounts := fun ip => gs.countP fun g => g.ipv6.isNone ∧ g.flow.external = ip
  flowSeen := fun key => (gs.filterMap Round.tracked).count key
  headCounts := fun cutoff => (flowHeads cutoff (gs.filterMap Round.tracked)).2

theorem Counts.add_after (gs : List Round) (g : Round) :
    (Counts.after gs).add g = Counts.after (gs ++ [g]) := by
  have hext : ∀ ip, (Counts.after (gs ++ [g])).extCounts ip = (Counts.after gs).extCounts ip +
      if g.ipv6.isNone ∧ g.flow.external = ip then 1 else 0 := by
    intro ip
    simp [after, List.countP_append, List.countP_cons]
  cases hipv6 : g.ipv6 with
  | some d =>
    have hnone : g.tracked = none := by rw [Round.tracked, hipv6]; simp
    rw [add, hipv6]
    simp [after, List.filterMap_append, List.countP_append, hnone, hipv6]
  | none =>
    have hupd : Function.update (after gs).extCounts g.flow.external
        ((after gs).extCounts g.flow.external + 1) = (after (gs ++ [g])).extCounts := by
      funext ip
      rw [hext, hipv6]
      by_cases hip : ip = g.flow.external
      · subst hip
        simp
      · rw [Function.update_of_ne hip, if_neg fun h => hip h.2.symm, Nat.add_zero]
    rw [add, hipv6]
    simp only [hupd]
    by_cases hp : g.flow.proto.number = 6 ∨ g.flow.proto.number = 17
    · have hsome : g.tracked = some g.key := by rw [Round.tracked, hipv6, if_pos ⟨rfl, hp⟩]
      have hstep : ∀ cutoff, flowHeads cutoff ((gs ++ [g]).filterMap Round.tracked) =
          flowHeadsStep cutoff (flowHeads cutoff (gs.filterMap Round.tracked)) g.key := by
        intro cutoff
        rw [List.filterMap_append, flowHeads, List.foldl_append, ← flowHeads, List.filterMap_cons,
          hsome]
        rfl
      rw [if_pos hp]
      simp only [after, hstep, flowHeadsStep, flowHeads_fst, mk.injEq, true_and]
      refine ⟨?_, rfl⟩
      funext key
      rw [List.filterMap_append, List.count_append, List.filterMap_cons, hsome]
      by_cases hkey : key = g.key
      · subst hkey
        simp
      · simp [hkey, Ne.symm hkey]
    · have hnone : g.tracked = none := by rw [Round.tracked, if_neg fun h => hp h.2]
      rw [if_neg hp]
      simp [after, List.filterMap_append, hnone]

theorem counts_eq (gs : List Round) : counts gs = Counts.after gs := by
  induction gs using List.reverseRecOn with
  | nil => rfl
  | append_singleton gs g ih => rw [counts, List.foldl_append, ← counts, ih, List.foldl_cons,
      List.foldl_nil, Counts.add_after]

theorem countP_split {α : Type} {p q r : α → Bool}
    (h : ∀ x, (if r x then 1 else 0) = (if p x then 1 else 0) + if q x then 1 else 0) (xs : List α) :
    xs.countP r = xs.countP p + xs.countP q := by
  induction xs with
  | nil => rfl
  | cons x xs ih =>
    rw [List.countP_cons, List.countP_cons, List.countP_cons, ih, h]
    omega

/-- For distinct addresses the expected matches are packets, each counted once. -/
theorem expectedMatches_eq (gs : List Round) {ips : List UInt32} (hnodup : ips.Nodup) :
    expectedMatches (counts gs) ips =
      gs.countP fun g => g.ipv6.isNone ∧ g.flow.external ∈ ips := by
  rw [counts_eq, expectedMatches]
  induction hnodup with
  | nil => simp
  | @cons ip ips hne _ ih =>
    rw [List.map_cons, List.sum_cons, ih]
    symm
    apply countP_split
    intro g
    have hip : g.flow.external = ip → g.flow.external ∉ ips := fun h hmem => hne _ hmem h.symm
    by_cases h : g.flow.external = ip
    · simp [h, h ▸ hip h]
    · simp [h]

/-- The packets of a set: those expected, and those that only the internal host is in. -/
theorem hits_split (gs : List Round) {ips : List UInt32} (hnodup : ips.Nodup) :
    gs.countP (fun g => hitsSet ips g.frame) = expectedMatches (counts gs) ips +
      gs.countP fun g => g.ipv6.isNone ∧ g.flow.internal ∈ ips ∧ g.flow.external ∉ ips := by
  rw [expectedMatches_eq gs hnodup]
  apply countP_split
  intro g
  simp only [g.hitsSet_frame, decide_eq_true_iff]
  by_cases hext : g.flow.external ∈ ips
  · simp [hext]
  · simp [hext]

/-! The runs over the file. -/

theorem chosen_length (pick : Record → Bool) (rs : List Record) :
    (chosen (fun _ r => ((), pick r)) () rs).length = rs.countP pick := by
  induction rs with
  | nil => rfl
  | cons r rs ih =>
    rw [chosen, List.length_append, ih, List.countP_cons]
    cases pick r <;> simp [Nat.add_comm]

theorem swapped_swapped (f : Flow) : f.swapped.swapped = f := by
  rcases f with ⟨src, dst, sport, dport, proto⟩
  simp only [Flow.swapped, swap32_swap32]

section File
variable {rs : List Record} {gs : List Round} (hframes : rs.map Record.data = gs.map Round.frame)
include hframes

theorem file_agrees {r : Record} (hr : r ∈ rs) : Agrees r.data ∧ PortsCaptured r.data := by
  have hmem : r.data ∈ gs.map Round.frame := hframes ▸ List.mem_map_of_mem hr
  obtain ⟨g, -, hg⟩ := List.mem_map.mp hmem
  rw [← hg]
  exact ⟨g.agrees, g.portsCaptured⟩

theorem file_hits (ips : List UInt32) :
    rs.countP (fun r => hitsSet ips r.data) = gs.countP fun g => hitsSet ips g.frame := by
  have h := congrArg (List.countP (hitsSet ips)) hframes
  rwa [List.countP_map, List.countP_map] at h

theorem file_flows : (rs.filterMap fun r => pyFlow r.data) = gs.filterMap Round.tracked := by
  have h := congrArg (List.filterMap pyFlow) hframes
  rw [List.filterMap_map, List.filterMap_map] at h
  exact h.trans (List.filterMap_congr fun g _ => g.pyFlow_frame)

theorem file_tracked :
    (trackedFlows benchCfg none (rs.map Record.packet)).map Flow.swapped =
      gs.filterMap Round.tracked := by
  rw [← pyFlows_eq fun r hr => (file_agrees hframes hr).2, file_flows hframes]

/-- What is injective on the keys of the rounds is so on the flows that C counts. -/
theorem file_inj {α : Type} {key : Flow → α}
    (h : ∀ f ∈ gs.filterMap Round.tracked, ∀ g ∈ gs.filterMap Round.tracked,
      key f.swapped = key g.swapped → f = g) :
    ∀ f ∈ trackedFlows benchCfg none (rs.map Record.packet),
      ∀ g ∈ trackedFlows benchCfg none (rs.map Record.packet), key f = key g → f = g := by
  intro f hf g hg hkey
  have hmem : ∀ x ∈ trackedFlows benchCfg none (rs.map Record.packet),
      x.swapped ∈ gs.filterMap Round.tracked := fun x hx =>
    file_tracked hframes ▸ List.mem_map_of_mem hx
  apply Flow.swapped_inj
  apply h _ (hmem f hf) _ (hmem g hg)
  rwa [swapped_swapped, swapped_swapped]

/-- The expected matches of a set and the packets that only an internal host of it is in. -/
theorem set_admitted (lib : Libpcap) {pp : PcapObject} (hpcap : pp.pcap = some ⟨rs, .eof, false⟩)
    {calls : Nat} (hcalls : rs.length < calls) {ips : List UInt32} (hnodup : ips.Nodup)
    (hne : ∀ ip ∈ ips, ip ≠ 0) (hmax : ips.length ≤ 2 ^ 30) :
    ∃ admitted dropped classes pp' made res,
      pLoopFiltered lib {} pp (benchArgs 4 (addrBytes ips) 0) (fun _ _ => none) =
          .ok (.ret (admitted :: dropped :: classes), pp', made) ∧
        addrSetMatch lib ips calls pp = .ok (.ret res) ∧ made.length = res.admitted ∧
        res.admitted = expectedMatches (counts gs) ips + gs.countP fun g =>
          g.ipv6.isNone ∧ g.flow.internal ∈ ips ∧ g.flow.external ∉ ips := by
  obtain ⟨set, hioc, hset⟩ := addrBytes_set hne hmax
  have hclasses := benchClasses set none 0 rs
  have hpick := offered_tableless 4 2 (fun r => hitsSet ips r.data) hset
    (fun r => by cases hitsSet ips r.data <;> exact ⟨by decide, by decide⟩) rs
  obtain ⟨pp', made, hfiltered, hmade, hpy⟩ := counting_runs lib () hpcap hcalls
    (fun text => benchSetup_tableless text 4 hioc) hclasses
    fun r hr _ => admitSet_eq ips (file_agrees hframes hr).1
  have hadmitted := congrArg List.length hpick
  rw [offered_length 4 0 (classAll_length _ _ rs), List.length_map] at hadmitted
  refine ⟨_, _, _, _, _, _, hfiltered, hpy, hmade.trans hadmitted, ?_⟩
  rw [chosen_length, file_hits hframes, hits_split gs hnodup]

end File

/-- On the generated file the counts of the manifest are met: an address set admits the matches
expected of it and the packets that only an internal host of it is in, the cutoff admits the
counted heads in Python and no fewer in C, and as many where no two flows share a slot. -/
theorem manifest_expectations (lib : Libpcap) (pp : PcapObject) (rs : List Record)
    (gs : List Round) (hpcap : pp.pcap = some ⟨rs, .eof, false⟩)
    (hframes : rs.map Record.data = gs.map Round.frame) (hlen : rs.length < 2 ^ 32) (calls : Nat)
    (hcalls : rs.length < calls) :
    (∀ ips : List UInt32, ips.Nodup → (∀ ip ∈ ips, ip ≠ 0) → ips.length ≤ 2 ^ 30 →
      ∃ admitted dropped classes pp' made res,
        pLoopFiltered lib {} pp (benchArgs 4 (addrBytes ips) 0) (fun _ _ => none) =
            .ok (.ret (admitted :: dropped :: classes), pp', made) ∧
          addrSetMatch lib ips calls pp = .ok (.ret res) ∧ made.length = res.admitted ∧
          res.admitted = expectedMatches (counts gs) ips + gs.countP fun g =>
            g.ipv6.isNone ∧ g.flow.internal ∈ ips ∧ g.flow.external ∉ ips) ∧
    (∀ cutoff : Nat, 0 < cutoff → cutoff < 2 ^ 31 →
      let keys := gs.filterMap Round.tracked
      let slot := slotOf ((1 : UInt32) <<< 20 - 1)
      ∃ admitted dropped classes pp' made res,
        pLoopFiltered lib {} pp (benchArgs 2 [] (Int32.ofNat cutoff)) (fun _ _ => none) =
            .ok (.ret (admitted :: dropped :: classes), pp', made) ∧
          pyFlowHeads lib cutoff calls pp = .ok (.ret res) ∧
          res.admitted = (counts gs).headCounts cutoff ∧
          ((∀ f ∈ keys, ∀ g ∈ keys, f.swapped.key = g.swapped.key → f = g) →
            res.admitted ≤ made.length) ∧
          ((∀ f ∈ keys, ∀ g ∈ keys, slot f.swapped.key = slot g.swapped.key → f = g) →
            made.length = res.admitted)) := by
  constructor
  · exact fun ips hnodup hne hmax => set_admitted hframes lib hpcap hcalls hnodup hne hmax
  · intro cutoff hpos hmax keys slot
    obtain ⟨admitted, dropped, classes, pp', made, res, hfiltered, hpy, hheads, hle, heq⟩ :=
      counted_heads hpos hmax lib hpcap (fun r hr => file_agrees hframes hr) hlen hcalls
    refine ⟨admitted, dropped, classes, pp', made, res, hfiltered, hpy, ?_, ?_, ?_⟩
    · rw [hheads, file_flows hframes, counts_eq]
      rfl
    · exact fun hkeys => hle (file_inj hframes hkeys)
    · exact fun hslots => heq (@file_inj rs gs hframes _ (fun f => slot f.key) hslots)

/-- DNS between 10.0.0.1 and 8.8.8.8. -/
def dnsRound (index : Fin 700) : Round where
  flow := ⟨0x0a000001, 0x08080808, .udp, 40000, 53, by decide, by decide⟩
  index := index
  vlan := false
  ipv6 := none
  plen := 24
  index_lt := index.isLt
  plen_le := by decide

/-- A tagged SYN from 10.0.0.2 to 1.1.1.1. -/
def synRound : Round where
  flow := ⟨0x0a000002, 0x01010101, .tcp, 40001, 443, by decide, by decide⟩
  index := 0
  vlan := true
  ipv6 := none
  plen := 0
  index_lt := by decide
  plen_le := by decide

/-- A query, the reply to it, a SYN and another query. -/
def dnsRounds : List Round := [dnsRound 0, dnsRound 1, synRound, dnsRound 2]

def dnsRecords : List Record :=
  [⟨⟨0, 0, 66, 66⟩, (dnsRound 0).frame, rfl⟩, ⟨⟨0, 0, 66, 66⟩, (dnsRound 1).frame, rfl⟩,
    ⟨⟨0, 0, 58, 58⟩, synRound.frame, rfl⟩, ⟨⟨0, 0, 66, 66⟩, (dnsRound 2).frame, rfl⟩]

/-- The set admits what 8.8.8.8 is in and the packet that only the internal host is in; a cutoff of
1 admits the first packet of each direction. -/
theorem manifest_expectations_dns :
    let pp : PcapObject := ⟨some ⟨dnsRecords, .eof, false⟩, [], 0⟩
    (∃ admitted dropped classes pp' made res,
      pLoopFiltered .offline {} pp (benchArgs 4 (addrBytes [0x08080808, 0x0a000002]) 0)
          (fun _ _ => none) = .ok (.ret (admitted :: dropped :: classes), pp', made) ∧
        addrSetMatch .offline [0x08080808, 0x0a000002] 5 pp = .ok (.ret res) ∧
        made.length = res.admitted ∧ res.admitted = 3 + 1) ∧
    ∃ admitted dropped classes pp' made res,
      pLoopFiltered .offline {} pp (benchArgs 2 [] 1) (fun _ _ => none) =
          .ok (.ret (admitted :: dropped :: classes), pp', made) ∧
        pyFlowHeads .offline 1 5 pp = .ok (.ret res) ∧ made.length = res.admitted ∧
        res.admitted = 3 := by
  obtain ⟨hsets, hcutoffs⟩ := manifest_expectations .offline
    ⟨some ⟨dnsRecords, .eof, false⟩, [], 0⟩ dnsRecords dnsRounds rfl rfl (by decide) 5 (by decide)
  constructor
  · obtain ⟨admitted, dropped, classes, pp', made, res, hrun, hpy, hmade, hres⟩ :=
      hsets [0x08080808, 0x0a000002] (by decide) (by simp) (by simp)
    exact ⟨admitted, dropped, classes, pp', made, res, hrun, hpy, hmade, hres.trans (by decide)⟩
  · obtain ⟨admitted, dropped, classes, pp', made, res, hrun, hpy, hres, -, hmade⟩ :=
      hcutoffs 1 (by decide) (by decide)
    exact ⟨admitted, dropped, classes, pp', made, res, hrun, hpy, hmade (by decide),
      hres.trans (by decide)⟩

end GenPcap
end PcapyNg
