import PcapyNg.Classify

/-!
# What the classifiers compute

The same decisions over plain offsets and total byte access. Every classifier run on a
captured packet, with an offset the entry points admit and a built address set, returns
what is defined here and never faults; later modules argue about these functions only.
-/

namespace PcapyNg
set_option autoImplicit false

/-- A captured packet; its length fits the 32-bit `caplen`. -/
structure Packet where
  bytes : Bytes
  small : bytes.length < 2 ^ 32
  deriving DecidableEq

def Packet.caplen (p : Packet) : UInt32 := UInt32.ofNat p.bytes.length

@[simp] theorem Packet.caplen_toNat (p : Packet) : p.caplen.toNat = p.bytes.length := by
  rw [Packet.caplen, UInt32.toNat_ofNat', Nat.mod_eq_of_lt p.small]

def vlanTpidBefore (p : Bytes) (l2 : Nat) : Bool :=
  (byteAt p (l2 - 2) == 0x81 && byteAt p (l2 - 1) == 0x00) ||
    (byteAt p (l2 - 2) == 0x88 && byteAt p (l2 - 1) == 0xa8)

/-- The IPv4 header found from `l2` on, `tags` VLAN tags skipped at most. -/
def headerFrom (p : Bytes) : Nat → Nat → Option Nat
  | tags, l2 =>
    if p.length < l2 + 20 then none
    else if byteAt p l2 >>> 4 = 4 then some l2
    else match tags with
      | 0 => none
      | tags + 1 =>
        if 2 ≤ l2 ∧ vlanTpidBefore p l2 then headerFrom p tags (l2 + 4) else none

theorem headerFrom_found {p : Bytes} {tags l2 : Nat} (hlen : ¬ p.length < l2 + 20)
    (hv : byteAt p l2 >>> 4 = 4) : headerFrom p tags l2 = some l2 := by
  cases tags <;> rw [headerFrom, if_neg hlen, if_pos hv]

theorem headerFrom_skip {p : Bytes} {tags l2 : Nat} (hlen : ¬ p.length < l2 + 20)
    (hv : ¬ byteAt p l2 >>> 4 = 4) (hlow : 2 ≤ l2) (ht : vlanTpidBefore p l2 = true) :
    headerFrom p (tags + 1) l2 = headerFrom p tags (l2 + 4) := by
  rw [headerFrom, if_neg hlen, if_neg hv]
  exact if_pos ⟨hlow, ht⟩

def header (l2 : Nat) (p : Bytes) : Option Nat := headerFrom p 2 l2

/-! Fields of the header at `l3` and of the transport header behind it. -/

def srcAt (p : Bytes) (l3 : Nat) : UInt32 := wordAt p (l3 + 12)
def dstAt (p : Bytes) (l3 : Nat) : UInt32 := wordAt p (l3 + 16)
def protoAt (p : Bytes) (l3 : Nat) : UInt8 := byteAt p (l3 + 9)
def ihlAt (p : Bytes) (l3 : Nat) : Nat := (byteAt p l3 &&& 0x0f).toNat * 4
def l4At (p : Bytes) (l3 : Nat) : Nat := l3 + ihlAt p l3
def portAt (p : Bytes) (i : Nat) : UInt16 :=
  (byteAt p i).toUInt16 <<< 8 ||| (byteAt p (i + 1)).toUInt16
def sportAt (p : Bytes) (l3 : Nat) : UInt16 := portAt p (l4At p l3)
def dportAt (p : Bytes) (l3 : Nat) : UInt16 := portAt p (l4At p l3 + 2)

/-- TCP or UDP with a valid header length and both ports captured. -/
def HasPorts (p : Bytes) (l3 : Nat) : Prop :=
  (protoAt p l3 = 6 ∨ protoAt p l3 = 17) ∧ 20 ≤ ihlAt p l3 ∧ l4At p l3 + 4 ≤ p.length

instance (p : Bytes) (l3 : Nat) : Decidable (HasPorts p l3) := by
  unfold HasPorts
  infer_instance

structure Flow where
  src : UInt32
  dst : UInt32
  sport : UInt16
  dport : UInt16
  proto : UInt8
  deriving DecidableEq

def Flow.key (f : Flow) : UInt64 :=
  flowKey f.src f.dst f.sport.toUInt32 f.dport.toUInt32 f.proto.toUInt32

def flowAt (p : Bytes) (l3 : Nat) : Flow :=
  ⟨srcAt p l3, dstAt p l3, sportAt p l3, dportAt p l3, protoAt p l3⟩

def AddrMatch (set : Option AddrSet) (p : Bytes) (l3 : Nat) : Prop :=
  SetMem set (srcAt p l3) ∨ SetMem set (dstAt p l3)

instance (set : Option AddrSet) (p : Bytes) (l3 : Nat) : Decidable (AddrMatch set p l3) := by
  unfold AddrMatch
  infer_instance

/-! The generic profile. -/

/-- The flow counted for a packet whose header is at `l3`. -/
def genericAt (set : Option AddrSet) (flowtab : Option FlowTab) (flowCutoff : UInt32) (p : Bytes)
    (l3 : Nat) : Nat × Option FlowTab :=
  if AddrMatch set p l3 then (2, flowtab)
  else match flowtab with
    | none => (0, none)
    | some f =>
      if flowCutoff ≠ 0 ∧ HasPorts p l3 then
        (if (flowSeen f (flowAt p l3).key).1 < flowCutoff then 1 else 0,
          some (flowSeen f (flowAt p l3).key).2)
      else (0, some f)

def genericClass (cfg : ClassCfg) (set : Option AddrSet) (flowtab : Option FlowTab)
    (flowCutoff : UInt32) (p : Bytes) : Nat × Option FlowTab :=
  match header cfg.l2Off.toNat p with
  | none => (0, flowtab)
  | some l3 => genericAt set flowtab flowCutoff p l3

/-! The security profile. -/

def IsDns (cfg : ClassCfg) (p : Bytes) (l3 : Nat) : Prop :=
  sportAt p l3 = cfg.dnsPort ∨ dportAt p l3 = cfg.dnsPort

instance (cfg : ClassCfg) (p : Bytes) (l3 : Nat) : Decidable (IsDns cfg p l3) := by
  unfold IsDns
  infer_instance

def HasFlags (p : Bytes) (l3 : Nat) : Prop := protoAt p l3 = 6 ∧ l4At p l3 + 14 ≤ p.length

instance (p : Bytes) (l3 : Nat) : Decidable (HasFlags p l3) := by
  unfold HasFlags
  infer_instance

def IsSyn (p : Bytes) (l3 : Nat) : Prop := byteAt p (l4At p l3 + 13) = 0x02

instance (p : Bytes) (l3 : Nat) : Decidable (IsSyn p l3) := by
  unfold IsSyn
  infer_instance

def tcpHlAt (p : Bytes) (l3 : Nat) : Nat := ((byteAt p (l4At p l3 + 12) >>> 4) &&& 0x0f).toNat * 4

/-- Captured bytes behind the TCP header, on a watched port. -/
def IsHttp (cfg : ClassCfg) (p : Bytes) (l3 : Nat) : Prop :=
  20 ≤ tcpHlAt p l3 ∧ l4At p l3 + tcpHlAt p l3 < p.length ∧
    cfg.dpiPorts.any (fun port => sportAt p l3 = port || dportAt p l3 = port)

instance (cfg : ClassCfg) (p : Bytes) (l3 : Nat) : Decidable (IsHttp cfg p l3) := by
  unfold IsHttp
  infer_instance

/-- The class `mt_classify` gives a packet whose header is at `l3`. -/
def transportClass (cfg : ClassCfg) (p : Bytes) (l3 : Nat) : Nat :=
  if HasPorts p l3 then
    if IsDns cfg p l3 then 0
    else if HasFlags p l3 then
      if IsSyn p l3 then 5 else if IsHttp cfg p l3 then 1 else 2
    else 2
  else 2

def refineAt (cfg : ClassCfg) (set : Option AddrSet) (flowtab : Option FlowTab)
    (flowCutoff : UInt32) (p : Bytes) (l3 : Nat) : Nat × Option FlowTab :=
  if transportClass cfg p l3 ≠ 2 then (transportClass cfg p l3, flowtab)
  else if AddrMatch set p l3 then (3, flowtab)
  else match flowtab with
    | none => (2, none)
    | some f =>
      if HasPorts p l3 ∧ mtIsTlsPort cfg (sportAt p l3) (dportAt p l3) then
        (if (flowSeen f (flowAt p l3).key).1 < flowCutoff then 4 else 2,
          some (flowSeen f (flowAt p l3).key).2)
      else (2, some f)

def refineClass (cfg : ClassCfg) (set : Option AddrSet) (flowtab : Option FlowTab)
    (flowCutoff : UInt32) (p : Bytes) : Nat × Option FlowTab :=
  match header cfg.l2Off.toNat p with
  | none => (2, flowtab)
  | some l3 => refineAt cfg set flowtab flowCutoff p l3

def dispatchClass (cfg : ClassCfg) (set : Option AddrSet) (flowtab : Option FlowTab)
    (flowCutoff : UInt32) (p : Bytes) : Nat × Option FlowTab :=
  if cfg.profile = 1 then refineClass cfg set flowtab flowCutoff p
  else genericClass cfg set flowtab flowCutoff p

/-! Offset arithmetic that stays below 2^32. -/

theorem add_toNat {a b : UInt32} {m n : Nat} (ha : a.toNat = m) (hb : b.toNat = n)
    (h : m + n < 2 ^ 32) : (a + b).toNat = m + n := by
  rw [UInt32.toNat_add, ha, hb, Nat.mod_eq_of_lt h]

theorem lt_iff_of_toNat {a b : UInt32} {m n : Nat} (ha : a.toNat = m) (hb : b.toNat = n) :
    a < b ↔ m < n := by
  rw [UInt32.lt_iff_toNat_lt, ha, hb]

theorem readPort_eq {p : Bytes} {i : UInt32} {n : Nat} (hi : i.toNat = n) (hn : n + 2 ≤ p.length)
    (hsmall : n + 2 ≤ 2 ^ 32) : readPort p i = .ok (portAt p n) := by
  have h1 : (i + 1).toNat = n + 1 := add_toNat hi rfl (by omega)
  have r0 : readByte p i = _ := readByte_eq hi (by omega)
  have r1 : readByte p (i + 1) = _ := readByte_eq h1 (by omega)
  rw [readPort, r0, r1]
  rfl

theorem isVlanTpid_eq {p : Bytes} {l2 : UInt32} {n : Nat} (hl2 : l2.toNat = n) (hlow : 2 ≤ n)
    (hn : n ≤ p.length) : isVlanTpid p l2 = .ok (vlanTpidBefore p n) := by
  have h2 : (l2 - 2).toNat = n - 2 := by
    rw [UInt32.toNat_sub_of_le _ _ (by rw [UInt32.le_iff_toNat_le, hl2]; exact hlow), hl2]
    rfl
  have h1 : (l2 - 1).toNat = n - 1 := by
    rw [UInt32.toNat_sub_of_le _ _ (by rw [UInt32.le_iff_toNat_le, hl2]; simp; omega), hl2]
    rfl
  have r2 : readByte p (l2 - 2) = _ := readByte_eq h2 (by omega)
  have r1 : readByte p (l2 - 1) = _ := readByte_eq h1 (by omega)
  rw [isVlanTpid, r2, r1]
  rfl

/-- One round of the header search: every byte it looks at is captured. -/
theorem locateIpv4From_step (p : Packet) (fuel vguard : Nat) {l2 : UInt32} {n : Nat}
    (hl2 : l2.toNat = n) (hn : n ≤ 72) :
    locateIpv4From p.bytes p.caplen (fuel + 1) vguard l2 =
      if p.bytes.length < n + 20 then .ok none
      else if byteAt p.bytes n >>> 4 = 4 then .ok (some l2)
      else if 2 ≤ vguard ∨ n < 2 then .ok none
      else if vlanTpidBefore p.bytes n then
        locateIpv4From p.bytes p.caplen fuel (vguard + 1) (l2 + 4)
      else .ok none := by
  have h20 : (l2 + 20).toNat = n + 20 := add_toNat hl2 rfl (by omega)
  have hshort := lt_iff_of_toNat p.caplen_toNat h20
  have hlow : l2 < 2 ↔ n < 2 := lt_iff_of_toNat hl2 rfl
  rw [locateIpv4From]
  simp only [hshort, hlow]
  by_cases hlen : p.bytes.length < n + 20
  · rw [if_pos hlen, if_pos hlen]
    rfl
  · have hread : readByte p.bytes l2 = .ok (byteAt p.bytes n) := readByte_eq hl2 (by omega)
    rw [if_neg hlen, if_neg hlen, hread]
    simp only [bind, Except.bind, pure, Except.pure, ge_iff_le]
    by_cases hguard : 2 ≤ vguard ∨ n < 2
    · simp only [if_pos hguard]
    · have htpid := isVlanTpid_eq (p := p.bytes) hl2 (by omega) (by omega)
      simp only [if_neg hguard, htpid]

theorem locateIpv4From_eq (p : Packet) (tags vguard n : Nat) (l2 : UInt32) (hl2 : l2.toNat = n)
    (hn : n + 4 * tags ≤ 72) (hguard : vguard + tags = 2) :
    ∃ r, locateIpv4From p.bytes p.caplen (tags + 1) vguard l2 = .ok r ∧
      r.map UInt32.toNat = headerFrom p.bytes tags n := by
  induction tags generalizing n l2 vguard with
  | zero =>
    rw [locateIpv4From_step p _ _ hl2 (by omega), headerFrom]
    split
    · exact ⟨none, rfl, rfl⟩
    · split
      · exact ⟨some l2, rfl, by simp [hl2]⟩
      · rw [if_pos (Or.inl (by omega))]
        exact ⟨none, rfl, rfl⟩
  | succ tags ih =>
    have h4 : (l2 + 4).toNat = n + 4 := add_toNat hl2 rfl (by omega)
    rw [locateIpv4From_step p _ _ hl2 (by omega), headerFrom]
    split
    · exact ⟨none, rfl, rfl⟩
    · split
      · exact ⟨some l2, rfl, by simp [hl2]⟩
      · by_cases hlow : n < 2
        · rw [if_pos (Or.inr hlow), if_neg (fun h => absurd h.1 (by omega))]
          exact ⟨none, rfl, rfl⟩
        · rw [if_neg (by omega)]
          by_cases ht : vlanTpidBefore p.bytes n = true
          · rw [if_pos ht, if_pos ⟨by omega, ht⟩]
            exact ih (vguard + 1) (n + 4) (l2 + 4) h4 (by omega) (by omega)
          · rw [if_neg ht, if_neg (fun h => ht h.2)]
            exact ⟨none, rfl, rfl⟩

/-- The two copies of the search are the same search. -/
theorem mtHeaderFrom_eq_locateIpv4From (p : Bytes) (len : UInt32) (fuel vguard : Nat)
    (l2 : UInt32) : mtHeaderFrom p len fuel vguard l2 = locateIpv4From p len fuel vguard l2 := by
  induction fuel generalizing vguard l2 with
  | zero => rfl
  | succ fuel ih => simp only [mtHeaderFrom, locateIpv4From, ih]

theorem headerFrom_some {p : Bytes} {tags n l3 : Nat} (h : headerFrom p tags n = some l3) :
    l3 ≤ n + 4 * tags ∧ l3 + 20 ≤ p.length ∧ byteAt p l3 >>> 4 = 4 := by
  induction tags generalizing n with
  | zero =>
    rw [headerFrom] at h
    split at h
    · cases h
    · split at h
      · cases h
        exact ⟨by omega, by omega, by assumption⟩
      · cases h
  | succ tags ih =>
    rw [headerFrom] at h
    split at h
    · cases h
    · split at h
      · cases h
        exact ⟨by omega, by omega, by assumption⟩
      · split at h
        · obtain ⟨h1, h2, h3⟩ := ih h
          exact ⟨by omega, h2, h3⟩
        · cases h

theorem header_search (p : Packet) {l2 : UInt32} (hoff : l2.toNat ≤ 64) :
    (∃ r : UInt32, locateIpv4 l2 p.bytes p.caplen = .ok (some r) ∧
        mtHeaderFrom p.bytes p.caplen 3 0 l2 = .ok (some r) ∧
        header l2.toNat p.bytes = some r.toNat ∧ r.toNat ≤ 72 ∧ r.toNat + 20 ≤ p.bytes.length) ∨
      (locateIpv4 l2 p.bytes p.caplen = .ok none ∧
        mtHeaderFrom p.bytes p.caplen 3 0 l2 = .ok none ∧ header l2.toNat p.bytes = none) := by
  obtain ⟨r, hr, hmap⟩ := locateIpv4From_eq p 2 0 l2.toNat l2 rfl (by omega) rfl
  rw [mtHeaderFrom_eq_locateIpv4From, locateIpv4]
  cases r with
  | none => exact Or.inr ⟨hr, hr, hmap.symm⟩
  | some r =>
    left
    have hs : header l2.toNat p.bytes = some r.toNat := hmap.symm
    obtain ⟨h1, h2, _⟩ := headerFrom_some hs
    exact ⟨r, hr, hr, hs, by omega, h2⟩

theorem header_of_locate {p : Packet} {l2 l3 : UInt32} (hoff : l2.toNat ≤ 64)
    (hloc : locateIpv4 l2 p.bytes p.caplen = .ok (some l3)) :
    header l2.toNat p.bytes = some l3.toNat := by
  rcases header_search p hoff with ⟨r, hr, -, hhdr, -⟩ | ⟨hnone, -⟩
  · rw [hr] at hloc
    cases hloc
    exact hhdr
  · rw [hnone] at hloc
    cases hloc

theorem addrHit_eq (set : Option AddrSet) (sip dip : UInt32) :
    addrHit (setPtr set) sip dip = .ok (decide (SetMem set sip ∨ SetMem set dip)) := by
  cases set with
  | none => simp [addrHit, setPtr, SetMem, pure, Except.pure]
  | some t =>
    have hs : (setPtr (some t)).isNone = false := rfl
    rw [addrHit, hs, ipsetHas_eq, ipsetHas_eq]
    by_cases h : SetMem (some t) sip <;> simp [h, bind, Except.bind, pure, Except.pure]

theorem nibble_toNat (b : UInt8) : ((b &&& 0x0f).toUInt32 * 4).toNat = (b &&& 0x0f).toNat * 4 := by
  have h : (b &&& 0x0f).toNat ≤ 15 := by
    rw [UInt8.toNat_and]
    exact Nat.and_le_right
  have hfour : (4 : UInt32).toNat = 4 := rfl
  rw [UInt32.toNat_mul, UInt8.toNat_toUInt32, hfour]
  omega

theorem ihlAt_le (p : Bytes) (l3 : Nat) : ihlAt p l3 ≤ 60 := by
  have h : (byteAt p l3 &&& 0x0f).toNat ≤ 15 := by
    rw [UInt8.toNat_and]
    exact Nat.and_le_right
  unfold ihlAt
  omega

section Reads
variable {p : Packet} {r : UInt32} (hr : r.toNat ≤ 72) (hlen : r.toNat + 20 ≤ p.bytes.length)

/-! The reads both classifiers make once a header is found at `r`. -/

include hlen in
theorem read_first : readByte p.bytes r = .ok (byteAt p.bytes r.toNat) :=
  readByte_eq rfl (by omega)

include hr hlen in
theorem read_proto : readByte p.bytes (r + 9) = .ok (protoAt p.bytes r.toNat) :=
  readByte_eq (add_toNat rfl rfl (by omega)) (by omega)

include hr hlen in
theorem read_src : readWord p.bytes (r + 12) = .ok (srcAt p.bytes r.toNat) :=
  readWord_eq (add_toNat rfl rfl (by omega)) (by omega) (by omega)

include hr hlen in
theorem read_dst : readWord p.bytes (r + 16) = .ok (dstAt p.bytes r.toNat) :=
  readWord_eq (add_toNat rfl rfl (by omega)) (by omega) (by omega)

theorem ihl_lt_iff : (byteAt p.bytes r.toNat &&& 0x0f).toUInt32 * 4 < 20 ↔
    ihlAt p.bytes r.toNat < 20 :=
  lt_iff_of_toNat (nibble_toNat _) rfl

theorem ihl_ge_iff : (byteAt p.bytes r.toNat &&& 0x0f).toUInt32 * 4 ≥ 20 ↔
    20 ≤ ihlAt p.bytes r.toNat := by
  rw [ge_iff_le, UInt32.le_iff_toNat_le, nibble_toNat]
  rfl

include hr in
theorem l4_toNat : (r + (byteAt p.bytes r.toNat &&& 0x0f).toUInt32 * 4).toNat =
    l4At p.bytes r.toNat := by
  have h := ihlAt_le p.bytes r.toNat
  exact add_toNat rfl (nibble_toNat _) (by omega)

include hr in
theorem l4At_le : l4At p.bytes r.toNat ≤ 132 := by
  have h := ihlAt_le p.bytes r.toNat
  unfold l4At
  omega

/-- `len >= l4 + k` -/
theorem captured_iff {l4 k : UInt32} {n m : Nat} (hl4 : l4.toNat = n) (hk : k.toNat = m)
    (hsmall : n + m < 2 ^ 32) : p.caplen ≥ l4 + k ↔ n + m ≤ p.bytes.length := by
  rw [ge_iff_le, UInt32.le_iff_toNat_le, add_toNat hl4 hk hsmall, p.caplen_toNat]

/-- `len < l4 + k` -/
theorem short_iff {l4 k : UInt32} {n m : Nat} (hl4 : l4.toNat = n) (hk : k.toNat = m)
    (hsmall : n + m < 2 ^ 32) : p.caplen < l4 + k ↔ p.bytes.length < n + m :=
  lt_iff_of_toNat p.caplen_toNat (add_toNat hl4 hk hsmall)

end Reads

section Ports
variable {p : Packet} {l4 : UInt32} {n : Nat} (hl4 : l4.toNat = n) (hn : n ≤ 132)
  (hlen : n + 4 ≤ p.bytes.length)
include hl4 hn hlen

theorem read_sport : readPort p.bytes l4 = .ok (portAt p.bytes n) :=
  readPort_eq hl4 (by omega) (by omega)

theorem read_dport : readPort p.bytes (l4 + 2) = .ok (portAt p.bytes (n + 2)) :=
  readPort_eq (add_toNat hl4 rfl (by omega)) (by omega) (by omega)

end Ports

/-- `classify_generic` on a captured packet: no fault, and the class of `genericClass`. -/
theorem classifyGeneric_eq (cfg : ClassCfg) (hoff : cfg.l2Off.toNat ≤ 64) (set : Option AddrSet)
    (flowtab : Option FlowTab) (flowCutoff : UInt32) (p : Packet) :
    classifyGeneric cfg (setPtr set) flowtab flowCutoff p.bytes p.caplen =
      .ok (genericClass cfg set flowtab flowCutoff p.bytes) := by
  rcases header_search p hoff with ⟨r, hloc, _, hhdr, hr, hlen⟩ | ⟨hloc, _, hhdr⟩
  · rw [classifyGeneric, hloc, genericClass, hhdr]
    simp only [bind, Except.bind, pure, Except.pure, read_src hr hlen, read_dst hr hlen, addrHit_eq,
      decide_eq_true_eq, genericAt, AddrMatch]
    by_cases hhit : SetMem set (srcAt p.bytes r.toNat) ∨ SetMem set (dstAt p.bytes r.toNat)
    · simp only [hhit, if_true]
    · simp only [hhit, if_false]
      cases flowtab with
      | none => rfl
      | some f =>
        have hl4 := l4_toNat (p := p) hr
        have hle := l4At_le (p := p) hr
        have hfour : (4 : UInt32).toNat = 4 := rfl
        have hcap := captured_iff (p := p) hl4 hfour (by omega)
        simp only [read_proto hr hlen, read_first hlen, ihl_ge_iff, hcap]
        by_cases hcut : flowCutoff = 0
        · simp only [hcut, if_true, ne_eq, not_true_eq_false, false_and, if_false]
        · by_cases hproto : protoAt p.bytes r.toNat = 6 ∨ protoAt p.bytes r.toNat = 17
          · by_cases hl : 20 ≤ ihlAt p.bytes r.toNat ∧ l4At p.bytes r.toNat + 4 ≤ p.bytes.length
            · have hports : HasPorts p.bytes r.toNat := ⟨hproto, hl⟩
              simp only [hcut, hproto, hl, hports, if_false, if_true, ne_eq, not_false_eq_true,
                and_self, read_sport hl4 hle hl.2, read_dport hl4 hle hl.2]
              rfl
            · have hports : ¬ HasPorts p.bytes r.toNat := fun h => hl h.2
              simp only [hcut, hproto, hl, hports, if_false, if_true, and_false]
          · have hports : ¬ HasPorts p.bytes r.toNat := fun h => hproto h.1
            simp only [hcut, hproto, hports, if_false, and_false]
  · rw [classifyGeneric, hloc, genericClass, hhdr]
    rfl

/-- The TCP part reads flags and data offset, both captured with the first 14 bytes. -/
theorem mtClassifyTcp_eq (cfg : ClassCfg) {p : Packet} {l4 : UInt32} {l3 : Nat}
    (hl4 : l4.toNat = l4At p.bytes l3) (hle : l4At p.bytes l3 ≤ 132)
    (hflags : HasFlags p.bytes l3) :
    mtClassifyTcp cfg p.bytes p.caplen l4 (sportAt p.bytes l3) (dportAt p.bytes l3) =
      .ok (if IsSyn p.bytes l3 then 5 else if IsHttp cfg p.bytes l3 then 1 else 2) := by
  have hlen := hflags.2
  have r13 : readByte p.bytes (l4 + 13) = .ok (byteAt p.bytes (l4At p.bytes l3 + 13)) :=
    readByte_eq (add_toNat hl4 rfl (by omega)) (by omega)
  have r12 : readByte p.bytes (l4 + 12) = .ok (byteAt p.bytes (l4At p.bytes l3 + 12)) :=
    readByte_eq (add_toNat hl4 rfl (by omega)) (by omega)
  have hnib := nibble_toNat (byteAt p.bytes (l4At p.bytes l3 + 12) >>> 4)
  have hge : ((byteAt p.bytes (l4At p.bytes l3 + 12) >>> 4) &&& 0x0f).toUInt32 * 4 ≥ 20 ↔
      20 ≤ tcpHlAt p.bytes l3 := by
    rw [ge_iff_le, UInt32.le_iff_toNat_le, hnib]
    rfl
  have hsmall : tcpHlAt p.bytes l3 ≤ 60 := by
    have h : ((byteAt p.bytes (l4At p.bytes l3 + 12) >>> 4) &&& 0x0f).toNat ≤ 15 := by
      rw [UInt8.toNat_and]
      exact Nat.and_le_right
    unfold tcpHlAt
    omega
  have hgt : p.caplen > l4 + ((byteAt p.bytes (l4At p.bytes l3 + 12) >>> 4) &&& 0x0f).toUInt32 * 4 ↔
      l4At p.bytes l3 + tcpHlAt p.bytes l3 < p.bytes.length :=
    lt_iff_of_toNat (add_toNat hl4 hnib (by omega : l4At p.bytes l3 + tcpHlAt p.bytes l3 < 2 ^ 32)) p.caplen_toNat
  rw [mtClassifyTcp, r13, r12]
  simp only [bind, Except.bind, pure, Except.pure, hge, hgt, IsSyn, IsHttp, ← apply_ite Except.ok]

/-- `mt_classify` behind a found header: the class, and which fields of `mt_pktinfo` are set. -/
theorem mtClassify_some (cfg : ClassCfg) {p : Packet} {r : UInt32}
    (hsearch : mtHeaderFrom p.bytes p.caplen 3 0 cfg.l2Off = .ok (some r)) (hr : r.toNat ≤ 72)
    (hlen : r.toNat + 20 ≤ p.bytes.length) :
    ∃ o : PktInfo, mtClassify cfg p.bytes p.caplen =
        .ok (transportClass cfg p.bytes r.toNat, o) ∧
      o.ipv4 = true ∧ o.l3 = some r ∧ (o.cand = true ↔ HasPorts p.bytes r.toNat) ∧
      (HasPorts p.bytes r.toNat → o.sport = some (sportAt p.bytes r.toNat) ∧
        o.dport = some (dportAt p.bytes r.toNat) ∧
        o.proto = some (protoAt p.bytes r.toNat).toUInt32) := by
  have hl4 := l4_toNat (p := p) hr
  have hle := l4At_le (p := p) hr
  have hfour : (4 : UInt32).toNat = 4 := rfl
  have hfourteen : (14 : UInt32).toNat = 14 := rfl
  have h4 := short_iff (p := p) hl4 hfour (by omega)
  have h14 := captured_iff (p := p) hl4 hfourteen (by omega)
  have h20 := ihl_lt_iff (p := p) (r := r)
  rw [mtClassify, hsearch]
  simp only [bind, Except.bind, pure, Except.pure, read_first hlen, read_proto hr hlen, h4, h14, h20]
  generalize r + (byteAt p.bytes r.toNat &&& 15).toUInt32 * 4 = l4 at hl4 h4 h14 ⊢
  by_cases hihl : ihlAt p.bytes r.toNat < 20
  · have hports : ¬ HasPorts p.bytes r.toNat := fun h => absurd h.2.1 (by omega)
    simp [hihl, transportClass, hports]
  · by_cases hproto : protoAt p.bytes r.toNat ≠ 17 ∧ protoAt p.bytes r.toNat ≠ 6
    · have hports : ¬ HasPorts p.bytes r.toNat := fun h => h.1.elim hproto.2 hproto.1
      simp [hihl, hproto, transportClass, hports]
    · by_cases hl : p.bytes.length < l4At p.bytes r.toNat + 4
      · have hports : ¬ HasPorts p.bytes r.toNat := fun h => absurd h.2.2 (by omega)
        simp only [hihl, hproto, hl, if_false, if_true, transportClass, hports]
        simp
      · have hports : HasPorts p.bytes r.toNat := ⟨by tauto, by omega, by omega⟩
        have hs : readPort p.bytes l4 = .ok (sportAt p.bytes r.toNat) :=
          read_sport hl4 hle (by omega)
        have hd : readPort p.bytes (l4 + 2) = .ok (dportAt p.bytes r.toNat) :=
          read_dport hl4 hle (by omega)
        simp only [hihl, hproto, hl, hs, hd, if_false, transportClass, hports, if_true, IsDns]
        by_cases hdns : sportAt p.bytes r.toNat = cfg.dnsPort ∨ dportAt p.bytes r.toNat = cfg.dnsPort
        · simp [hdns]
        · by_cases hflags : protoAt p.bytes r.toNat = 6 ∧ l4At p.bytes r.toNat + 14 ≤ p.bytes.length
          · have hf : HasFlags p.bytes r.toNat := hflags
            have htcp := mtClassifyTcp_eq cfg hl4 hle hf
            simp [hdns, hflags, hf, htcp]
          · have hf : ¬ HasFlags p.bytes r.toNat := hflags
            simp [hdns, hflags, hf]

theorem mtClassify_none (cfg : ClassCfg) {p : Packet}
    (hsearch : mtHeaderFrom p.bytes p.caplen 3 0 cfg.l2Off = .ok none) :
    mtClassify cfg p.bytes p.caplen = .ok (2, {}) := by
  rw [mtClassify, hsearch]
  rfl

/-- `classify_refine` on a captured packet: no fault, every field of `mt_pktinfo` it reads was
written, and the class of `refineClass`. -/
theorem classifyRefine_eq (cfg : ClassCfg) (hoff : cfg.l2Off.toNat ≤ 64) (set : Option AddrSet)
    (flowtab : Option FlowTab) (flowCutoff : UInt32) (p : Packet) :
    classifyRefine cfg (setPtr set) flowtab flowCutoff p.bytes p.caplen =
      .ok (refineClass cfg set flowtab flowCutoff p.bytes) := by
  rcases header_search p hoff with ⟨r, _, hsearch, hhdr, hr, hlen⟩ | ⟨_, hsearch, hhdr⟩
  · obtain ⟨o, hmt, hipv4, hl3, hcand, hfields⟩ := mtClassify_some cfg hsearch hr hlen
    rw [classifyRefine, hmt, refineClass, hhdr]
    simp only [bind, Except.bind, pure, Except.pure, hipv4, refineAt]
    by_cases hcls : transportClass cfg p.bytes r.toNat = 2
    · by_cases hptr : (setPtr set).isSome = true ∨ flowtab.isSome = true
      · simp only [hcls, hptr, hl3, readField, read_src hr hlen, read_dst hr hlen, addrHit_eq,
          and_self, if_true, decide_eq_true_eq, ne_eq, not_true_eq_false, if_false, AddrMatch]
        by_cases hhit : SetMem set (srcAt p.bytes r.toNat) ∨ SetMem set (dstAt p.bytes r.toNat)
        · simp only [hhit, if_true]
        · by_cases hports : HasPorts p.bytes r.toNat
          · obtain ⟨hs, hd, hp⟩ := hfields hports
            cases flowtab with
            | none => simp only [hhit, hcand, hports, if_false, if_true]
            | some f =>
              by_cases htls : mtIsTlsPort cfg (sportAt p.bytes r.toNat) (dportAt p.bytes r.toNat)
              · simp only [hhit, hcand, hports, hs, hd, hp, htls, if_false, if_true, and_self]
                rfl
              · simp [hhit, hcand, hports, hs, hd, htls]
          · have hncand : o.cand = false := by simpa using fun h => hports (hcand.mp h)
            cases flowtab <;> simp [hhit, hncand, hports]
      · -- neither a set nor a table: the noise refinement is skipped, and would find nothing
        have hset : set = none := by
          cases set with
          | none => rfl
          | some t => exact absurd (Or.inl rfl) hptr
        subst hset
        cases flowtab with
        | none => simp [hcls, setPtr, AddrMatch, SetMem]
        | some f => exact absurd (Or.inr rfl) hptr
    · simp [hcls]
  · rw [classifyRefine, mtClassify_none cfg hsearch, refineClass, hhdr]
    simp [bind, Except.bind, pure, Except.pure]

theorem classifyDispatch_eq (cfg : ClassCfg) (hoff : cfg.l2Off.toNat ≤ 64) (set : Option AddrSet)
    (flowtab : Option FlowTab) (flowCutoff : UInt32) (p : Packet) :
    classifyDispatch cfg (setPtr set) flowtab flowCutoff p.bytes p.caplen =
      .ok (dispatchClass cfg set flowtab flowCutoff p.bytes) := by
  rw [classifyDispatch, dispatchClass]
  split
  · exact classifyRefine_eq cfg hoff set flowtab flowCutoff p
  · exact classifyGeneric_eq cfg hoff set flowtab flowCutoff p

section Found
variable {cfg : ClassCfg} {set : Option AddrSet} {flowtab : Option FlowTab} {flowCutoff : UInt32}
  {p : Bytes} {l3 : Nat}

theorem genericClass_found (h : header cfg.l2Off.toNat p = some l3) :
    genericClass cfg set flowtab flowCutoff p = genericAt set flowtab flowCutoff p l3 := by
  rw [genericClass, h]

theorem refineClass_found (h : header cfg.l2Off.toNat p = some l3) :
    refineClass cfg set flowtab flowCutoff p = refineAt cfg set flowtab flowCutoff p l3 := by
  rw [refineClass, h]

theorem genericClass_not_found (h : header cfg.l2Off.toNat p = none) :
    genericClass cfg set flowtab flowCutoff p = (0, flowtab) := by
  rw [genericClass, h]

theorem refineClass_not_found (h : header cfg.l2Off.toNat p = none) :
    refineClass cfg set flowtab flowCutoff p = (2, flowtab) := by
  rw [refineClass, h]

end Found

/-! The branches of the classifiers, one equation for each way to a class. -/

section Branches
variable {cfg : ClassCfg} {set : Option AddrSet} (flowtab : Option FlowTab) (flowCutoff : UInt32)
  {p : Bytes} {l3 : Nat}

theorem genericAt_hit (hm : AddrMatch set p l3) :
    genericAt set flowtab flowCutoff p l3 = (2, flowtab) := if_pos hm

theorem genericAt_miss (hm : ¬ AddrMatch set p l3) :
    (genericAt set flowtab flowCutoff p l3).1 = 0 ∨
      (genericAt set flowtab flowCutoff p l3).1 = 1 := by
  unfold genericAt
  rw [if_neg hm]
  cases flowtab with
  | none => exact Or.inl rfl
  | some f =>
    simp only
    split
    · simp only
      split
      · exact Or.inr rfl
      · exact Or.inl rfl
    · exact Or.inl rfl

theorem genericAt_silent (hm : ¬ AddrMatch set p l3) (hports : ¬ HasPorts p l3) :
    genericAt set flowtab flowCutoff p l3 = (0, flowtab) := by
  unfold genericAt
  rw [if_neg hm]
  cases flowtab with
  | none => rfl
  | some f => exact if_neg fun hc => hports hc.2

theorem genericAt_tableless (hm : ¬ AddrMatch set p l3) :
    genericAt set none flowCutoff p l3 = (0, none) := if_neg hm

/-- Behind the address set a packet with ports is counted. -/
theorem genericAt_counted (f : FlowTab) (hm : ¬ AddrMatch set p l3) (hcut : flowCutoff ≠ 0)
    (hports : HasPorts p l3) :
    genericAt set (some f) flowCutoff p l3 =
      (if (flowSeen f (flowAt p l3).key).1 < flowCutoff then 1 else 0,
        some (flowSeen f (flowAt p l3).key).2) := by
  unfold genericAt
  rw [if_neg hm]
  exact if_pos ⟨hcut, hports⟩

theorem genericAt_match_iff :
    (genericAt set flowtab flowCutoff p l3).1 = 2 ↔ AddrMatch set p l3 := by
  constructor
  · intro h
    by_contra hm
    have hmiss := genericAt_miss flowtab flowCutoff hm
    omega
  · intro hm
    rw [genericAt_hit flowtab flowCutoff hm]

theorem refineAt_rule (hcls : transportClass cfg p l3 ≠ 2) :
    refineAt cfg set flowtab flowCutoff p l3 = (transportClass cfg p l3, flowtab) := if_pos hcls

theorem refineAt_hit (hcls : transportClass cfg p l3 = 2) (hm : AddrMatch set p l3) :
    refineAt cfg set flowtab flowCutoff p l3 = (3, flowtab) := by
  unfold refineAt
  rw [if_neg (not_not.mpr hcls), if_pos hm]

theorem refineAt_miss (hcls : transportClass cfg p l3 = 2) (hm : ¬ AddrMatch set p l3) :
    (refineAt cfg set flowtab flowCutoff p l3).1 = 2 ∨
      (refineAt cfg set flowtab flowCutoff p l3).1 = 4 := by
  unfold refineAt
  rw [if_neg (not_not.mpr hcls), if_neg hm]
  cases flowtab with
  | none => exact Or.inl rfl
  | some f =>
    simp only
    split
    · simp only
      split
      · exact Or.inr rfl
      · exact Or.inl rfl
    · exact Or.inl rfl

theorem refineAt_silent (hcls : transportClass cfg p l3 = 2) (hm : ¬ AddrMatch set p l3)
    (hports : ¬ HasPorts p l3) : refineAt cfg set flowtab flowCutoff p l3 = (2, flowtab) := by
  unfold refineAt
  rw [if_neg (not_not.mpr hcls), if_neg hm]
  cases flowtab with
  | none => rfl
  | some f => exact if_neg fun hc => hports hc.1

/-- Below the rules of `mt_classify` an address counts first. -/
theorem refineAt_rules (cfg : ClassCfg) (set : Option AddrSet) (p : Bytes) (l3 : Nat) :
    (transportClass cfg p l3 ≠ 2 ∧
        (refineAt cfg set flowtab flowCutoff p l3).1 = transportClass cfg p l3) ∨
      (transportClass cfg p l3 = 2 ∧ AddrMatch set p l3 ∧
        (refineAt cfg set flowtab flowCutoff p l3).1 = 3) ∨
      (transportClass cfg p l3 = 2 ∧ ¬ AddrMatch set p l3 ∧
        ((refineAt cfg set flowtab flowCutoff p l3).1 = 2 ∨
          (refineAt cfg set flowtab flowCutoff p l3).1 = 4)) := by
  by_cases hcls : transportClass cfg p l3 = 2
  · by_cases hm : AddrMatch set p l3
    · exact Or.inr (Or.inl ⟨hcls, hm, by rw [refineAt_hit flowtab flowCutoff hcls hm]⟩)
    · exact Or.inr (Or.inr ⟨hcls, hm, refineAt_miss flowtab flowCutoff hcls hm⟩)
  · exact Or.inl ⟨hcls, by rw [refineAt_rule flowtab flowCutoff hcls]⟩

end Branches

/-- A UDP packet from 10.0.0.1 port 1000 to 10.0.0.2 port 2000. -/
def udpPacket : Packet where
  bytes := [0, 0, 0, 0, 0, 2, 0, 0, 0, 0, 0, 1, 0x08, 0x00,
    0x45, 0, 0, 28, 0, 0, 0, 0, 64, 17, 0, 0, 10, 0, 0, 1, 10, 0, 0, 2,
    0x03, 0xe8, 0x07, 0xd0, 0, 8, 0, 0]
  small := by decide

end PcapyNg
