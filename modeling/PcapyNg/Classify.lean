import PcapyNg.AddressSet
import PcapyNg.FlowTable

/-!
# The two classifiers: `mt_classify`, `classify_generic`, `classify_refine`

Offsets are `unsigned int`, every byte is read through `readByte`, and the fields of
`mt_pktinfo` stay unset until the path that writes them, so an embedded classifier
faults wherever the source would read past the capture or read a field no path wrote.
-/

namespace PcapyNg
set_option autoImplicit false

/-- `struct mt_classcfg`; a port array and its length are one list. -/
structure ClassCfg where
  dnsPort : UInt16
  dpiPorts : List UInt16
  tlsPorts : List UInt16
  l2Off : UInt32
  profile : Int
  deriving DecidableEq

/-- `struct mt_pktinfo`; `none` is a field not yet written. -/
structure PktInfo where
  cand : Bool := false
  ipv4 : Bool := false
  proto : Option UInt32 := none
  l3 : Option UInt32 := none
  l4 : Option UInt32 := none
  sport : Option UInt16 := none
  dport : Option UInt16 := none
  deriving DecidableEq

def readField {α : Type} : Option α → Except Fault α
  | some a => .ok a
  | none => .error .uninitialised

/-- `(p[l2 - 2] == 0x81 && p[l2 - 1] == 0x00) || (p[l2 - 2] == 0x88 && p[l2 - 1] == 0xa8)` -/
def isVlanTpid (p : Bytes) (l2 : UInt32) : Except Fault Bool := do
  let hi ← readByte p (l2 - 2)
  let lo ← readByte p (l2 - 1)
  return (hi == 0x81 && lo == 0x00) || (hi == 0x88 && lo == 0xa8)

/-- `(p[i] << 8) | p[i + 1]` as an `unsigned short` -/
def readPort (p : Bytes) (i : UInt32) : Except Fault UInt16 := do
  let hi ← readByte p i
  let lo ← readByte p (i + 1)
  return hi.toUInt16 <<< 8 ||| lo.toUInt16

/-- The header search of `mt_classify`; `none` is its `return 2`. The loop body runs at most
three times, `vguard` stopping it at the latest. -/
def mtHeaderFrom (p : Bytes) (len : UInt32) : Nat → Nat → UInt32 → Except Fault (Option UInt32)
  | 0, _, _ => .error .diverges
  | fuel + 1, vguard, l2 => do
    if len < l2 + 20 then return none
    else
      let first ← readByte p l2
      if first >>> 4 = 4 then return some l2
      else if vguard ≥ 2 ∨ l2 < 2 then return none
      else if ← isVlanTpid p l2 then mtHeaderFrom p len fuel (vguard + 1) (l2 + 4)
      else return none

def mtClassifyTcp (cfg : ClassCfg) (p : Bytes) (len l4 : UInt32) (sport dport : UInt16) :
    Except Fault Nat := do
  let flags ← readByte p (l4 + 13)
  if flags = 0x02 then return 5
  else
    let offset ← readByte p (l4 + 12)
    let tcphl := ((offset >>> 4) &&& 0x0f).toUInt32 * 4
    if tcphl ≥ 20 ∧ len > l4 + tcphl ∧
        cfg.dpiPorts.any (fun port => sport = port || dport = port) then return 1
    else return 2

def mtClassify (cfg : ClassCfg) (p : Bytes) (len : UInt32) : Except Fault (Nat × PktInfo) := do
  let o : PktInfo := {}
  match ← mtHeaderFrom p len 3 0 cfg.l2Off with
  | none => return (2, o)
  | some l2 =>
    let o := { o with l3 := some l2, ipv4 := true }
    let first ← readByte p l2
    let ihl := (first &&& 0x0f).toUInt32 * 4
    if ihl < 20 then return (2, o)
    else
      let l4 := l2 + ihl
      let proto ← readByte p (l2 + 9)
      let o := { o with proto := some proto.toUInt32 }
      if proto ≠ 17 ∧ proto ≠ 6 then return (2, o)
      else if len < l4 + 4 then return (2, o)
      else
        let sport ← readPort p l4
        let dport ← readPort p (l4 + 2)
        let o := { o with cand := true, l4 := some l4, sport := some sport, dport := some dport }
        if sport = cfg.dnsPort ∨ dport = cfg.dnsPort then return (0, o)
        else if proto = 6 ∧ len ≥ l4 + 14 then
          let cls ← mtClassifyTcp cfg p len l4 sport dport
          return (cls, o)
        else return (2, o)

def mtIsTlsPort (cfg : ClassCfg) (sport dport : UInt16) : Bool :=
  cfg.tlsPorts.any fun port => sport = port || dport = port

def locateIpv4From (p : Bytes) (len : UInt32) : Nat → Nat → UInt32 → Except Fault (Option UInt32)
  | 0, _, _ => .error .diverges
  | fuel + 1, vguard, l2 => do
    if len < l2 + 20 then return none
    else
      let first ← readByte p l2
      if first >>> 4 = 4 then return some l2
      else if vguard ≥ 2 ∨ l2 < 2 then return none
      else if ← isVlanTpid p l2 then locateIpv4From p len fuel (vguard + 1) (l2 + 4)
      else return none

/-- The offset of the IPv4 header; `none` is the source's -1. -/
def locateIpv4 (l2 : UInt32) (p : Bytes) (len : UInt32) : Except Fault (Option UInt32) :=
  locateIpv4From p len 3 0 l2

/-- `set && (ipset_has(set, sip) || ipset_has(set, dip))` -/
def addrHit (set : Option IpSet) (sip dip : UInt32) : Except Fault Bool := do
  if set.isNone then return false
  else if ← ipsetHas set sip then return true
  else ipsetHas set dip

/-- 0 OTHER, 1 FLOW_HEAD, 2 SET_MATCH; the flow table as it is left behind. -/
def classifyGeneric (cfg : ClassCfg) (set : Option IpSet) (flowtab : Option FlowTab)
    (flowCutoff : UInt32) (p : Bytes) (len : UInt32) : Except Fault (Nat × Option FlowTab) := do
  match ← locateIpv4 cfg.l2Off p len with
  | none => return (0, flowtab)
  | some l3 =>
    let sip ← readWord p (l3 + 12)
    let dip ← readWord p (l3 + 16)
    if ← addrHit set sip dip then return (2, flowtab)
    else
      match flowtab with
      | none => return (0, none)
      | some f =>
        if flowCutoff = 0 then return (0, some f)
        else
          let proto ← readByte p (l3 + 9)
          if proto = 6 ∨ proto = 17 then
            let first ← readByte p l3
            let ihl := (first &&& 0x0f).toUInt32 * 4
            let l4 := l3 + ihl
            if ihl ≥ 20 ∧ len ≥ l4 + 4 then
              let sp ← readPort p l4
              let dp ← readPort p (l4 + 2)
              let (seen, f) := flowSeen f (flowKey sip dip sp.toUInt32 dp.toUInt32 proto.toUInt32)
              return (if seen < flowCutoff then 1 else 0, some f)
            else return (0, some f)
          else return (0, some f)

/-- 0 DNS, 1 HTTP, 2 OTHER, 3 ADDR, 4 HANDSHAKE, 5 SYN; the flow table as it is left behind. -/
def classifyRefine (cfg : ClassCfg) (ioc : Option IpSet) (flowtab : Option FlowTab)
    (flowCutoff : UInt32) (pkt : Bytes) (caplen : UInt32) :
    Except Fault (Nat × Option FlowTab) := do
  let (cls, pi) ← mtClassify cfg pkt caplen
  if cls = 2 ∧ pi.ipv4 ∧ (ioc.isSome ∨ flowtab.isSome) then
    let l2 ← readField pi.l3
    let sip ← readWord pkt (l2 + 12)
    let dip ← readWord pkt (l2 + 16)
    if ← addrHit ioc sip dip then return (3, flowtab)
    else if pi.cand then
      match flowtab with
      | none => return (cls, none)
      | some f =>
        let sport ← readField pi.sport
        let dport ← readField pi.dport
        if mtIsTlsPort cfg sport dport then
          let proto ← readField pi.proto
          let (seen, f) := flowSeen f (flowKey sip dip sport.toUInt32 dport.toUInt32 proto)
          return (if seen < flowCutoff then 4 else cls, some f)
        else return (cls, some f)
    else return (cls, flowtab)
  else return (cls, flowtab)

def classifyDispatch (cfg : ClassCfg) (set : Option IpSet) (flowtab : Option FlowTab)
    (flowCutoff : UInt32) (pkt : Bytes) (caplen : UInt32) : Except Fault (Nat × Option FlowTab) :=
  if cfg.profile = 1 then classifyRefine cfg set flowtab flowCutoff pkt caplen
  else classifyGeneric cfg set flowtab flowCutoff pkt caplen

def profileBase (cfg : ClassCfg) : Nat := if cfg.profile = 1 then 100 else 0

/-! The range of the class indices, whatever the table and the capture. -/

/-- `mt_classify` leaves 3 and 4 to the refinement. -/
theorem mtClassify_lt {cfg : ClassCfg} {p : Bytes} {len : UInt32} {cls : Nat} {o : PktInfo}
    (h : mtClassify cfg p len = .ok (cls, o)) : cls < 6 := by
  unfold mtClassify at h
  obtain ⟨hdr, -, h⟩ := bind_eq_ok.mp h
  cases hdr with
  | none => cases h; decide
  | some l2 =>
    obtain ⟨first, -, h⟩ := bind_eq_ok.mp h
    simp only at h
    split at h
    · cases h; decide
    obtain ⟨proto, -, h⟩ := bind_eq_ok.mp h
    split at h
    · cases h; decide
    split at h
    · cases h; decide
    obtain ⟨sport, -, h⟩ := bind_eq_ok.mp h
    obtain ⟨dport, -, h⟩ := bind_eq_ok.mp h
    split at h
    · cases h; decide
    split at h
    · obtain ⟨c, hc, h⟩ := bind_eq_ok.mp h
      cases h
      unfold mtClassifyTcp at hc
      obtain ⟨flags, -, hc⟩ := bind_eq_ok.mp hc
      split at hc
      · cases hc; decide
      obtain ⟨offset, -, hc⟩ := bind_eq_ok.mp hc
      simp only at hc
      split at hc <;> cases hc <;> decide
    · cases h; decide

theorem classifyRefine_lt {cfg : ClassCfg} {ioc : Option IpSet} {flowtab f : Option FlowTab}
    {flowCutoff : UInt32} {pkt : Bytes} {caplen : UInt32} {k : Nat}
    (h : classifyRefine cfg ioc flowtab flowCutoff pkt caplen = .ok (k, f)) : k < 6 := by
  unfold classifyRefine at h
  obtain ⟨⟨cls, pi⟩, hcls, h⟩ := bind_eq_ok.mp h
  have hlt := mtClassify_lt hcls
  simp only at h
  split at h
  · obtain ⟨l2, -, h⟩ := bind_eq_ok.mp h
    obtain ⟨sip, -, h⟩ := bind_eq_ok.mp h
    obtain ⟨dip, -, h⟩ := bind_eq_ok.mp h
    obtain ⟨hit, -, h⟩ := bind_eq_ok.mp h
    split at h
    · cases h; decide
    split at h
    · split at h
      · cases h; exact hlt
      obtain ⟨sport, -, h⟩ := bind_eq_ok.mp h
      obtain ⟨dport, -, h⟩ := bind_eq_ok.mp h
      split at h
      · obtain ⟨proto, -, h⟩ := bind_eq_ok.mp h
        cases h
        split
        · decide
        · exact hlt
      · cases h; exact hlt
    · cases h; exact hlt
  · cases h; exact hlt

theorem classifyGeneric_lt {cfg : ClassCfg} {set : Option IpSet} {flowtab f : Option FlowTab}
    {flowCutoff : UInt32} {p : Bytes} {len : UInt32} {k : Nat}
    (h : classifyGeneric cfg set flowtab flowCutoff p len = .ok (k, f)) : k < 3 := by
  unfold classifyGeneric at h
  obtain ⟨l3, -, h⟩ := bind_eq_ok.mp h
  cases l3 with
  | none => cases h; decide
  | some l3 =>
    obtain ⟨sip, -, h⟩ := bind_eq_ok.mp h
    obtain ⟨dip, -, h⟩ := bind_eq_ok.mp h
    obtain ⟨hit, -, h⟩ := bind_eq_ok.mp h
    split at h
    · cases h; decide
    split at h
    · cases h; decide
    split at h
    · cases h; decide
    obtain ⟨proto, -, h⟩ := bind_eq_ok.mp h
    split at h
    · obtain ⟨first, -, h⟩ := bind_eq_ok.mp h
      simp only at h
      split at h
      · obtain ⟨sp, -, h⟩ := bind_eq_ok.mp h
        obtain ⟨dp, -, h⟩ := bind_eq_ok.mp h
        cases h
        split <;> decide
      · cases h; decide
    · cases h; decide

def classCount (profile : Int) : Nat := if profile = 1 then 6 else 3

theorem classifyDispatch_lt {cfg : ClassCfg} {set : Option IpSet} {flowtab f : Option FlowTab}
    {flowCutoff : UInt32} {pkt : Bytes} {caplen : UInt32} {k : Nat}
    (h : classifyDispatch cfg set flowtab flowCutoff pkt caplen = .ok (k, f)) :
    k < classCount cfg.profile := by
  unfold classifyDispatch at h
  unfold classCount
  split at h
  · rw [if_pos ‹_›]
    exact classifyRefine_lt h
  · rw [if_neg ‹_›]
    exact classifyGeneric_lt h

end PcapyNg
