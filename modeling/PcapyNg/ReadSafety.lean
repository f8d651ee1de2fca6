import PcapyNg.ClassifyRun
import PcapyNg.LoopSetup

/-!
# No packet byte is read out of bounds and no offset wraps

The classifiers once more, with every sum and difference of offsets refused where 32 bits
do not hold it. Reads and unset fields already fault. A checked classifier is shown to do
what the unchecked one does, so none of the refusals ever happens.
-/

namespace PcapyNg
set_option autoImplicit false

inductive Hazard where
  | fault (f : Fault)
  | wraps
  deriving DecidableEq

/-- A step that computes no offset of its own. -/
def plain {α : Type} : Except Fault α → Except Hazard α
  | .ok a => .ok a
  | .error f => .error (.fault f)

instance liftFault : MonadLift (Except Fault) (Except Hazard) where
  monadLift := plain

def addOff (a b : UInt32) : Except Hazard UInt32 :=
  if a.toNat + b.toNat < 2 ^ 32 then .ok (a + b) else .error .wraps

def subOff (a b : UInt32) : Except Hazard UInt32 :=
  if b.toNat ≤ a.toNat then .ok (a - b) else .error .wraps

/-- `(b & 0x0f) * 4` -/
def headerLength (b : UInt8) : Except Hazard UInt32 :=
  if (b &&& 0x0f).toNat * 4 < 2 ^ 32 then .ok ((b &&& 0x0f).toUInt32 * 4) else .error .wraps

def checkedWord (p : Bytes) (i : UInt32) : Except Hazard UInt32 := do
  let a ← readByte p i
  let b ← readByte p (← addOff i 1)
  let c ← readByte p (← addOff i 2)
  let d ← readByte p (← addOff i 3)
  return wordLE a b c d

def checkedPort (p : Bytes) (i : UInt32) : Except Hazard UInt16 := do
  let hi ← readByte p i
  let lo ← readByte p (← addOff i 1)
  return hi.toUInt16 <<< 8 ||| lo.toUInt16

def checkedVlanTpid (p : Bytes) (l2 : UInt32) : Except Hazard Bool := do
  let hi ← readByte p (← subOff l2 2)
  let lo ← readByte p (← subOff l2 1)
  return (hi == 0x81 && lo == 0x00) || (hi == 0x88 && lo == 0xa8)

/-- The header search, the same in `mt_classify` and `locate_ipv4`. -/
def checkedHeaderFrom (p : Bytes) (len : UInt32) : Nat → Nat → UInt32 → Except Hazard (Option UInt32)
  | 0, _, _ => .error (.fault .diverges)
  | fuel + 1, vguard, l2 => do
    if len < (← addOff l2 20) then return none
    else
      let first ← readByte p l2
      if first >>> 4 = 4 then return some l2
      else if vguard ≥ 2 ∨ l2 < 2 then return none
      else if ← checkedVlanTpid p l2 then
        checkedHeaderFrom p len fuel (vguard + 1) (← addOff l2 4)
      else return none

def checkedLocateIpv4 (l2 : UInt32) (p : Bytes) (len : UInt32) : Except Hazard (Option UInt32) :=
  checkedHeaderFrom p len 3 0 l2

def checkedMtClassifyTcp (cfg : ClassCfg) (p : Bytes) (len l4 : UInt32) (sport dport : UInt16) :
    Except Hazard Nat := do
  let flags ← readByte p (← addOff l4 13)
  if flags = 0x02 then return 5
  else
    let offset ← readByte p (← addOff l4 12)
    let tcphl ← headerLength (offset >>> 4)
    if tcphl ≥ 20 ∧ len > (← addOff l4 tcphl) ∧
        cfg.dpiPorts.any (fun port => sport = port || dport = port) then return 1
    else return 2

def checkedMtClassify (cfg : ClassCfg) (p : Bytes) (len : UInt32) :
    Except Hazard (Nat × PktInfo) := do
  let o : PktInfo := {}
  match ← checkedHeaderFrom p len 3 0 cfg.l2Off with
  | none => return (2, o)
  | some l2 =>
    let o := { o with l3 := some l2, ipv4 := true }
    let first ← readByte p l2
    let ihl ← headerLength first
    if ihl < 20 then return (2, o)
    else
      let l4 ← addOff l2 ihl
      let proto ← readByte p (← addOff l2 9)
      let o := { o with proto := some proto.toUInt32 }
      if proto ≠ 17 ∧ proto ≠ 6 then return (2, o)
      else if len < (← addOff l4 4) then return (2, o)
      else
        let sport ← checkedPort p l4
        let dport ← checkedPort p (← addOff l4 2)
        let o := { o with cand := true, l4 := some l4, sport := some sport, dport := some dport }
        if sport = cfg.dnsPort ∨ dport = cfg.dnsPort then return (0, o)
        else if proto = 6 ∧ len ≥ (← addOff l4 14) then
          let cls ← checkedMtClassifyTcp cfg p len l4 sport dport
          return (cls, o)
        else return (2, o)

def checkedClassifyGeneric (cfg : ClassCfg) (set : Option IpSet) (flowtab : Option FlowTab)
    (flowCutoff : UInt32) (p : Bytes) (len : UInt32) : Except Hazard (Nat × Option FlowTab) := do
  match ← checkedLocateIpv4 cfg.l2Off p len with
  | none => return (0, flowtab)
  | some l3 =>
    let sip ← checkedWord p (← addOff l3 12)
    let dip ← checkedWord p (← addOff l3 16)
    if ← addrHit set sip dip then return (2, flowtab)
    else
      match flowtab with
      | none => return (0, none)
      | some f =>
        if flowCutoff = 0 then return (0, some f)
        else
          let proto ← readByte p (← addOff l3 9)
          if proto = 6 ∨ proto = 17 then
            let first ← readByte p l3
            let ihl ← headerLength first
            let l4 ← addOff l3 ihl
            if ihl ≥ 20 ∧ len ≥ (← addOff l4 4) then
              let sp ← checkedPort p l4
              let dp ← checkedPort p (← addOff l4 2)
              let (seen, f) := flowSeen f (flowKey sip dip sp.toUInt32 dp.toUInt32 proto.toUInt32)
              return (if seen < flowCutoff then 1 else 0, some f)
            else return (0, some f)
          else return (0, some f)

def checkedClassifyRefine (cfg : ClassCfg) (ioc : Option IpSet) (flowtab : Option FlowTab)
    (flowCutoff : UInt32) (pkt : Bytes) (caplen : UInt32) :
    Except Hazard (Nat × Option FlowTab) := do
  let (cls, pi) ← checkedMtClassify cfg pkt caplen
  if cls = 2 ∧ pi.ipv4 ∧ (ioc.isSome ∨ flowtab.isSome) then
    let l2 ← readField pi.l3
    let sip ← checkedWord pkt (← addOff l2 12)
    let dip ← checkedWord pkt (← addOff l2 16)
    if ← addrHit ioc sip dip then return (3, flowtab)
    else if pi.cand then
      match flowtab with
      | none => return (cls, none)
      | some f =>
        let sport ← readField pi.sport
        let dport ← readField pi.dport
        if mtIsTlsPort cfg sport dport then
          let proto ← readField pi.proto
          let (seen, f) := flowSeen f (flowKey sip dip sport.toUInt32 dport.toUInt32 proto)
          return (if seen < flowCutoff then 4 else cls, some f)
        else return (cls, some f)
    else return (cls, flowtab)
  else return (cls, flowtab)

def checkedClassifyDispatch (cfg : ClassCfg) (set : Option IpSet) (flowtab : Option FlowTab)
    (flowCutoff : UInt32) (pkt : Bytes) (caplen : UInt32) :
    Except Hazard (Nat × Option FlowTab) :=
  if cfg.profile = 1 then checkedClassifyRefine cfg set flowtab flowCutoff pkt caplen
  else checkedClassifyGeneric cfg set flowtab flowCutoff pkt caplen

/-! Checked steps that pass. -/

@[simp] theorem plain_ok {α : Type} (a : α) : plain (.ok a) = .ok a := rfl

@[simp] theorem plain_error {α : Type} (f : Fault) :
    plain (.error f : Except Fault α) = .error (.fault f) := rfl

@[simp] theorem plain_pure {α : Type} (a : α) : plain (pure a) = pure a := rfl

@[simp] theorem plain_bind {α β : Type} (x : Except Fault α) (k : α → Except Fault β) :
    plain (x >>= k) = plain x >>= fun a => plain (k a) := by
  cases x <;> rfl

theorem plain_ite {α : Type} (c : Prop) [Decidable c] (x y : Except Fault α) :
    plain (if c then x else y) = if c then plain x else plain y := apply_ite plain c x y

theorem lift_eq_plain {α : Type} (x : Except Fault α) :
    (liftM x : Except Hazard α) = plain x := rfl

theorem addOff_eq {a b : UInt32} (h : a.toNat + b.toNat < 2 ^ 32) : addOff a b = .ok (a + b) :=
  if_pos h

theorem subOff_eq {a b : UInt32} (h : b.toNat ≤ a.toNat) : subOff a b = .ok (a - b) := if_pos h

theorem headerLength_eq (b : UInt8) : headerLength b = .ok ((b &&& 0x0f).toUInt32 * 4) := by
  have h : (b &&& 0x0f).toNat ≤ 15 := by
    rw [UInt8.toNat_and]
    exact Nat.and_le_right
  exact if_pos (by omega)

theorem ok_bind {ε α β : Type} (a : α) (k : α → Except ε β) : (.ok a : Except ε α) >>= k = k a :=
  rfl

theorem checkedWord_eq (p : Bytes) {i : UInt32} (hi : i.toNat ≤ 1000) :
    checkedWord p i = plain (readWord p i) := by
  have h1 : addOff i 1 = .ok (i + 1) := addOff_eq (by simp; omega)
  have h2 : addOff i 2 = .ok (i + 2) := addOff_eq (by simp; omega)
  have h3 : addOff i 3 = .ok (i + 3) := addOff_eq (by simp; omega)
  simp only [checkedWord, readWord, lift_eq_plain, h1, h2, h3, plain_bind, ok_bind, plain_pure]

theorem checkedPort_eq (p : Bytes) {i : UInt32} (hi : i.toNat ≤ 1000) :
    checkedPort p i = plain (readPort p i) := by
  have h1 : addOff i 1 = .ok (i + 1) := addOff_eq (by simp; omega)
  simp only [checkedPort, readPort, lift_eq_plain, h1, plain_bind, ok_bind, plain_pure]

theorem checkedVlanTpid_eq (p : Bytes) {l2 : UInt32} (hlow : 2 ≤ l2.toNat) :
    checkedVlanTpid p l2 = plain (isVlanTpid p l2) := by
  have h2 : subOff l2 2 = .ok (l2 - 2) := subOff_eq hlow
  have h1 : subOff l2 1 = .ok (l2 - 1) := subOff_eq (by simp; omega)
  simp only [checkedVlanTpid, isVlanTpid, lift_eq_plain, h1, h2, plain_bind, ok_bind, plain_pure]

theorem checkedHeaderFrom_eq (p : Bytes) (len : UInt32) (fuel vguard : Nat) {l2 : UInt32}
    (hl2 : l2.toNat + 4 * fuel ≤ 1000) :
    checkedHeaderFrom p len fuel vguard l2 = plain (mtHeaderFrom p len fuel vguard l2) := by
  induction fuel generalizing vguard l2 with
  | zero => rfl
  | succ fuel ih =>
    have h20 : addOff l2 20 = .ok (l2 + 20) := addOff_eq (by simp; omega)
    have h4 : addOff l2 4 = .ok (l2 + 4) := addOff_eq (by simp; omega)
    have h4' : (l2 + 4).toNat = l2.toNat + 4 := add_toNat rfl rfl (by omega)
    have hnext := ih (vguard + 1) (by omega : (l2 + 4).toNat + 4 * fuel ≤ 1000)
    simp only [checkedHeaderFrom, mtHeaderFrom, lift_eq_plain, h20, h4, ok_bind, plain_ite,
      plain_bind, plain_pure, hnext]
    by_cases hguard : vguard ≥ 2 ∨ l2 < 2
    · simp only [if_pos hguard]
    · have hlow : 2 ≤ l2.toNat := by
        have h := fun h => hguard (Or.inr (UInt32.lt_iff_toNat_lt.mpr h))
        exact Nat.le_of_not_lt h
      simp only [if_neg hguard, checkedVlanTpid_eq p hlow]

theorem mtHeaderFrom_le {p : Bytes} {len : UInt32} {fuel vguard : Nat} {l2 r : UInt32}
    (hl2 : l2.toNat + 4 * fuel ≤ 1000) (h : mtHeaderFrom p len fuel vguard l2 = .ok (some r)) :
    r.toNat ≤ l2.toNat + 4 * fuel := by
  induction fuel generalizing vguard l2 with
  | zero => cases h
  | succ fuel ih =>
    have h4 : (l2 + 4).toNat = l2.toNat + 4 := add_toNat rfl rfl (by omega)
    rw [mtHeaderFrom] at h
    split at h
    · cases h
    obtain ⟨first, -, h⟩ := bind_eq_ok.mp h
    split at h
    · cases h
      omega
    split at h
    · cases h
    obtain ⟨tag, -, h⟩ := bind_eq_ok.mp h
    split at h
    · have hr := ih (by omega) h
      omega
    · cases h

theorem headerLength_le (b : UInt8) : ((b &&& 0x0f).toUInt32 * 4).toNat ≤ 60 := by
  have h : (b &&& 0x0f).toNat ≤ 15 := by
    rw [UInt8.toNat_and]
    exact Nat.and_le_right
  rw [nibble_toNat]
  omega

theorem addOff_headerLength {i : UInt32} (hi : i.toNat ≤ 900) (b : UInt8) :
    addOff i ((b &&& 0x0f).toUInt32 * 4) = .ok (i + (b &&& 0x0f).toUInt32 * 4) ∧
      (i + (b &&& 0x0f).toUInt32 * 4).toNat ≤ i.toNat + 60 := by
  have hle := headerLength_le b
  refine ⟨addOff_eq (by omega), ?_⟩
  rw [add_toNat rfl rfl (by omega)]
  omega

/-- The sums formed from the offset of a transport header. -/
theorem addOff_l4 {l4 : UInt32} (hl4 : l4.toNat ≤ 900) :
    addOff l4 2 = .ok (l4 + 2) ∧ addOff l4 4 = .ok (l4 + 4) ∧ addOff l4 12 = .ok (l4 + 12) ∧
      addOff l4 13 = .ok (l4 + 13) ∧ addOff l4 14 = .ok (l4 + 14) := by
  refine ⟨addOff_eq ?_, addOff_eq ?_, addOff_eq ?_, addOff_eq ?_, addOff_eq ?_⟩ <;> simp <;> omega

theorem checkedPorts_eq (p : Bytes) {l4 : UInt32} (hl4 : l4.toNat ≤ 900) :
    checkedPort p l4 = plain (readPort p l4) ∧
      checkedPort p (l4 + 2) = plain (readPort p (l4 + 2)) := by
  have h2 : (l4 + 2).toNat = l4.toNat + 2 := add_toNat rfl rfl (by omega)
  exact ⟨checkedPort_eq p (by omega), checkedPort_eq p (by omega)⟩

theorem checkedMtClassifyTcp_eq (cfg : ClassCfg) (p : Bytes) (len : UInt32) {l4 : UInt32}
    (hl4 : l4.toNat ≤ 900) (sport dport : UInt16) :
    checkedMtClassifyTcp cfg p len l4 sport dport =
      plain (mtClassifyTcp cfg p len l4 sport dport) := by
  obtain ⟨-, -, h12, h13, -⟩ := addOff_l4 hl4
  simp only [checkedMtClassifyTcp, mtClassifyTcp, lift_eq_plain, h13, h12, headerLength_eq,
    (addOff_headerLength hl4 _).1, ok_bind, plain_ite, plain_bind, plain_pure]

theorem checkedMtClassify_eq (cfg : ClassCfg) (hoff : cfg.l2Off.toNat ≤ 64) (p : Bytes)
    (len : UInt32) : checkedMtClassify cfg p len = plain (mtClassify cfg p len) := by
  rw [checkedMtClassify, mtClassify, checkedHeaderFrom_eq p len 3 0 (by omega)]
  cases hsearch : mtHeaderFrom p len 3 0 cfg.l2Off with
  | error f => rfl
  | ok hdr =>
    cases hdr with
    | none => rfl
    | some l2 =>
      have hle := mtHeaderFrom_le (by omega) hsearch
      have h9 : addOff l2 9 = .ok (l2 + 9) := addOff_eq (by simp; omega)
      simp only [plain_ok, ok_bind, lift_eq_plain, headerLength_eq, plain_bind]
      cases readByte p l2 with
      | error f => rfl
      | ok first =>
        obtain ⟨hsum, hl4⟩ := addOff_headerLength (i := l2) (by omega) first
        have hle' : (l2 + (first &&& 0x0f).toUInt32 * 4).toNat ≤ 900 := by omega
        obtain ⟨h2, h4, -, -, h14⟩ := addOff_l4 hle'
        obtain ⟨hsport, hdport⟩ := checkedPorts_eq p hle'
        simp only [plain_ok, ok_bind, h9, hsum, h2, h4, h14, hsport, hdport, plain_ite, plain_bind,
          plain_pure, checkedMtClassifyTcp_eq cfg p len hle']

theorem checkedLocateIpv4_eq {l2 : UInt32} (hoff : l2.toNat ≤ 64) (p : Bytes) (len : UInt32) :
    checkedLocateIpv4 l2 p len = plain (locateIpv4 l2 p len) := by
  rw [checkedLocateIpv4, locateIpv4, checkedHeaderFrom_eq p len 3 0 (by omega),
    mtHeaderFrom_eq_locateIpv4From]

/-- Both addresses of the header at `l3`. -/
theorem checkedAddrs_eq (p : Bytes) {l3 : UInt32} (hl3 : l3.toNat ≤ 900) :
    addOff l3 12 = .ok (l3 + 12) ∧ addOff l3 16 = .ok (l3 + 16) ∧
      checkedWord p (l3 + 12) = plain (readWord p (l3 + 12)) ∧
      checkedWord p (l3 + 16) = plain (readWord p (l3 + 16)) := by
  have h12 : (l3 + 12).toNat = l3.toNat + 12 := add_toNat rfl rfl (by omega)
  have h16 : (l3 + 16).toNat = l3.toNat + 16 := add_toNat rfl rfl (by omega)
  refine ⟨addOff_eq ?_, addOff_eq ?_, checkedWord_eq p ?_, checkedWord_eq p ?_⟩
  · simp
    omega
  · simp
    omega
  · omega
  · omega

theorem checkedClassifyGeneric_eq (cfg : ClassCfg) (hoff : cfg.l2Off.toNat ≤ 64)
    (set : Option IpSet) (flowtab : Option FlowTab) (flowCutoff : UInt32) (p : Bytes)
    (len : UInt32) :
    checkedClassifyGeneric cfg set flowtab flowCutoff p len =
      plain (classifyGeneric cfg set flowtab flowCutoff p len) := by
  rw [checkedClassifyGeneric, classifyGeneric, checkedLocateIpv4_eq hoff]
  cases hloc : locateIpv4 cfg.l2Off p len with
  | error f => rfl
  | ok hdr =>
    cases hdr with
    | none => rfl
    | some l3 =>
      have hle : l3.toNat ≤ 900 := by
        rw [locateIpv4, ← mtHeaderFrom_eq_locateIpv4From] at hloc
        have h := mtHeaderFrom_le (by omega) hloc
        omega
      have h9 : addOff l3 9 = .ok (l3 + 9) := addOff_eq (by simp; omega)
      obtain ⟨h12, h16, hsip, hdip⟩ := checkedAddrs_eq p hle
      have hl4 : ∀ b : UInt8, (l3 + (b &&& 0x0f).toUInt32 * 4).toNat ≤ 900 := by
        intro b
        have h := (addOff_headerLength hle b).2
        have h3 : l3.toNat ≤ 76 := by
          rw [locateIpv4, ← mtHeaderFrom_eq_locateIpv4From] at hloc
          have h := mtHeaderFrom_le (by omega) hloc
          omega
        omega
      cases flowtab <;>
        simp only [plain_ok, ok_bind, lift_eq_plain, h12, h16, hsip, hdip, h9, headerLength_eq,
          fun b => (addOff_headerLength hle b).1, fun b => (addOff_l4 (hl4 b)).1,
          fun b => (addOff_l4 (hl4 b)).2.1, fun b => (checkedPorts_eq p (hl4 b)).1,
          fun b => (checkedPorts_eq p (hl4 b)).2, plain_ite, plain_bind, plain_pure]

theorem checkedClassifyRefine_eq (cfg : ClassCfg) (hoff : cfg.l2Off.toNat ≤ 64) (ioc : Option IpSet)
    (flowtab : Option FlowTab) (flowCutoff : UInt32) (p : Packet) :
    checkedClassifyRefine cfg ioc flowtab flowCutoff p.bytes p.caplen =
      plain (classifyRefine cfg ioc flowtab flowCutoff p.bytes p.caplen) := by
  rw [checkedClassifyRefine, classifyRefine, checkedMtClassify_eq cfg hoff]
  rcases header_search p hoff with ⟨r, -, hsearch, -, hr, hlen⟩ | ⟨-, hsearch, -⟩
  · obtain ⟨o, hmt, -, hl3, -⟩ := mtClassify_some cfg hsearch hr hlen
    have hread : readField o.l3 = .ok r := by rw [hl3, readField]
    have hle : r.toNat ≤ 900 := by omega
    obtain ⟨h12, h16, hsip, hdip⟩ := checkedAddrs_eq p.bytes hle
    cases flowtab <;>
      simp only [hmt, hread, plain_ok, ok_bind, lift_eq_plain, h12, h16, hsip, hdip, plain_ite,
        plain_bind, plain_pure]
  · rw [mtClassify_none cfg hsearch]
    simp [ok_bind]

theorem checkedClassifyDispatch_eq (cfg : ClassCfg) (hoff : cfg.l2Off.toNat ≤ 64)
    (ioc : Option IpSet) (flowtab : Option FlowTab) (flowCutoff : UInt32) (p : Packet) :
    checkedClassifyDispatch cfg ioc flowtab flowCutoff p.bytes p.caplen =
      plain (classifyDispatch cfg ioc flowtab flowCutoff p.bytes p.caplen) := by
  rw [checkedClassifyDispatch, classifyDispatch]
  split
  · exact checkedClassifyRefine_eq cfg hoff ioc flowtab flowCutoff p
  · exact checkedClassifyGeneric_eq cfg hoff ioc flowtab flowCutoff p.bytes p.caplen

/-- Whatever is captured, the four functions run to their end: every byte they read is captured,
every field they use is set, no offset wraps, and the class has its counter in the array of
`FilteredContext` and in that of `BufferCtx`. -/
theorem classifiers_read_safely (cfg : ClassCfg) (hoff : cfg.l2Off.toNat ≤ 64)
    (set : Option AddrSet) (flowtab : Option FlowTab) (flowCutoff : UInt32) (p : Packet) :
    (∃ hdr, checkedLocateIpv4 cfg.l2Off p.bytes p.caplen = .ok hdr ∧
      locateIpv4 cfg.l2Off p.bytes p.caplen = .ok hdr) ∧
    (∃ cls o, checkedMtClassify cfg p.bytes p.caplen = .ok (cls, o) ∧
      mtClassify cfg p.bytes p.caplen = .ok (cls, o)) ∧
    (∃ cls f, checkedClassifyGeneric cfg (setPtr set) flowtab flowCutoff p.bytes p.caplen =
        .ok (cls, f) ∧
      classifyGeneric cfg (setPtr set) flowtab flowCutoff p.bytes p.caplen = .ok (cls, f)) ∧
    (∃ cls f, checkedClassifyRefine cfg (setPtr set) flowtab flowCutoff p.bytes p.caplen =
        .ok (cls, f) ∧
      classifyRefine cfg (setPtr set) flowtab flowCutoff p.bytes p.caplen = .ok (cls, f)) ∧
    ∃ cls f, checkedClassifyDispatch cfg (setPtr set) flowtab flowCutoff p.bytes p.caplen =
        .ok (cls, f) ∧
      classifyDispatch cfg (setPtr set) flowtab flowCutoff p.bytes p.caplen = .ok (cls, f) ∧
      (∀ live : List UInt64, live.length = 8 → ∃ live', bump live (2 + cls) = .ok live') ∧
      ∀ counts : List UInt64, counts.length = 6 → ∃ counts', bump counts cls = .ok counts' := by
  have hgeneric := classifyGeneric_eq cfg hoff set flowtab flowCutoff p
  have hrefine := classifyRefine_eq cfg hoff set flowtab flowCutoff p
  have hdispatch := classifyDispatch_eq cfg hoff set flowtab flowCutoff p
  generalize dispatchClass cfg set flowtab flowCutoff p.bytes = result at hdispatch
  rcases result with ⟨k, f⟩
  have hsix : k < 6 := by
    have hlt := classifyDispatch_lt hdispatch
    unfold classCount at hlt
    split at hlt <;> omega
  refine ⟨?_, ?_, ?_, ?_, ?_⟩
  · rw [checkedLocateIpv4_eq hoff]
    rcases header_search p hoff with ⟨r, hloc, -⟩ | ⟨hloc, -⟩
    · exact ⟨some r, by rw [hloc, plain_ok], hloc⟩
    · exact ⟨none, by rw [hloc, plain_ok], hloc⟩
  · rw [checkedMtClassify_eq cfg hoff]
    rcases header_search p hoff with ⟨r, -, hsearch, -, hr, hlen⟩ | ⟨-, hsearch, -⟩
    · obtain ⟨o, hmt, -⟩ := mtClassify_some cfg hsearch hr hlen
      exact ⟨_, o, by rw [hmt, plain_ok], hmt⟩
    · have hmt := mtClassify_none cfg hsearch
      exact ⟨2, {}, by rw [hmt, plain_ok], hmt⟩
  · rw [checkedClassifyGeneric_eq cfg hoff, hgeneric]
    exact ⟨_, _, rfl, rfl⟩
  · rw [checkedClassifyRefine_eq cfg hoff, hrefine]
    exact ⟨_, _, rfl, rfl⟩
  · rw [checkedClassifyDispatch_eq cfg hoff, hdispatch]
    refine ⟨_, _, rfl, rfl, ?_, ?_⟩
    · intro live hlive
      exact ⟨_, if_pos (by omega)⟩
    · intro counts hcounts
      exact ⟨_, if_pos (by omega)⟩

/-- A TLS packet with a word of IP options behind an 802.1ad and an 802.1Q tag, from
10.0.0.1:40000 to 8.8.8.8:443. -/
def taggedTls : Packet where
  bytes := [0, 0, 0, 0, 0, 0, 0, 0, 0, 0, 0, 0, 0x88, 0xa8, 0x20, 0x07, 0x81, 0x00, 0x20, 0x08,
    0x08, 0x00,
    0x46, 0, 0, 45, 0, 9, 0x40, 0, 64, 6, 0, 0, 10, 0, 0, 1, 8, 8, 8, 8, 1, 1, 1, 0,
    0x9c, 0x40, 0x01, 0xbb, 0, 0, 0, 1, 0, 0, 0, 1, 0x50, 0x18, 0xff, 0xff, 0, 0, 0, 0, 22]
  small := by decide

def tlsCfg : ClassCfg := ⟨53, [80], [443], 14, 1⟩

theorem classifiers_read_safely_tagged :
    ∃ set : Option AddrSet, ipsetBuild {} [10, 0, 0, 9] = .ok (setPtr set) ∧
    (∃ hdr, checkedLocateIpv4 14 taggedTls.bytes taggedTls.caplen = .ok hdr ∧
      locateIpv4 14 taggedTls.bytes taggedTls.caplen = .ok hdr) ∧
    (∃ cls o, checkedMtClassify tlsCfg taggedTls.bytes taggedTls.caplen = .ok (cls, o) ∧
      mtClassify tlsCfg taggedTls.bytes taggedTls.caplen = .ok (cls, o)) ∧
    (∃ cls f, checkedClassifyGeneric tlsCfg (setPtr set) (flowtabBuild {} 4) 1 taggedTls.bytes
        taggedTls.caplen = .ok (cls, f) ∧
      classifyGeneric tlsCfg (setPtr set) (flowtabBuild {} 4) 1 taggedTls.bytes
        taggedTls.caplen = .ok (cls, f)) ∧
    (∃ cls f, checkedClassifyRefine tlsCfg (setPtr set) (flowtabBuild {} 4) 1 taggedTls.bytes
        taggedTls.caplen = .ok (cls, f) ∧
      classifyRefine tlsCfg (setPtr set) (flowtabBuild {} 4) 1 taggedTls.bytes
        taggedTls.caplen = .ok (cls, f)) ∧
    (∃ cls f, checkedClassifyDispatch tlsCfg (setPtr set) (flowtabBuild {} 4) 1 taggedTls.bytes
        taggedTls.caplen = .ok (cls, f) ∧
      classifyDispatch tlsCfg (setPtr set) (flowtabBuild {} 4) 1 taggedTls.bytes
        taggedTls.caplen = .ok (cls, f) ∧
      (∀ live : List UInt64, live.length = 8 → ∃ live', bump live (2 + cls) = .ok live') ∧
      ∀ counts : List UInt64, counts.length = 6 → ∃ counts', bump counts cls = .ok counts') ∧
    (checkedLocateIpv4 14 taggedTls.bytes taggedTls.caplen).toOption = some (some 22) ∧
    ((checkedClassifyRefine tlsCfg (setPtr set) (flowtabBuild {} 4) 1 taggedTls.bytes
      taggedTls.caplen).toOption.map Prod.fst) = some 4 := by
  obtain ⟨s, hbuild, -⟩ := ipsetBuild_spec [10, 0, 0, 9] (by decide)
  obtain ⟨hlocate, hmt, hgeneric, hrefine, hdispatch⟩ := classifiers_read_safely tlsCfg (by decide)
    (some s) (flowtabBuild {} 4) 1 taggedTls
  refine ⟨some s, hbuild, hlocate, hmt, hgeneric, hrefine, hdispatch, by decide, ?_⟩
  have hclass : ((ipsetBuild {} [10, 0, 0, 9]).toOption.bind fun ioc =>
      (checkedClassifyRefine tlsCfg ioc (flowtabBuild {} 4) 1 taggedTls.bytes
        taggedTls.caplen).toOption.map Prod.fst) = some 4 := by decide
  rw [hbuild] at hclass
  exact hclass

end PcapyNg
