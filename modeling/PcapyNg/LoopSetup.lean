import PcapyNg.ClassifyRun
import PcapyNg.PcapObject

/-!
# What `loop_filtered` and `loop_to_buffer` share

Both entry points check the same arguments, build the same classifier from them and ask
the admit mask about every class index; only the text for a bad profile differs.
-/

namespace PcapyNg
open ReadLoop
set_option autoImplicit false

/-- A Python object passed for ports: not a sequence, or its items as `PyLong_AsLong` reads them. -/
inductive PySeq where
  | notSequence
  | items (items : List (Except PyExc Int64))

/-- The parsed arguments and their defaults. `none` is an argument left out, for the port lists
also None; `addr_set` is parsed by `y#`, to which None is a TypeError. -/
structure LoopArgs where
  cnt : Int32
  admitMask : Int32 := 7
  addrSet : Option Bytes := none
  flowCutoff : Int32 := 0
  dpiPorts : Option PySeq := none
  tlsPorts : Option PySeq := none
  dnsPort : Int32 := 53
  l2Offset : Int32 := 14
  profile : Int32 := 0

structure LoopAlloc where
  dpi : Bool := true
  tls : Bool := true
  ipset : IpSetAlloc := {}
  flowtab : FlowTabAlloc := {}

/-- `(unsigned short)(v & 0xffff)` -/
def portOf (v : Int64) : UInt16 := (v &&& 0xffff).toUInt64.toUInt16

/-- `seq_to_ports`; the array and its length, which is an `unsigned int`, are one list. -/
def seqToPorts (malloc : Bool) (seq : Option PySeq) : Except PyExc (List UInt16) :=
  match seq with
  | none => .ok []
  | some .notSequence => .error (.typeError "ports must be a sequence of ints")
  | some (.items []) => .ok []
  | some (.items (x :: xs)) => do
    if !malloc then throw .memoryError
    let vs ← (x :: xs).mapM id
    return (vs.map portOf).take (UInt32.ofNat vs.length).toNat

def mtDpiPortsDefault : List UInt16 := [80, 8080, 3128, 8000, 8118, 1080]
def mtTlsPortsDefault : List UInt16 := [443]

/-- The argument checks in order, and `cfg`. -/
def classCfg (profileError : String) (alloc : LoopAlloc) (args : LoopArgs) :
    Except PyExc ClassCfg := do
  if args.l2Offset < 0 ∨ args.l2Offset > 64 then
    throw (.valueError "l2_offset out of range [0,64]")
  if args.profile ≠ 0 ∧ args.profile ≠ 1 then throw (.valueError profileError)
  let dpiPorts ← seqToPorts alloc.dpi args.dpiPorts
  let tlsPorts ← seqToPorts alloc.tls args.tlsPorts
  return {
    dnsPort := args.dnsPort.toUInt32.toUInt16
    dpiPorts := if args.dpiPorts.isSome then dpiPorts else mtDpiPortsDefault
    tlsPorts := if args.tlsPorts.isSome then tlsPorts else mtTlsPortsDefault
    l2Off := args.l2Offset.toUInt32
    profile := args.profile.toInt }

/-- The fields of `FilteredContext` and of `BufferCtx` that the classifier works on. -/
structure Classifier where
  cfg : ClassCfg
  ioc : Option IpSet
  flowtab : Option FlowTab
  flowCutoff : UInt32

/-- `(iocbuf && ioclen >= 4) ? ipset_build(iocbuf, ioclen) : NULL` -/
def buildIoc (alloc : LoopAlloc) (addrSet : Option Bytes) : Except Fault (Option IpSet) :=
  match addrSet with
  | none => .ok none
  | some data => if 4 ≤ data.length then ipsetBuild alloc.ipset data else .ok none

/-- Everything before the loop: an exception for the caller, or the classifier. -/
def loopSetup (profileError : String) (alloc : LoopAlloc) (args : LoopArgs) :
    Except Fault (Except PyExc Classifier) :=
  match classCfg profileError alloc args with
  | .error e => .ok (.error e)
  | .ok cfg => do
    let ioc ← buildIoc alloc args.addrSet
    let flowCutoff := if args.flowCutoff > 0 then args.flowCutoff.toUInt32 else 0
    let flowtab := if flowCutoff ≠ 0 then flowtabBuild alloc.flowtab 20 else none
    return .ok ⟨cfg, ioc, flowtab, flowCutoff⟩

def Classifier.classify (cl : Classifier) (flowtab : Option FlowTab) (r : Record) :
    Except Fault (Nat × Option FlowTab) :=
  classifyDispatch cl.cfg cl.ioc flowtab cl.flowCutoff r.data r.hdr.caplen

def Classifier.classes (cl : Classifier) (rs : List Record) :
    Except Fault (List Nat × Option FlowTab) :=
  classifyAll cl.classify cl.flowtab rs

/-- A callback that may fault; once it has, nothing is defined any more. -/
def faultHandler {σ : Type} (k : σ → Record → Except Fault (σ × Bool)) :
    Handler (Except Fault σ) Record
  | .error e, _ => (.error e, false)
  | .ok s, r =>
    match k s r with
    | .error e => (.error e, false)
    | .ok (s, brk) => (.ok s, brk)

/-- `a[i]++` on an array of `unsigned long long` -/
def bump (a : List UInt64) (i : Nat) : Except Fault (List UInt64) :=
  if i < a.length then .ok (a.modify i (· + 1)) else .error .outOfBounds

/-! The bit test `(admit_mask >> idx) & 1`, also for negative masks. -/

def Admits (mask : Int32) (k : Nat) : Prop := mask.toBitVec.getLsbD k = true

instance (mask : Int32) (k : Nat) : Decidable (Admits mask k) := by
  unfold Admits
  infer_instance

theorem admit_bit_iff {mask : Int32} {k : Nat} (hk : k < 6) :
    (mask >>> Int32.ofNat k) &&& 1 = 0 ↔ ¬ Admits mask k := by
  have hamount : ∀ k < 6, ((Int32.ofNat k).toBitVec.smod 32).toNat = k := by decide
  have hbit : ((mask >>> Int32.ofNat k) &&& 1).toBitVec =
      (BitVec.ofBool (mask.toBitVec.getLsbD k)).setWidth 32 := by
    rw [Int32.toBitVec_and, Int32.toBitVec_shiftRight, BitVec.sshiftRight_eq', hamount k hk]
    apply (BitVec.and_one_eq_setWidth_ofBool_getLsbD (x := mask.toBitVec.sshiftRight k)).trans
    rw [BitVec.getLsbD_sshiftRight]
    simp [(by omega : k < 32)]
  rw [← Int32.toBitVec_inj, hbit, Admits]
  cases mask.toBitVec.getLsbD k <;> decide

/-! Counters as they are after packets of the classes `ks`. -/

def tally (ks : List Nat) : List UInt64 := (List.range 6).map fun k => UInt64.ofNat (ks.count k)

theorem bump_cons (x : UInt64) (a : List UInt64) (i : Nat) :
    bump (x :: a) (i + 1) = (bump a i).map (x :: ·) := by
  rw [bump, bump]
  by_cases hi : i < a.length
  · rw [if_pos hi, if_pos (by simpa using hi)]
    rfl
  · rw [if_neg hi, if_neg (by simpa using hi)]
    rfl

theorem bump_tally {ks : List Nat} {k : Nat} (hk : k < 6) :
    bump (tally ks) k = .ok (tally (ks ++ [k])) := by
  have hlen : (tally ks).length = 6 := by simp [tally]
  rw [bump, if_pos (by rw [hlen]; exact hk)]
  congr 1
  apply List.ext_getElem
  · simp [tally]
  intro i hi hi'
  rw [List.getElem_modify]
  simp only [tally, List.getElem_map, List.getElem_range, List.count_append, List.count_singleton]
  by_cases hik : k = i
  · subst hik
    simp [UInt64.ofNat_add]
  · simp [hik]
/-! A checked configuration classifies every capture without a fault. -/

theorem nonneg_toNat_le {x : Int32} (hx : ¬ (x < 0 ∨ x > 64)) : x.toUInt32.toNat ≤ 64 := by
  rw [not_or, Int32.not_lt, Int32.not_lt, Int32.le_iff_toInt_le, Int32.le_iff_toInt_le] at hx
  have hcond : x.toInt = if 2 * x.toUInt32.toNat < 2 ^ 32 then (x.toUInt32.toNat : Int)
      else x.toUInt32.toNat - (2 ^ 32 : Nat) := BitVec.toInt_eq_toNat_cond x.toBitVec
  have h0 : (0 : Int32).toInt = 0 := rfl
  have h64 : (64 : Int32).toInt = 64 := rfl
  have hlt := x.toUInt32.toNat_lt
  rw [h0, h64] at hx
  split at hcond <;> omega

/-- The configuration that the arguments make with these two port lists. -/
def LoopArgs.cfgOf (args : LoopArgs) (dpi tls : List UInt16) : ClassCfg where
  dnsPort := args.dnsPort.toUInt32.toUInt16
  dpiPorts := if args.dpiPorts.isSome then dpi else mtDpiPortsDefault
  tlsPorts := if args.tlsPorts.isSome then tls else mtTlsPortsDefault
  l2Off := args.l2Offset.toUInt32
  profile := args.profile.toInt

theorem classCfg_eq_ok {profileError : String} {alloc : LoopAlloc} {args : LoopArgs}
    {cfg : ClassCfg} : classCfg profileError alloc args = .ok cfg ↔
      ¬ (args.l2Offset < 0 ∨ args.l2Offset > 64) ∧ ¬ (args.profile ≠ 0 ∧ args.profile ≠ 1) ∧
      ∃ dpi tls, seqToPorts alloc.dpi args.dpiPorts = .ok dpi ∧
        seqToPorts alloc.tls args.tlsPorts = .ok tls ∧ cfg = args.cfgOf dpi tls := by
  rw [classCfg]
  constructor
  · intro h
    split at h
    · cases h
    · rename_i hoff
      simp only at h
      split at h
      · cases h
      · rename_i hprof
        obtain ⟨dpi, hdpi, h⟩ := bind_eq_ok.mp h
        obtain ⟨tls, htls, h⟩ := bind_eq_ok.mp h
        cases h
        exact ⟨hoff, hprof, dpi, tls, hdpi, htls, rfl⟩
  · intro hex
    rcases hex with ⟨hoff, hprof, dpi, tls, hdpi, htls, rfl⟩
    rw [if_neg hoff, if_neg hprof]
    simp only [hdpi, htls, bind, Except.bind]
    rfl

theorem classCfg_l2Off {profileError : String} {alloc : LoopAlloc} {args : LoopArgs} {cfg : ClassCfg}
    (h : classCfg profileError alloc args = .ok cfg) : cfg.l2Off.toNat ≤ 64 := by
  obtain ⟨hoff, -, dpi, tls, -, -, rfl⟩ := classCfg_eq_ok.mp h
  exact nonneg_toNat_le hoff

theorem classCfg_profile {profileError : String} {alloc : LoopAlloc} {args : LoopArgs}
    {cfg : ClassCfg} (h : classCfg profileError alloc args = .ok cfg) :
    cfg.profile = args.profile.toInt := by
  obtain ⟨-, -, dpi, tls, -, -, rfl⟩ := classCfg_eq_ok.mp h
  rfl

theorem ipsetBuild_ok (alloc : IpSetAlloc) {data : Bytes} (hsmall : data.length / 4 ≤ 2 ^ 30) :
    ∃ set : Option AddrSet, ipsetBuild alloc data = .ok (setPtr set) := by
  obtain ⟨s, hs, -⟩ := ipsetBuild_spec data hsmall
  by_cases hset : alloc.set
  · by_cases hslots : alloc.slots
    · refine ⟨some s, ?_⟩
      rw [show alloc = {} by cases alloc; simp_all, hs]
      rfl
    · exact ⟨none, by simp [ipsetBuild, hset, hslots, setPtr]; rfl⟩
  · exact ⟨none, by simp [ipsetBuild, hset, setPtr]; rfl⟩

theorem Classifier.classes_eq {cl : Classifier} {set : Option AddrSet}
    (hoff : cl.cfg.l2Off.toNat ≤ 64) (hioc : cl.ioc = setPtr set) (rs : List Record) :
    cl.classes rs = .ok (classAll (fun flowtab r =>
      dispatchClass cl.cfg set flowtab cl.flowCutoff r.data) cl.flowtab rs) := by
  refine classifyAll_eq (fun flowtab r => ?_) cl.flowtab rs
  have h := classifyDispatch_eq cl.cfg hoff set flowtab cl.flowCutoff r.packet
  rw [r.packet_caplen, ← hioc] at h
  exact h

/-- With up to 2^30 addresses, what passes the checks classifies every capture. -/
theorem loopSetup_classifies {profileError : String} {alloc : LoopAlloc} {args : LoopArgs}
    (hsmall : ∀ data, args.addrSet = some data → data.length / 4 ≤ 2 ^ 30) :
    (∃ e, loopSetup profileError alloc args = .ok (.error e)) ∨
      ∃ cl, loopSetup profileError alloc args = .ok (.ok cl) ∧
        ∀ rs, ∃ ks flowtab, cl.classes rs = .ok (ks, flowtab) := by
  rw [loopSetup]
  cases hcfg : classCfg profileError alloc args with
  | error e => exact Or.inl ⟨e, rfl⟩
  | ok cfg =>
    right
    have hioc : ∃ set : Option AddrSet, buildIoc alloc args.addrSet = .ok (setPtr set) := by
      unfold buildIoc
      split
      · exact ⟨none, rfl⟩
      · rename_i data hdata
        split
        · exact ipsetBuild_ok alloc.ipset (hsmall data hdata)
        · exact ⟨none, rfl⟩
    rcases hioc with ⟨set, hset⟩
    simp only [hset]
    exact ⟨_, rfl, fun rs => ⟨_, _, Classifier.classes_eq (classCfg_l2Off hcfg) rfl rs⟩⟩

section Setup
variable {profileError : String} {alloc : LoopAlloc} {args : LoopArgs} {cl : Classifier}

theorem loopSetup_cfg (h : loopSetup profileError alloc args = .ok (.ok cl)) :
    classCfg profileError alloc args = .ok cl.cfg := by
  rw [loopSetup] at h
  cases hcfg : classCfg profileError alloc args with
  | error e =>
    rw [hcfg] at h
    cases h
  | ok cfg =>
    rw [hcfg] at h
    obtain ⟨ioc, -, h⟩ := bind_eq_ok.mp h
    cases h
    rfl

theorem toInt_eq_one_iff {x : Int32} : x.toInt = 1 ↔ x = 1 :=
  ⟨fun h => Int32.toInt_inj.mp h, fun h => h ▸ rfl⟩

theorem loopSetup_base (h : loopSetup profileError alloc args = .ok (.ok cl)) :
    profileBase cl.cfg = if args.profile = 1 then 100 else 0 := by
  rw [profileBase, classCfg_profile (loopSetup_cfg h)]
  simp only [toInt_eq_one_iff]

theorem loopSetup_classCount (h : loopSetup profileError alloc args = .ok (.ok cl)) :
    classCount cl.cfg.profile = if args.profile = 1 then 6 else 3 := by
  rw [classCount, classCfg_profile (loopSetup_cfg h)]
  simp only [toInt_eq_one_iff]

theorem classes_lt {rs : List Record} {ks : List Nat} {flowtab : Option FlowTab}
    (h : loopSetup profileError alloc args = .ok (.ok cl)) (hks : cl.classes rs = .ok (ks, flowtab)) :
    ∀ k ∈ ks, k < if args.profile = 1 then 6 else 3 := by
  rw [← loopSetup_classCount h]
  exact classifyAll_mem (fun _ _ _ _ hk => classifyDispatch_lt hk) hks

end Setup
end PcapyNg
