import PcapyNg.ReaderCalls
import PcapyNg.LoopToBuffer

/-!
# Failures while a run is set up

Both entry points check their arguments, copy two port lists and build two tables before the
first packet. A check or a copy that fails raises; a table that cannot be built is passed on as
NULL, which the classifiers take for a table not asked for.
-/

namespace PcapyNg
open ReadLoop
set_option autoImplicit false

/-! What the caller asked for. -/

/-- `ports` is the sequence given, or the default. -/
def PortsAsked (default : List UInt16) (ports : List UInt16) : Option PySeq → Prop
  | none => ports = default
  | some .notSequence => False
  | some (.items items) => ∃ vs : List Int64, items = vs.map .ok ∧ ports = vs.map portOf

/-- The whole addresses of `addr_set`. -/
def wholeAddrs (addrSet : Option Bytes) : List UInt32 := packedWords (addrSet.getD [])

def AddrsAsked (addrSet : Option Bytes) (ioc : Option IpSet) : Prop :=
  if wholeAddrs addrSet = [] then ioc = none
  else ∃ set : AddrSet, ioc = some set.table ∧
    ∀ ip, set.Mem ip ↔ ip ≠ 0 ∧ ip ∈ wholeAddrs addrSet

def CutoffAsked (flowCutoff : Int32) (cl : Classifier) : Prop :=
  if 0 < flowCutoff then
    cl.flowCutoff = flowCutoff.toUInt32 ∧ cl.flowtab = flowtabBuild {} 20
  else cl.flowCutoff = 0 ∧ cl.flowtab = none

/-- The classifier is the one that the arguments ask for. -/
structure Requested (args : LoopArgs) (cl : Classifier) : Prop where
  dns : cl.cfg.dnsPort = args.dnsPort.toUInt32.toUInt16
  offset : cl.cfg.l2Off = args.l2Offset.toUInt32
  profile : cl.cfg.profile = args.profile.toInt
  dpi : PortsAsked mtDpiPortsDefault cl.cfg.dpiPorts args.dpiPorts
  tls : PortsAsked mtTlsPortsDefault cl.cfg.tlsPorts args.tlsPorts
  addrs : AddrsAsked args.addrSet cl.ioc
  cutoff : CutoffAsked args.flowCutoff cl

section Entries
variable (lib : Libpcap) (alloc : LoopAlloc) (pp : PcapObject) (args : LoopArgs)

/-- `loop_filtered` raises with the Reader as it was and no call made, or counts and hands over
every packet it takes by the class that the requested classifier gives it. -/
def FilteredAllOrNothing (f : PyFunc) : Prop :=
  (∃ e, loopSetup filteredProfileError alloc args = .ok (.error e) ∧
    pLoopFiltered lib alloc pp args f = .ok (.raise e, pp, [])) ∨
  ∃ cl, loopSetup filteredProfileError alloc args = .ok (.ok cl) ∧ Requested args cl ∧
    (∀ rs, ∃ ks flowtab, cl.classes rs = .ok (ks, flowtab)) ∧
    ∀ o pp' made, pLoopFiltered lib alloc pp args f = .ok (o, pp', made) →
      ∃ c' done ks flowtab, pp.left = done ++ pp'.left ∧ cl.classes done = .ok (ks, flowtab) ∧
        pp' = ⟨some c', liveCounts args.admitMask ks, args.profile⟩ ∧
        made = delivered args.admitMask (profileBase cl.cfg) done ks

/-- `loop_to_buffer` raises with the Reader and the buffer as they were, or counts every packet it
takes under the class that the requested classifier gives it. -/
def BufferAllOrNothing (view : WritableBuf) : Prop :=
  (∃ e, loopSetup bufferProfileError alloc args = .ok (.error e) ∧
    pLoopToBuffer lib alloc pp args view = .ok (.raise e, pp, view.bytes)) ∨
  ∃ cl, loopSetup bufferProfileError alloc args = .ok (.ok cl) ∧ Requested args cl ∧
    (∀ rs, ∃ ks flowtab, cl.classes rs = .ok (ks, flowtab)) ∧
    ∀ o pp' buf, pLoopToBuffer lib alloc pp args view = .ok (o, pp', buf) →
      ∃ c' done ks flowtab last, pp.left = done ++ pp'.left ∧ cl.classes done = .ok (ks, flowtab) ∧
        pp' = { pp with pcap := some c' } ∧ o = .ret (BufferCtx.result last args.profile) ∧
        buf = last.buf ∧ last.cls = tally ks

end Entries

/-! When that is what the classifier is. -/

/-- The length of the sequence fits the `unsigned int` that carries it. -/
def PortsFit : Option PySeq → Prop
  | some (.items items) => items.length < 2 ^ 32
  | _ => True

def PortsAccepted (malloc : Bool) : Option PySeq → Prop
  | none => True
  | some .notSequence => False
  | some (.items items) => (items = [] ∨ malloc = true) ∧ ∃ vs : List Int64, items = vs.map .ok

/-- The checks that raise all pass. -/
structure Accepted (alloc : LoopAlloc) (args : LoopArgs) : Prop where
  offset : ¬ (args.l2Offset < 0 ∨ args.l2Offset > 64)
  profile : ¬ (args.profile ≠ 0 ∧ args.profile ≠ 1)
  dpi : PortsAccepted alloc.dpi args.dpiPorts
  tls : PortsAccepted alloc.tls args.tlsPorts

/-- No table that is asked for lacks its memory, and no length is too long for its counter. -/
structure Supplied (alloc : LoopAlloc) (args : LoopArgs) : Prop where
  dpi : PortsFit args.dpiPorts
  tls : PortsFit args.tlsPorts
  addrs : ∀ data, args.addrSet = some data → 4 ≤ data.length → alloc.ipset = {} ∧ SetFits data
  flows : 0 < args.flowCutoff → alloc.flowtab = {}

section Ports
variable {malloc : Bool} {seq : Option PySeq} {ports : List UInt16}

theorem mapM_id_ok {xs : List (Except PyExc Int64)} {vs : List Int64} :
    xs.mapM id = .ok vs ↔ xs = vs.map .ok := by
  induction xs generalizing vs with
  | nil =>
    rw [List.mapM_nil]
    cases vs with
    | nil => exact iff_of_true rfl rfl
    | cons v vs => exact iff_of_false (fun h => by cases h) (fun h => by cases h)
  | cons x xs ih =>
    rw [List.mapM_cons, bind_eq_ok]
    constructor
    · intro hex
      rcases hex with ⟨v, hx, h⟩
      obtain ⟨vs', hxs, h⟩ := bind_eq_ok.mp h
      cases h
      rw [List.map_cons, ← ih.mp hxs]
      exact congrArg (· :: xs) hx
    · intro h
      cases vs with
      | nil => cases h
      | cons v vs =>
        obtain ⟨rfl, hxs⟩ := List.cons.inj h
        refine ⟨v, rfl, ?_⟩
        rw [ih.mpr hxs]
        rfl

theorem seqToPorts_items {items : List (Except PyExc Int64)} :
    seqToPorts malloc (some (.items items)) = .ok ports ↔
      (items = [] ∨ malloc = true) ∧ ∃ vs : List Int64, items = vs.map .ok ∧
        ports = (vs.map portOf).take (UInt32.ofNat vs.length).toNat := by
  cases items with
  | nil =>
    rw [seqToPorts]
    constructor
    · intro h
      cases h
      exact ⟨Or.inl rfl, [], rfl, rfl⟩
    · intro hex
      rcases hex with ⟨-, vs, hvs, rfl⟩
      rw [List.map_eq_nil_iff.mp hvs.symm]
      rfl
  | cons x xs =>
    rw [seqToPorts]
    cases malloc with
    | false => exact iff_of_false (fun h => by cases h) (by simp)
    | true =>
      simp only [Bool.not_true, Bool.false_eq_true, if_false, or_true, true_and]
      constructor
      · intro h
        obtain ⟨vs, hvs, h⟩ := bind_eq_ok.mp h
        cases h
        exact ⟨vs, mapM_id_ok.mp hvs, rfl⟩
      · intro hex
        rcases hex with ⟨vs, hvs, rfl⟩
        rw [mapM_id_ok.mpr hvs]
        rfl

theorem portsAccepted_iff : (∃ ports, seqToPorts malloc seq = .ok ports) ↔ PortsAccepted malloc seq := by
  match seq with
  | none => exact iff_of_true ⟨[], rfl⟩ trivial
  | some .notSequence => exact iff_of_false (fun ⟨_, h⟩ => by cases h) id
  | some (.items items) =>
    constructor
    · intro hex
      rcases hex with ⟨ports, h⟩
      obtain ⟨hmem, vs, hvs, -⟩ := seqToPorts_items.mp h
      exact ⟨hmem, vs, hvs⟩
    · intro hex
      rcases hex with ⟨hmem, vs, hvs⟩
      exact ⟨_, seqToPorts_items.mpr ⟨hmem, vs, hvs, rfl⟩⟩

theorem portsAsked_iff {default : List UInt16} (h : seqToPorts malloc seq = .ok ports) :
    PortsAsked default (if seq.isSome then ports else default) seq ↔ PortsFit seq := by
  match seq with
  | none => exact iff_of_true rfl trivial
  | some .notSequence => cases h
  | some (.items items) =>
    obtain ⟨-, vs, rfl, rfl⟩ := seqToPorts_items.mp h
    rw [Option.isSome_some, if_pos rfl, PortsFit, List.length_map]
    constructor
    · intro hex
      rcases hex with ⟨vs', hvs, htake⟩
      have hlen := congrArg List.length htake
      have hlen' := congrArg List.length hvs
      rw [List.length_take, List.length_map, List.length_map] at hlen
      rw [List.length_map, List.length_map] at hlen'
      rw [UInt32.toNat_ofNat'] at hlen
      have := Nat.mod_lt vs.length (Nat.two_pow_pos 32)
      omega
    · intro hsmall
      refine ⟨vs, rfl, List.take_of_length_le ?_⟩
      rw [List.length_map, UInt32.toNat_ofNat_of_lt' hsmall]

end Ports

section Tables
variable {alloc : LoopAlloc} {args : LoopArgs}

theorem wholeAddrs_eq_nil {data : Bytes} : wholeAddrs (some data) = [] ↔ data.length < 4 := by
  rw [wholeAddrs, Option.getD_some, packedWords, List.map_eq_nil_iff, List.range_eq_nil]
  omega

/-- With an allocation failed the table is NULL. -/
theorem ipsetBuild_starved {mem : IpSetAlloc} (h : mem ≠ {}) (data : Bytes) :
    ipsetBuild mem data = .ok none := by
  rcases mem with ⟨set, slots⟩
  cases set with
  | false => rfl
  | true =>
    cases slots with
    | false => rfl
    | true => exact absurd rfl h

theorem flowtabBuild_starved {mem : FlowTabAlloc} (h : mem ≠ {}) (bits : UInt32) :
    flowtabBuild mem bits = none := by
  rcases mem with ⟨tab, keys, cnt⟩
  cases tab with
  | false => rfl
  | true =>
    cases keys with
    | false => rfl
    | true =>
      cases cnt with
      | false => rfl
      | true => exact absurd rfl h

theorem addrsAsked_iff {ioc : Option IpSet} (h : buildIoc alloc args.addrSet = .ok ioc) :
    AddrsAsked args.addrSet ioc ↔
      ∀ data, args.addrSet = some data → 4 ≤ data.length → alloc.ipset = {} ∧ SetFits data := by
  cases hset : args.addrSet with
  | none =>
    rw [hset] at h
    cases h
    exact iff_of_true rfl fun _ hd => by cases hd
  | some data =>
    rw [hset, buildIoc] at h
    rw [AddrsAsked]
    by_cases hshort : data.length < 4
    · rw [if_neg (by omega)] at h
      cases h
      rw [if_pos (wholeAddrs_eq_nil.mpr hshort)]
      refine iff_of_true rfl fun data' hd hlong => ?_
      cases hd
      omega
    · rw [if_pos (by omega)] at h
      rw [if_neg (mt wholeAddrs_eq_nil.mp hshort)]
      constructor
      · rintro ⟨set, rfl, hmem⟩ data' hd -
        cases hd
        have hfull : alloc.ipset = {} := by
          by_contra hstarved
          rw [ipsetBuild_starved hstarved] at h
          cases h
        rw [hfull] at h
        exact ⟨hfull, (ipsetBuild_iff data).mp ⟨set, h, hmem⟩⟩
      · intro hsupplied
        obtain ⟨hfull, hfits⟩ := hsupplied data rfl (by omega)
        obtain ⟨set, hbuild, hmem⟩ := (ipsetBuild_iff data).mpr hfits
        rw [hfull, hbuild] at h
        cases h
        exact ⟨set, rfl, hmem⟩

/-- Building the set fails to return only where it should not be relied on. -/
theorem buildIoc_ok (h : ∀ data, args.addrSet = some data → 4 ≤ data.length →
    alloc.ipset = {} ∧ SetFits data) : ∃ ioc, buildIoc alloc args.addrSet = .ok ioc := by
  cases hset : args.addrSet with
  | none => exact ⟨none, rfl⟩
  | some data =>
    rw [buildIoc]
    split
    · rename_i hlong
      obtain ⟨hfull, hfits⟩ := h data hset hlong
      obtain ⟨set, hbuild, -⟩ := (ipsetBuild_iff data).mpr hfits
      exact ⟨_, by rw [hfull, hbuild]⟩
    · exact ⟨none, rfl⟩

def cutoffOf (args : LoopArgs) : UInt32 := if args.flowCutoff > 0 then args.flowCutoff.toUInt32 else 0

theorem toUInt32_ne_zero {x : Int32} (h : 0 < x) : x.toUInt32 ≠ 0 := by
  intro h0
  have hx : x = ⟨0⟩ := by rw [← h0]
  rw [hx] at h
  exact absurd h (by decide)

theorem cutoffAsked_iff {cl : Classifier} (hcut : cl.flowCutoff = cutoffOf args)
    (htab : cl.flowtab = if cutoffOf args ≠ 0 then flowtabBuild alloc.flowtab 20 else none) :
    CutoffAsked args.flowCutoff cl ↔ (0 < args.flowCutoff → alloc.flowtab = {}) := by
  rw [CutoffAsked, hcut, htab, cutoffOf]
  by_cases hpos : 0 < args.flowCutoff
  · rw [if_pos hpos, if_pos hpos, if_pos (toUInt32_ne_zero hpos)]
    constructor
    · rintro ⟨-, hbuilt⟩ -
      by_contra hstarved
      rw [flowtabBuild_starved hstarved] at hbuilt
      cases hbuilt
    · intro hfull
      rw [hfull hpos]
      exact ⟨rfl, rfl⟩
  · rw [if_neg hpos, if_neg hpos]
    exact iff_of_true ⟨rfl, rfl⟩ fun h => absurd h hpos

end Tables

section Setup
variable (text : String) {alloc : LoopAlloc} {args : LoopArgs}

theorem classCfg_error (h : ¬ Accepted alloc args) : ∃ e, classCfg text alloc args = .error e := by
  cases hcfg : classCfg text alloc args with
  | error e => exact ⟨e, rfl⟩
  | ok cfg =>
    exfalso
    apply h
    obtain ⟨hoff, hprof, dpi, tls, hdpi, htls, -⟩ := classCfg_eq_ok.mp hcfg
    exact ⟨hoff, hprof, portsAccepted_iff.mp ⟨dpi, hdpi⟩, portsAccepted_iff.mp ⟨tls, htls⟩⟩

theorem classCfg_accepted (h : Accepted alloc args) :
    ∃ dpi tls, seqToPorts alloc.dpi args.dpiPorts = .ok dpi ∧
      seqToPorts alloc.tls args.tlsPorts = .ok tls ∧
      classCfg text alloc args = .ok (args.cfgOf dpi tls) := by
  obtain ⟨dpi, hdpi⟩ := portsAccepted_iff.mpr h.dpi
  obtain ⟨tls, htls⟩ := portsAccepted_iff.mpr h.tls
  refine ⟨dpi, tls, hdpi, htls, ?_⟩
  exact classCfg_eq_ok.mpr ⟨h.offset, h.profile, dpi, tls, hdpi, htls, rfl⟩

variable {text}

/-- Past the checks, the classifier is the requested one exactly if everything was supplied. -/
theorem setup_requested_iff (h : Accepted alloc args) :
    (∃ cl, loopSetup text alloc args = .ok (.ok cl) ∧ Requested args cl) ↔ Supplied alloc args := by
  obtain ⟨dpi, tls, hdpi, htls, hcfg⟩ := classCfg_accepted text h
  constructor
  · intro hex
    rcases hex with ⟨cl, hsetup, hreq⟩
    rw [loopSetup, hcfg] at hsetup
    obtain ⟨ioc, hioc, hsetup⟩ := bind_eq_ok.mp hsetup
    cases hsetup
    exact ⟨(portsAsked_iff hdpi).mp hreq.dpi, (portsAsked_iff htls).mp hreq.tls,
      (addrsAsked_iff hioc).mp hreq.addrs, (cutoffAsked_iff (by rfl) (by rfl)).mp hreq.cutoff⟩
  · intro hsupplied
    obtain ⟨ioc, hioc⟩ := buildIoc_ok hsupplied.addrs
    have hsetup : ∃ cfg, classCfg text alloc args = .ok cfg ∧
        loopSetup text alloc args = .ok (.ok ⟨cfg, ioc,
          if cutoffOf args ≠ 0 then flowtabBuild alloc.flowtab 20 else none, cutoffOf args⟩) := by
      refine ⟨_, hcfg, ?_⟩
      rw [loopSetup, hcfg]
      simp only [hioc, bind, Except.bind]
      rfl
    rcases hsetup with ⟨cfg, hcfg', hsetup⟩
    obtain rfl := Except.ok.inj (hcfg.symm.trans hcfg')
    exact ⟨_, hsetup, rfl, rfl, rfl, (portsAsked_iff hdpi).mpr hsupplied.dpi,
      (portsAsked_iff htls).mpr hsupplied.tls, (addrsAsked_iff hioc).mpr hsupplied.addrs,
      (cutoffAsked_iff rfl rfl).mpr hsupplied.flows⟩

theorem setup_raises_iff :
    (∃ e, loopSetup text alloc args = .ok (.error e)) ↔ ¬ Accepted alloc args := by
  constructor
  · rintro ⟨e, he⟩ haccepted
    obtain ⟨dpi, tls, -, -, hcfg⟩ := classCfg_accepted text haccepted
    rw [loopSetup, hcfg] at he
    obtain ⟨ioc, -, he⟩ := bind_eq_ok.mp he
    cases he
  · intro hrejected
    obtain ⟨e, he⟩ := classCfg_error text hrejected
    refine ⟨e, ?_⟩
    rw [loopSetup, he]

theorem requested_classifies {cl : Classifier} (hsetup : loopSetup text alloc args = .ok (.ok cl))
    (hreq : Requested args cl) (rs : List Record) :
    ∃ ks flowtab, cl.classes rs = .ok (ks, flowtab) := by
  have hset : ∃ set : Option AddrSet, cl.ioc = setPtr set := by
    have haddrs := hreq.addrs
    rw [AddrsAsked] at haddrs
    split at haddrs
    · exact ⟨none, haddrs⟩
    · rcases haddrs with ⟨set, hioc, -⟩
      exact ⟨some set, hioc⟩
  rcases hset with ⟨set, hioc⟩
  exact ⟨_, _, Classifier.classes_eq (classCfg_l2Off (loopSetup_cfg hsetup)) hioc rs⟩

/-- An entry point that raises what its setup raises, and otherwise does what it owes to the
classifier that comes out of it. -/
theorem all_or_nothing_iff {Raised : PyExc → Prop} {Ran : Classifier → Prop}
    (hraise : ∀ e, loopSetup text alloc args = .ok (.error e) → Raised e)
    (hrun : ∀ cl, loopSetup text alloc args = .ok (.ok cl) → Ran cl) :
    ((∃ e, loopSetup text alloc args = .ok (.error e) ∧ Raised e) ∨
      ∃ cl, loopSetup text alloc args = .ok (.ok cl) ∧ Requested args cl ∧
        (∀ rs, ∃ ks flowtab, cl.classes rs = .ok (ks, flowtab)) ∧ Ran cl) ↔
      (Accepted alloc args → Supplied alloc args) := by
  constructor
  · intro hsettled haccepted
    rcases hsettled with ⟨e, hraised, -⟩ | ⟨cl, hsetup, hreq, -⟩
    · exact absurd haccepted (setup_raises_iff.mp ⟨e, hraised⟩)
    · exact (setup_requested_iff haccepted).mp ⟨cl, hsetup, hreq⟩
  · intro hsupplied
    by_cases haccepted : Accepted alloc args
    · obtain ⟨cl, hsetup, hreq⟩ := (setup_requested_iff haccepted).mpr (hsupplied haccepted)
      exact Or.inr ⟨cl, hsetup, hreq, requested_classifies hsetup hreq, hrun cl hsetup⟩
    · obtain ⟨e, hraised⟩ := setup_raises_iff.mpr haccepted
      exact Or.inl ⟨e, hraised, hraise e hraised⟩

end Setup

section Entries
variable (lib : Libpcap) {alloc : LoopAlloc} {pp : PcapObject} {c : Capture} {args : LoopArgs}

theorem buffer_raises {e : PyExc} (hpcap : pp.pcap = some c)
    (h : loopSetup bufferProfileError alloc args = .ok (.error e)) (view : WritableBuf) :
    pLoopToBuffer lib alloc pp args view = .ok (.raise e, pp, view.bytes) := by
  rw [pLoopToBuffer, hpcap]
  simp only [h, bind, Except.bind]
  rfl

theorem buffer_run {cl : Classifier} (hpcap : pp.pcap = some c)
    (hsetup : loopSetup bufferProfileError alloc args = .ok (.ok cl)) {view : WritableBuf}
    {o : PyOutcome (List UInt64)} {pp' : PcapObject} {buf : Bytes}
    (h : pLoopToBuffer lib alloc pp args view = .ok (o, pp', buf)) :
    ∃ c' done ks flowtab last, pp.left = done ++ pp'.left ∧ cl.classes done = .ok (ks, flowtab) ∧
      pp' = { pp with pcap := some c' } ∧ o = .ret (BufferCtx.result last args.profile) ∧
      buf = last.buf ∧ last.cls = tally ks := by
  obtain ⟨ret, c', s, hrun, hloop⟩ := lib.loop_run (faultHandler bufferCallBack)
    args.cnt.toInt c (.ok (.start cl args.admitMask view))
  rw [pLoopToBuffer, hpcap] at h
  simp only [hsetup, bind, Except.bind, hrun] at h
  cases s with
  | error e => cases h
  | ok last =>
    cases h
    obtain ⟨done, hpending, hlast, -⟩ := hloop.consumes
    have hstart : (BufferCtx.start cl args.admitMask view).cls = tally [] := rfl
    obtain ⟨ks, flowtab, hks, hcls⟩ := buffer_feed_classified hstart hlast.symm
    refine ⟨c', done, ks, flowtab, last, ?_, hks, rfl, rfl, rfl, hcls⟩
    rw [left_of_pcap hpcap]
    exact hpending

theorem filtered_all_or_nothing_iff (hpcap : pp.pcap = some c) (f : PyFunc) :
    FilteredAllOrNothing lib alloc pp args f ↔ (Accepted alloc args → Supplied alloc args) := by
  apply all_or_nothing_iff
  · intro e hraised
    exact pLoopFiltered_of_raise lib hpcap hraised f
  · intro cl hsetup o pp' made hrun
    obtain ⟨ret, c', last, done, ks, flowtab, -, -, rfl, hpending, hks, -, rfl⟩ :=
      ReaderCall.loopFiltered_run lib hpcap hsetup hrun
    refine ⟨c', done, ks, flowtab, ?_, hks, rfl, rfl⟩
    rw [left_of_pcap hpcap]
    exact hpending

theorem buffer_all_or_nothing_iff (hpcap : pp.pcap = some c) (view : WritableBuf) :
    BufferAllOrNothing lib alloc pp args view ↔ (Accepted alloc args → Supplied alloc args) := by
  apply all_or_nothing_iff
  · intro e hraised
    exact buffer_raises lib hpcap hraised view
  · intro cl hsetup o pp' buf hrun
    exact buffer_run lib hpcap hsetup hrun

end Entries

end PcapyNg
