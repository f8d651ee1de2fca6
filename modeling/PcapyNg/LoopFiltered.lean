import Mathlib.Algebra.BigOperators.Group.Finset.Basic
import PcapyNg.LoopSetup

/-!
# `loop_filtered`: every packet counted, every admitted packet delivered

The counters, the calls made and the flow table all move in `FilteredCallBack`. One lemma
says what a packet of class `k` does to them together; the run lemma carries it over the
capture, and the read loop says which part of the capture that is.
-/

namespace PcapyNg
open ReadLoop
set_option autoImplicit false

/-- `FilteredContext`; `live` is `filt_counts`: admitted, dropped, then the six classes. -/
structure FilteredContext extends Classifier where
  admitMask : Int32
  live : List UInt64
  py : Interp

/-- `FilteredCallBack`, and whether it calls `pcap_breakloop`. -/
def filteredCallBack (pyfunc : PyFunc) (c : FilteredContext) (r : Record) :
    Except Fault (FilteredContext × Bool) := do
  let (idx, flowtab) ← c.classify c.flowtab r
  let live ← bump c.live (2 + idx)
  if (c.admitMask >>> Int32.ofNat idx) &&& 1 = 0 then
    let live ← bump live 1
    return ({ c with flowtab := flowtab, live := live }, false)
  else
    let live ← bump live 0
    let cls : Int := profileBase c.cfg + idx
    let (py, raised) := c.py.callObject pyfunc ⟨r.hdr, r.data, some cls⟩
    return ({ c with flowtab := flowtab, live := live, py := py }, raised)

def reported (profile : Int32) (live : List UInt64) : List UInt64 :=
  if profile = 1 then live.take 8 else live.take 5

def filteredProfileError : String := "profile must be 0 (generic) or 1 (security)"

def FilteredContext.start (cl : Classifier) (admitMask : Int32) : FilteredContext :=
  { cl with admitMask := admitMask, live := List.replicate 8 0, py := {} }

def pLoopFiltered (lib : Libpcap) (alloc : LoopAlloc) (pp : PcapObject) (args : LoopArgs)
    (pyfunc : PyFunc) : Except Fault (PyOutcome (List UInt64) × PcapObject × List CallArgs) :=
  match pp.pcap with
  | none => .ok (.raise errClosed, pp, [])
  | some c => do
    match ← loopSetup filteredProfileError alloc args with
    | .error e => return (.raise e, pp, [])
    | .ok cl =>
      let (ret, c, last) := lib.loop (faultHandler (filteredCallBack pyfunc)) args.cnt.toInt c
        (.ok (.start cl args.admitMask))
      let last ← last
      return (checkedOutcome (lib.geterr c) ret last.py.err (reported args.profile last.live),
        { pp with pcap := some c, filtCounts := last.live, filtProfile := args.profile },
        last.py.calls)

/-! What is counted and delivered, read off the classes. -/

def admitted (mask : Int32) (rs : List Record) (ks : List Nat) : List (Record × Nat) :=
  (rs.zip ks).filter fun x => Admits mask x.2

/-- What the callback is given for a packet of class index `x.2`. -/
def callArgs (base : Nat) (x : Record × Nat) : CallArgs :=
  ⟨x.1.hdr, x.1.data, some ((base : Int) + x.2)⟩

def delivered (mask : Int32) (base : Nat) (rs : List Record) (ks : List Nat) : List CallArgs :=
  (admitted mask rs ks).map (callArgs base)

/-- `filt_counts` after packets of the classes `ks`. -/
def liveCounts (mask : Int32) (ks : List Nat) : List UInt64 :=
  UInt64.ofNat (ks.countP fun k => Admits mask k) ::
    UInt64.ofNat (ks.countP fun k => ¬ Admits mask k) :: tally ks

section Lists
variable (mask : Int32) (base : Nat)

theorem admitted_append {rs : List Record} {ks : List Nat} (hlen : rs.length = ks.length)
    (rs' : List Record) (ks' : List Nat) :
    admitted mask (rs ++ rs') (ks ++ ks') = admitted mask rs ks ++ admitted mask rs' ks' := by
  rw [admitted, List.zip_append hlen, List.filter_append]
  rfl

theorem delivered_append {rs : List Record} {ks : List Nat} (hlen : rs.length = ks.length)
    (rs' : List Record) (ks' : List Nat) :
    delivered mask base (rs ++ rs') (ks ++ ks') =
      delivered mask base rs ks ++ delivered mask base rs' ks' := by
  rw [delivered, admitted_append mask hlen, List.map_append]
  rfl

theorem delivered_cons (r : Record) (rs : List Record) (k : Nat) (ks : List Nat) :
    delivered mask base (r :: rs) (k :: ks) =
      delivered mask base [r] [k] ++ delivered mask base rs ks := by
  have hlen : [r].length = [k].length := rfl
  exact delivered_append mask base hlen rs ks

/-- Every packet is admitted or dropped, and has a class the profile reports. -/
theorem counts_add_up {m : Nat} {ks : List Nat} (hks : ∀ k ∈ ks, k < m) :
    (ks.countP fun k => Admits mask k) + (ks.countP fun k => ¬ Admits mask k) = ks.length ∧
      ∑ k ∈ Finset.range m, ks.count k = ks.length := by
  constructor
  · simpa using (List.length_eq_countP_add_countP (fun k => decide (Admits mask k)) (l := ks)).symm
  · rw [← List.sum_toFinset_count_eq_length ks]
    refine (Finset.sum_subset (fun k hk => ?_) fun k _ hk => ?_).symm
    · exact Finset.mem_range.mpr (hks k (List.mem_toFinset.mp hk))
    · exact List.count_eq_zero_of_not_mem fun h => hk (List.mem_toFinset.mpr h)

theorem liveCounts_exact {ks : List Nat} (hsmall : ks.length < 2 ^ 64) :
    (liveCounts mask ks).map UInt64.toNat =
      (ks.countP fun k => Admits mask k) :: (ks.countP fun k => ¬ Admits mask k) ::
        (List.range 6).map ks.count := by
  have hcount : ∀ k, (UInt64.ofNat (ks.count k)).toNat = ks.count k := fun k =>
    UInt64.toNat_ofNat_of_lt' (List.count_le_length.trans_lt hsmall)
  have hcountP : ∀ p : Nat → Bool, (UInt64.ofNat (ks.countP p)).toNat = ks.countP p := fun p =>
    UInt64.toNat_ofNat_of_lt' (List.countP_le_length.trans_lt hsmall)
  simp only [liveCounts, tally, List.map_cons, List.map_map, hcountP, List.cons.injEq, true_and]
  exact List.map_congr_left fun k _ => hcount k

variable {mask} {ks : List Nat} {k : Nat}

theorem liveCounts_admitted (h : Admits mask k) :
    liveCounts mask (ks ++ [k]) =
      (UInt64.ofNat (ks.countP fun k => Admits mask k) + 1) ::
        UInt64.ofNat (ks.countP fun k => ¬ Admits mask k) :: tally (ks ++ [k]) := by
  simp [liveCounts, List.countP_append, h, UInt64.ofNat_add]

theorem liveCounts_dropped (h : ¬ Admits mask k) :
    liveCounts mask (ks ++ [k]) =
      UInt64.ofNat (ks.countP fun k => Admits mask k) ::
        (UInt64.ofNat (ks.countP fun k => ¬ Admits mask k) + 1) :: tally (ks ++ [k]) := by
  simp [liveCounts, List.countP_append, h, UInt64.ofNat_add]

end Lists

theorem classify_lt {cl : Classifier} {flowtab f : Option FlowTab} {r : Record} {k : Nat}
    (h : cl.classify flowtab r = .ok (k, f)) : k < 6 := by
  have hlt := classifyDispatch_lt h
  unfold classCount at hlt
  split at hlt <;> omega

section Run
variable {f : PyFunc} {c : FilteredContext}

/-- One packet: its class is counted, and if admitted it is delivered. -/
theorem filteredCallBack_eq {r : Record} {ks : List Nat} {k : Nat} {flowtab : Option FlowTab}
    (hlive : c.live = liveCounts c.admitMask ks) (hk : c.classify c.flowtab r = .ok (k, flowtab)) :
    filteredCallBack f c r =
      .ok ({ c with
          flowtab := flowtab
          live := liveCounts c.admitMask (ks ++ [k])
          py := c.py.callAll f (delivered c.admitMask (profileBase c.cfg) [r] [k]) },
        (firstRaise f c.py.calls (delivered c.admitMask (profileBase c.cfg) [r] [k])).isSome) := by
  have hlt := classify_lt hk
  have hclass : bump c.live (2 + k) = .ok (UInt64.ofNat (ks.countP fun k => Admits c.admitMask k) ::
      UInt64.ofNat (ks.countP fun k => ¬ Admits c.admitMask k) :: tally (ks ++ [k])) := by
    rw [hlive, liveCounts, (by omega : 2 + k = k + 1 + 1), bump_cons, bump_cons, bump_tally hlt]
    rfl
  rw [filteredCallBack, hk]
  simp only [bind, Except.bind, hclass, admit_bit_iff hlt]
  by_cases hmask : Admits c.admitMask k
  · have hdel : delivered c.admitMask (profileBase c.cfg) [r] [k] =
        [callArgs (profileBase c.cfg) (r, k)] := by simp [delivered, admitted, hmask]
    simp only [hmask, not_true_eq_false, if_false, hdel, firstRaise_singleton,
      liveCounts_admitted hmask, ← Interp.callObject_raised]
    rfl
  · have hdel : delivered c.admitMask (profileBase c.cfg) [r] [k] = [] := by
      simp [delivered, admitted, hmask]
    simp only [hmask, not_false_eq_true, if_true, hdel, liveCounts_dropped hmask]
    rfl

/-- The run lemma: counters, calls and flow table after the packets `rs` of classes `ks'`; the
handler is quiet exactly when none of the calls raises. -/
theorem filtered_feed {rs : List Record} {ks ks' : List Nat} {flowtab : Option FlowTab}
    (hlive : c.live = liveCounts c.admitMask ks)
    (hks : classifyAll c.classify c.flowtab rs = .ok (ks', flowtab)) :
    feed (faultHandler (filteredCallBack f)) (.ok c) rs =
        .ok { c with
          flowtab := flowtab
          live := liveCounts c.admitMask (ks ++ ks')
          py := c.py.callAll f (delivered c.admitMask (profileBase c.cfg) rs ks') } ∧
      (Quiet (faultHandler (filteredCallBack f)) (.ok c) rs ↔
        firstRaise f c.py.calls (delivered c.admitMask (profileBase c.cfg) rs ks') = none) := by
  induction rs generalizing c ks ks' with
  | nil =>
    cases hks
    rw [List.append_nil, ← hlive]
    exact ⟨rfl, by simp [Quiet, delivered, admitted, firstRaise]⟩
  | cons r rs ih =>
    obtain ⟨k, f₁, ks₁, hk, hrest, rfl⟩ := classifyAll_cons_ok hks
    have hstep := filteredCallBack_eq (f := f) hlive hk
    have hnext := @ih { c with
      flowtab := f₁
      live := liveCounts c.admitMask (ks ++ [k])
      py := c.py.callAll f (delivered c.admitMask (profileBase c.cfg) [r] [k]) } (ks ++ [k]) ks₁ rfl hrest
    simp only [Interp.callAll_calls, List.append_assoc, List.singleton_append] at hnext
    rw [delivered_cons, Interp.callAll_append, firstRaise_append, Option.or_eq_none_iff]
    rw [feed, Quiet, faultHandler, hstep]
    refine ⟨hnext.1, ?_⟩
    rw [hnext.2]
    simp

theorem feed_fault {σ : Type} {k : σ → Record → Except Fault (σ × Bool)} (e : Fault)
    (rs : List Record) : feed (faultHandler k) (.error e) rs = .error e := by
  induction rs with
  | nil => rfl
  | cons r rs ih => exact ih

theorem filteredCallBack_ok {r : Record} {c' : FilteredContext} {raised : Bool}
    (h : filteredCallBack f c r = .ok (c', raised)) :
    (∃ k, c.classify c.flowtab r = .ok (k, c'.flowtab)) ∧ c'.cfg = c.cfg ∧ c'.ioc = c.ioc ∧
      c'.flowCutoff = c.flowCutoff ∧ (raised = true → c'.py.err.isSome) := by
  rw [filteredCallBack] at h
  obtain ⟨⟨k, flowtab⟩, hk, h⟩ := bind_eq_ok.mp h
  obtain ⟨live, -, h⟩ := bind_eq_ok.mp h
  simp only at h
  split at h
  · obtain ⟨dropped, -, h⟩ := bind_eq_ok.mp h
    cases h
    exact ⟨⟨k, hk⟩, rfl, rfl, rfl, fun hr => absurd hr Bool.false_ne_true⟩
  · obtain ⟨counted, -, h⟩ := bind_eq_ok.mp h
    cases h
    refine ⟨⟨k, hk⟩, rfl, rfl, rfl, ?_⟩
    intro hr
    rw [Interp.callObject_raised] at hr
    rw [Interp.callObject_err, Option.isSome_or, hr, Bool.true_or]

/-- What a run has handed over without a fault, it has classified. -/
theorem filtered_feed_classified {rs : List Record} {last : FilteredContext}
    (h : feed (faultHandler (filteredCallBack f)) (.ok c) rs = .ok last) :
    ∃ ks flowtab, classifyAll c.classify c.flowtab rs = .ok (ks, flowtab) := by
  induction rs generalizing c with
  | nil => exact ⟨[], c.flowtab, rfl⟩
  | cons r rs ih =>
    rw [feed, faultHandler] at h
    cases hstep : filteredCallBack f c r with
    | error e =>
      rw [hstep] at h
      simp only [feed_fault] at h
      cases h
    | ok step =>
      rcases step with ⟨c', raised⟩
      rw [hstep] at h
      obtain ⟨⟨k, hk⟩, hcfg, hioc, hcut, -⟩ := filteredCallBack_ok hstep
      obtain ⟨ks, flowtab, hks⟩ := ih h
      have hsame : c'.classify = c.classify := by
        unfold Classifier.classify
        rw [hcfg, hioc, hcut]
      rw [hsame] at hks
      refine ⟨k :: ks, flowtab, ?_⟩
      rw [classifyAll, hk]
      simp only [bind, Except.bind, hks]
      rfl

theorem start_live (cl : Classifier) (mask : Int32) :
    (FilteredContext.start cl mask).live =
      liveCounts (FilteredContext.start cl mask).admitMask [] := rfl

/-- Where a run is left if some call raises: behind the packet of that call, with everything
counted and delivered up to it. -/
theorem filtered_raise_point {cl : Classifier} (mask : Int32) {recs : List Record} {ks : List Nat}
    {flowtab : Option FlowTab} {e : PyExc} (hks : cl.classes recs = .ok (ks, flowtab))
    (hraise : firstRaise f [] (delivered mask (profileBase cl.cfg) recs ks) = some e) :
    ∃ pre r post, recs = pre ++ r :: post ∧
      Quiet (faultHandler (filteredCallBack f)) (.ok (.start cl mask)) pre ∧
      (faultHandler (filteredCallBack f)
        (feed (faultHandler (filteredCallBack f)) (.ok (.start cl mask)) pre) r).2 = true ∧
      firstRaise f [] (delivered mask (profileBase cl.cfg) pre (ks.take pre.length)) = none ∧
      firstRaise f [] (delivered mask (profileBase cl.cfg) (pre ++ [r])
        (ks.take (pre.length + 1))) = some e ∧
      ∃ last, feed (faultHandler (filteredCallBack f)) (.ok (.start cl mask)) (pre ++ [r]) = .ok last ∧
        last.live = liveCounts mask (ks.take (pre.length + 1)) ∧
        last.py = ⟨delivered mask (profileBase cl.cfg) (pre ++ [r]) (ks.take (pre.length + 1)),
          some e⟩ := by
  rcases quiet_or_break (h := faultHandler (filteredCallBack f)) (.ok (.start cl mask)) recs with
    hq | ⟨pre, r, post, rfl, hq, hb⟩
  · have hnone := (filtered_feed (start_live cl mask) hks).2.mp hq
    exact absurd (hnone.symm.trans hraise) nofun
  -- the classes split with the packets: those before, that of the raising one, those not reached
  rw [List.append_cons] at hks hraise
  obtain ⟨kfst, f₂, kpost, hfst, -, rfl⟩ := classifyAll_append_ok hks
  have hlenfst := classifyAll_length hfst
  obtain ⟨kpre, f₁, kr, hpre, hr, rfl⟩ := classifyAll_append_ok hfst
  have hlenpre := classifyAll_length hpre
  have hquiet : firstRaise f [] (delivered mask (profileBase cl.cfg) pre kpre) = none :=
    (filtered_feed (start_live cl mask) hpre).2.mp hq
  obtain ⟨hfeed, hiff⟩ := filtered_feed (f := f) (start_live cl mask) hfst
  have hfirst : firstRaise f []
      (delivered mask (profileBase cl.cfg) (pre ++ [r]) (kpre ++ kr)) = some e := by
    rw [delivered_append _ _ hlenfst.symm, firstRaise_append] at hraise
    cases hmade : firstRaise f []
        (delivered mask (profileBase cl.cfg) (pre ++ [r]) (kpre ++ kr)) with
    | none =>
      have hqr := (quiet_append _ pre [r]).mp (hiff.mpr hmade)
      exact absurd (hb.symm.trans hqr.2.1) (by decide)
    | some e' =>
      rw [hmade] at hraise
      exact hraise
  have herr : (Interp.callAll f {}
      (delivered mask (profileBase cl.cfg) (pre ++ [r]) (kpre ++ kr))).err = some e := by
    rw [delivered_append _ _ hlenpre.symm] at hfirst ⊢
    refine Interp.callAll_err_of_raise {} hquiet ?_ hfirst
    rw [delivered, List.length_map]
    apply (List.length_filter_le _ _).trans
    rw [List.length_zip]
    exact Nat.min_le_left _ _
  have hktake : (kpre ++ kr ++ kpost).take (pre.length + 1) = kpre ++ kr :=
    List.take_left' (by rw [hlenfst]; simp)
  have hktake' : (kpre ++ kr ++ kpost).take pre.length = kpre := by
    rw [List.append_assoc]
    exact List.take_left' hlenpre
  refine ⟨pre, r, post, rfl, hq, hb, ?_, ?_, _, hfeed, ?_, ?_⟩
  · rw [hktake']
    exact hquiet
  · rw [hktake]
    exact hfirst
  · rw [hktake]
    rfl
  · rw [hktake]
    exact Interp.ext (Interp.callAll_calls {} _) herr

end Run

theorem pLoopFiltered_of_loop {lib : Libpcap} {alloc : LoopAlloc} {pp : PcapObject} {c c' : Capture}
    {args : LoopArgs} {f : PyFunc} {cl : Classifier} {last : FilteredContext} {ret : Int}
    (hpcap : pp.pcap = some c) (hsetup : loopSetup filteredProfileError alloc args = .ok (.ok cl))
    (hloop : lib.loop (faultHandler (filteredCallBack f)) args.cnt.toInt c
      (.ok (.start cl args.admitMask)) = (ret, c', .ok last)) :
    pLoopFiltered lib alloc pp args f =
      .ok (checkedOutcome (lib.geterr c') ret last.py.err (reported args.profile last.live),
        { pp with pcap := some c', filtCounts := last.live, filtProfile := args.profile },
        last.py.calls) := by
  rw [pLoopFiltered, hpcap]
  simp only [hsetup, bind, Except.bind, hloop]
  rfl

theorem pLoopFiltered_of_raise (lib : Libpcap) {alloc : LoopAlloc} {pp : PcapObject} {c : Capture}
    {args : LoopArgs} {e : PyExc} (hpcap : pp.pcap = some c)
    (hsetup : loopSetup filteredProfileError alloc args = .ok (.error e)) (f : PyFunc) :
    pLoopFiltered lib alloc pp args f = .ok (.raise e, pp, []) := by
  rw [pLoopFiltered, hpcap]
  simp only [hsetup, bind, Except.bind]
  rfl

section Method
variable (lib : Libpcap) (alloc : LoopAlloc) (pp : PcapObject) {c : Capture} (args : LoopArgs)
  {cl : Classifier} {ks : List Nat} {flowtab : Option FlowTab} (f : PyFunc)

/-- What a run leaves behind if no call raises; the capture is behind the packets it read. -/
theorem loopFiltered_quiet (hpcap : pp.pcap = some c) (hbrk : c.brk = false)
    (hsetup : loopSetup filteredProfileError alloc args = .ok (.ok cl))
    (hks : cl.classes (due args.cnt.toInt c.pending) = .ok (ks, flowtab))
    (hquiet : firstRaise f []
      (delivered args.admitMask (profileBase cl.cfg) (due args.cnt.toInt c.pending) ks) = none) :
    ∃ c' : Capture, c' = ⟨c.pending.drop (due args.cnt.toInt c.pending).length, c.ending, false⟩ ∧
      pLoopFiltered lib alloc pp args f =
      .ok (if CutShort args.cnt.toInt c then .raise (.pcapError (lib.geterr c'))
          else .ret (reported args.profile (liveCounts args.admitMask ks)),
        { pp with
          pcap := some c'
          filtCounts := liveCounts args.admitMask ks
          filtProfile := args.profile },
        delivered args.admitMask (profileBase cl.cfg) (due args.cnt.toInt c.pending) ks) := by
  rcases c with ⟨rs, e, brk⟩
  cases hbrk
  obtain ⟨hfeed, hiff⟩ :=
    filtered_feed (f := f) (start_live cl args.admitMask) hks
  obtain ⟨ret, c', last, hrun, hloop⟩ := lib.loop_run (faultHandler (filteredCallBack f))
    args.cnt.toInt ⟨rs, e, false⟩ (.ok (.start cl args.admitMask))
  obtain ⟨hlast, hc, hret⟩ := hloop.quiet (hiff.mpr hquiet)
  simp only [hfeed] at hlast hret
  subst hlast hret
  refine ⟨c', hc, ?_⟩
  rw [pLoopFiltered_of_loop hpcap hsetup hrun]
  have herr : (Interp.callAll f {} (delivered args.admitMask (profileBase cl.cfg)
      (due args.cnt.toInt rs) ks)).err = none := Interp.callAll_err {} hquiet
  simp only [FilteredContext.start, Interp.callAll_calls, herr, List.nil_append, checkedOutcome,
    loopOutcome]
  by_cases hcut : CutShort args.cnt.toInt ⟨rs, e, false⟩
  · rw [if_pos hcut, if_pos hcut]
    rfl
  · rw [if_neg hcut, if_neg hcut]
    rfl

/-- What a run leaves behind if some call raises. -/
theorem loopFiltered_raised {e : PyExc} (hpcap : pp.pcap = some c) (hbrk : c.brk = false)
    (hsetup : loopSetup filteredProfileError alloc args = .ok (.ok cl))
    (hks : cl.classes (due args.cnt.toInt c.pending) = .ok (ks, flowtab))
    (hraise : firstRaise f []
      (delivered args.admitMask (profileBase cl.cfg) (due args.cnt.toInt c.pending) ks) = some e) :
    ∃ c' n, n < (due args.cnt.toInt c.pending).length ∧
      firstRaise f [] (delivered args.admitMask (profileBase cl.cfg)
        ((due args.cnt.toInt c.pending).take n) (ks.take n)) = none ∧
      firstRaise f [] (delivered args.admitMask (profileBase cl.cfg)
        ((due args.cnt.toInt c.pending).take (n + 1)) (ks.take (n + 1))) = some e ∧
      pLoopFiltered lib alloc pp args f =
        .ok (.raise e,
          { pp with
            pcap := some c'
            filtCounts := liveCounts args.admitMask (ks.take (n + 1))
            filtProfile := args.profile },
          delivered args.admitMask (profileBase cl.cfg)
            ((due args.cnt.toInt c.pending).take (n + 1)) (ks.take (n + 1))) := by
  rcases c with ⟨rs, ending, brk⟩
  cases hbrk
  obtain ⟨pre, r, post, hdue, hq, hb, hbefore, hfirst, last, hfeed, hlive, hpy⟩ :=
    filtered_raise_point args.admitMask hks hraise
  obtain ⟨ret, c', last', hrun, hloop⟩ := lib.loop_run (faultHandler (filteredCallBack f))
    args.cnt.toInt ⟨rs, ending, false⟩ (.ok (.start cl args.admitMask))
  obtain ⟨hlast, -⟩ := hloop.broke_due hdue hq hb
  obtain rfl := hlast.trans hfeed
  simp only [hdue]
  have htake : (pre ++ r :: post).take (pre.length + 1) = pre ++ [r] := by
    rw [List.append_cons]
    exact List.take_left' (by simp)
  refine ⟨c', pre.length, by simp, ?_, ?_, ?_⟩
  · rw [List.take_left' rfl]
    exact hbefore
  · rw [htake]
    exact hfirst
  · rw [htake, pLoopFiltered_of_loop hpcap hsetup hrun, hlive, hpy]
    rfl

end Method
/-- A run counts every packet it reads and delivers every admitted one, up to the first call
that raises. -/
theorem loop_filtered_exact (lib : Libpcap) (alloc : LoopAlloc) (pp : PcapObject) (c : Capture)
    (hpcap : pp.pcap = some c) (hbrk : c.brk = false) (args : LoopArgs) (cl : Classifier)
    (hsetup : loopSetup filteredProfileError alloc args = .ok (.ok cl)) :
    let recs := due args.cnt.toInt c.pending
    let base := if args.profile = 1 then 100 else 0
    ((∀ data, args.addrSet = some data → data.length / 4 ≤ 2 ^ 30) →
      ∃ ks flowtab, cl.classes recs = .ok (ks, flowtab)) ∧
    ∀ ks flowtab, cl.classes recs = .ok (ks, flowtab) → ∀ (mask : Int32) (f : PyFunc),
      (ks.length = recs.length ∧
        (ks.countP fun k => Admits mask k) + (ks.countP fun k => ¬ Admits mask k) = recs.length ∧
        ∑ k ∈ Finset.range (if args.profile = 1 then 6 else 3), ks.count k = recs.length ∧
        (recs.length < 2 ^ 64 → (liveCounts mask ks).map UInt64.toNat =
          (ks.countP fun k => Admits mask k) :: (ks.countP fun k => ¬ Admits mask k) ::
            (List.range 6).map ks.count)) ∧
      ∃ o c' counted made,
        pLoopFiltered lib alloc pp { args with admitMask := mask } f =
          .ok (o, ⟨some c', liveCounts mask counted, args.profile⟩, made) ∧
        (firstRaise f [] (delivered mask base recs ks) = none →
          made = delivered mask base recs ks ∧ counted = ks ∧
          o = if CutShort args.cnt.toInt c then .raise (.pcapError (lib.geterr c'))
            else .ret (reported args.profile (liveCounts mask ks))) ∧
        ∀ e, firstRaise f [] (delivered mask base recs ks) = some e →
          ∃ n, n < recs.length ∧
            firstRaise f [] (delivered mask base (recs.take n) (ks.take n)) = none ∧
            firstRaise f [] made = some e ∧
            made = delivered mask base (recs.take (n + 1)) (ks.take (n + 1)) ∧
            counted = ks.take (n + 1) ∧ o = .raise e := by
  intro recs base
  refine ⟨fun hsmall => ?_, fun ks flowtab hks mask f => ⟨?_, ?_⟩⟩
  · rcases loopSetup_classifies hsmall with ⟨e, he⟩ | ⟨cl', hcl', hclasses⟩
    · cases he.symm.trans hsetup
    · cases hcl'.symm.trans hsetup
      exact hclasses recs
  · have hlen := classifyAll_length hks
    obtain ⟨hadd, hsum⟩ := counts_add_up mask (classes_lt hsetup hks)
    refine ⟨hlen, hadd.trans hlen, hsum.trans hlen, fun hsmall => liveCounts_exact mask ?_⟩
    rwa [hlen]
  · have hbase : profileBase cl.cfg = base := loopSetup_base hsetup
    rw [← hbase]
    cases hraise : firstRaise f [] (delivered mask (profileBase cl.cfg) recs ks) with
    | none =>
      obtain ⟨c', -, hrun⟩ := loopFiltered_quiet lib alloc pp { args with admitMask := mask } f
        hpcap hbrk hsetup hks hraise
      exact ⟨_, c', ks, _, hrun, fun _ => ⟨rfl, rfl, rfl⟩, nofun⟩
    | some e =>
      obtain ⟨c', n, hn, hpre, hfirst, hrun⟩ := loopFiltered_raised lib alloc pp
        { args with admitMask := mask } f hpcap hbrk hsetup hks hraise
      refine ⟨_, c', ks.take (n + 1), _, hrun, nofun, fun e' he => ?_⟩
      cases he
      exact ⟨n, hn, hpre, hfirst, rfl, rfl, rfl⟩

theorem loop_filtered_exact_twice :
    ∃ c', pLoopFiltered .offline {} ⟨some ⟨[udpRecord, udpRecord], .eof, false⟩, [], 0⟩
        { cnt := -1, admitMask := 2, flowCutoff := 1 } (fun _ _ => none) =
      .ok (.ret [1, 1, 1, 1, 0], ⟨some c', [1, 1, 1, 1, 0, 0, 0, 0], 0⟩,
        [⟨udpRecord.hdr, udpRecord.data, some 1⟩]) := by
  have h := loop_filtered_exact .offline {} ⟨some ⟨[udpRecord, udpRecord], .eof, false⟩, [], 0⟩ _ rfl
    rfl { cnt := -1, flowCutoff := 1 } _ rfl
  obtain ⟨-, o, c', counted, made, hrun, hquiet, -⟩ := h.2 [1, 0] _ rfl 2 (fun _ _ => none)
  obtain ⟨rfl, rfl, rfl⟩ := hquiet (firstRaise_of_never (fun _ _ => rfl) _ _)
  exact ⟨c', hrun⟩

end PcapyNg
