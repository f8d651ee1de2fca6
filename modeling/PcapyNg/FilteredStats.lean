import Mathlib.Algebra.GroupWithZero.Nat
import PcapyNg.LoopToBuffer
import PcapyNg.ReaderCalls

/-!
# `filtered_stats` and the history it shows

The counters live in the Reader, are written by `loop_filtered` alone and may be polled at any
time. What a poll shows is the latest run, and before the first one whatever the memory of the
object held.
-/

namespace PcapyNg
open ReadLoop
set_option autoImplicit false

/-- What the memory of a new object holds in the places of the counters and the profile. -/
structure ObjectMem where
  filtCounts : List UInt64
  filtProfile : Int32
  size : filtCounts.length = 8

/-- `new_pcapobject` sets neither. The handle may be a savefile, an interface with the packets it
is going to deliver, or one that is not activated and delivers none. -/
def newPcapobject (mem : ObjectMem) (pcap : Capture) : PcapObject :=
  ⟨some pcap, mem.filtCounts, mem.filtProfile⟩

def pFilteredStats (pp : PcapObject) : List UInt64 := reported pp.filtProfile pp.filtCounts

/-- A method call; `other` stands for those that neither read packets nor close. -/
inductive MethodCall where
  | read (call : ReaderCall)
  | loopToBuffer (alloc : LoopAlloc) (args : LoopArgs) (view : WritableBuf)
  | filteredStats
  | close
  | other

/-- A run of `loop_filtered`: its arguments and the packets it was given. -/
structure FilteredRun where
  alloc : LoopAlloc
  args : LoopArgs
  packets : List Record

def MethodCall.after (lib : Libpcap) (pp : PcapObject) : MethodCall → Except Fault PcapObject
  | read call => call.after lib pp
  | loopToBuffer alloc args view => (pLoopToBuffer lib alloc pp args view).map fun run => run.2.1
  | filteredStats => .ok pp
  | close => .ok { pp with pcap := none }
  | other => .ok pp

/-- The records a call took. -/
def taken (pp pp' : PcapObject) : List Record := pp.left.take (pp.left.length - pp'.left.length)

/-- The run that a call from `pp` to `pp'` made, if it made one. -/
def MethodCall.run (pp pp' : PcapObject) : MethodCall → Option FilteredRun
  | read (.loopFiltered alloc args _) =>
    match pp.pcap, loopSetup filteredProfileError alloc args with
    | some _, .ok (.ok _) => some ⟨alloc, args, taken pp pp'⟩
    | _, _ => none
  | _ => none

/-- The tuple that belongs to a run. -/
def FilteredRun.tuple (run : FilteredRun) : Option (List UInt64) :=
  match loopSetup filteredProfileError run.alloc run.args with
  | .ok (.ok cl) =>
    match cl.classes run.packets with
    | .ok (ks, _) => some (reported run.args.profile (liveCounts run.args.admitMask ks))
    | .error _ => none
  | _ => none

/-- The tuple that belongs to a history, given its latest run. -/
def historyTuple : Option FilteredRun → Option (List UInt64)
  | none => some [0, 0, 0, 0, 0]
  | some run => run.tuple

def packetCount : Option FilteredRun → Nat
  | none => 0
  | some run => run.packets.length

/-- In the history `calls` from `pp`, behind the run `last`, a poll with `shown` as its latest run
returns `t`. During a run a poll may come behind any of the packets; from a callback of another
method it is a poll before that method. -/
inductive Polls (lib : Libpcap) : Option FilteredRun → PcapObject → List MethodCall →
    Option FilteredRun → List UInt64 → Prop where
  | now (last : Option FilteredRun) (pp : PcapObject) (calls : List MethodCall) :
      Polls lib last pp (.filteredStats :: calls) last (pFilteredStats pp)
  | during {last : Option FilteredRun} {pp : PcapObject} {c : Capture} {alloc : LoopAlloc}
      {args : LoopArgs} {f : PyFunc} {calls : List MethodCall} {cl : Classifier}
      {done rest : List Record} {ctx : FilteredContext} (hpcap : pp.pcap = some c)
      (hsetup : loopSetup filteredProfileError alloc args = .ok (.ok cl))
      (hpending : c.pending = done ++ rest)
      (hctx : feed (faultHandler (filteredCallBack f)) (.ok (.start cl args.admitMask)) done = .ok ctx) :
      Polls lib last pp (.read (.loopFiltered alloc args f) :: calls) (some ⟨alloc, args, done⟩)
        (pFilteredStats { pp with filtCounts := ctx.live, filtProfile := args.profile })
  | later {last shown : Option FilteredRun} {pp pp' : PcapObject} {call : MethodCall}
      {calls : List MethodCall} {t : List UInt64} (hafter : call.after lib pp = .ok pp')
      (hrest : Polls lib ((call.run pp pp').or last) pp' calls shown t) :
      Polls lib last pp (call :: calls) shown t

/-- Admitted and dropped add up to the classes: of the words, and of the numbers as long as no
counter has overflowed. -/
def Balanced (packets : Nat) (t : List UInt64) : Prop :=
  ∃ admitted dropped cls, t = admitted :: dropped :: cls ∧ admitted + dropped = cls.sum ∧
    (packets < 2 ^ 64 → admitted.toNat + dropped.toNat = (cls.map UInt64.toNat).sum)

/-- Every poll returns what belongs to the history so far. -/
def HistoryAlone (lib : Libpcap) (mem : ObjectMem) (c : Capture) (calls : List MethodCall) : Prop :=
  ∀ shown t, Polls lib none (newPcapobject mem c) calls shown t →
    historyTuple shown = some t ∧ Balanced (packetCount shown) t

/-- Some poll comes before the first run. -/
def PolledEarly (lib : Libpcap) : PcapObject → List MethodCall → Prop
  | _, [] => False
  | _, .filteredStats :: _ => True
  | pp, call :: calls =>
    ∃ pp', call.after lib pp = .ok pp' ∧ call.run pp pp' = none ∧ PolledEarly lib pp' calls

/-- The memory reads as a generic run without packets. -/
def ObjectMem.Clear (mem : ObjectMem) : Prop :=
  mem.filtProfile ≠ 1 ∧ mem.filtCounts.take 5 = [0, 0, 0, 0, 0]

theorem ObjectMem.clear_iff (mem : ObjectMem) :
    reported mem.filtProfile mem.filtCounts = [0, 0, 0, 0, 0] ↔ mem.Clear := by
  rw [reported, ObjectMem.Clear]
  split
  · rename_i hprofile
    refine iff_of_false (fun h => ?_) (fun h => h.1 hprofile)
    have hlen := congrArg List.length h
    rw [List.length_take, mem.size] at hlen
    cases hlen
  · rename_i hprofile
    exact ⟨fun h => ⟨hprofile, h⟩, fun h => h.2⟩

/-! The sum of the counters. -/

theorem sum_ofNat (xs : List Nat) : (xs.map UInt64.ofNat).sum = UInt64.ofNat xs.sum := by
  induction xs with
  | nil => rfl
  | cons x xs ih => rw [List.map_cons, List.sum_cons, ih, List.sum_cons, UInt64.ofNat_add]

theorem sum_counts {m : Nat} {ks : List Nat} (hks : ∀ k ∈ ks, k < m) :
    ((List.range m).map ks.count).sum = ks.length :=
  (counts_add_up 0 hks).2

theorem tally_take {m : Nat} (hm : m ≤ 6) (ks : List Nat) :
    (tally ks).take m = ((List.range m).map ks.count).map UInt64.ofNat := by
  rw [tally, ← List.map_take, List.take_range, Nat.min_eq_left hm, List.map_map]
  rfl

theorem liveCounts_balanced (mask : Int32) {m : Nat} (hm : m ≤ 6) {ks : List Nat}
    (hks : ∀ k ∈ ks, k < m) : Balanced ks.length ((liveCounts mask ks).take (m + 2)) := by
  obtain ⟨hadd, -⟩ := counts_add_up mask hks
  refine ⟨_, _, (tally ks).take m, rfl, ?_, ?_⟩
  · rw [tally_take hm, sum_ofNat, sum_counts hks, ← UInt64.ofNat_add, hadd]
  · intro hsmall
    have hsum : ((liveCounts mask ks).map UInt64.toNat).take (m + 2) =
        (ks.countP fun k => Admits mask k) :: (ks.countP fun k => ¬ Admits mask k) ::
          (List.range m).map ks.count := by
      rw [liveCounts_exact mask hsmall, List.take_succ_cons, List.take_succ_cons, ← List.map_take,
        List.take_range, Nat.min_eq_left hm]
    rw [← List.map_take, liveCounts, List.take_succ_cons, List.take_succ_cons, List.map_cons,
      List.map_cons] at hsum
    obtain ⟨hfst, hsnd⟩ := List.cons.inj hsum
    obtain ⟨hsnd, hcls⟩ := List.cons.inj hsnd
    rw [hfst, hsnd, hcls, sum_counts hks, hadd]

theorem reported_balanced (mask profile : Int32) {ks : List Nat}
    (hks : ∀ k ∈ ks, k < if profile = 1 then 6 else 3) :
    Balanced ks.length (reported profile (liveCounts mask ks)) := by
  rw [reported]
  by_cases hprofile : profile = 1
  · rw [if_pos hprofile] at hks ⊢
    exact liveCounts_balanced mask (Nat.le_refl 6) hks
  · rw [if_neg hprofile] at hks ⊢
    exact liveCounts_balanced mask (by omega) hks

/-! Which run the fields of a Reader belong to. -/

/-- The fields are those the run `last` left, or those of the memory. -/
def Shows (mem : ObjectMem) (pp : PcapObject) : Option FilteredRun → Prop
  | none => pp.filtCounts = mem.filtCounts ∧ pp.filtProfile = mem.filtProfile
  | some run =>
    ∃ cl ks flowtab, loopSetup filteredProfileError run.alloc run.args = .ok (.ok cl) ∧
      cl.classes run.packets = .ok (ks, flowtab) ∧
      pp.filtCounts = liveCounts run.args.admitMask ks ∧ pp.filtProfile = run.args.profile

theorem Shows.poll {mem : ObjectMem} {pp : PcapObject} {last : Option FilteredRun}
    (h : Shows mem pp last) (hclear : last = none → mem.Clear) :
    historyTuple last = some (pFilteredStats pp) ∧
      Balanced (packetCount last) (pFilteredStats pp) := by
  cases last with
  | none =>
    rcases h with ⟨hcounts, hprofile⟩
    have hzero := mem.clear_iff.mpr (hclear rfl)
    rw [pFilteredStats, hcounts, hprofile, hzero]
    exact ⟨rfl, 0, 0, [0, 0, 0], rfl, rfl, fun _ => rfl⟩
  | some run =>
    rcases h with ⟨cl, ks, flowtab, hsetup, hks, hcounts, hprofile⟩
    have hlen : ks.length = run.packets.length := classifyAll_length hks
    rw [pFilteredStats, hcounts, hprofile, packetCount, ← hlen]
    refine ⟨?_, reported_balanced _ _ (classes_lt hsetup hks)⟩
    rw [historyTuple, FilteredRun.tuple, hsetup]
    simp only [hks]

section Calls
variable (lib : Libpcap) {mem : ObjectMem} {pp pp' : PcapObject}

theorem map_ok {ε α β : Type} {x : Except ε α} {g : α → β} {b : β} (h : x.map g = .ok b) :
    ∃ a, x = .ok a ∧ g a = b := by
  cases x with
  | error e => cases h
  | ok a => exact ⟨a, rfl, Except.ok.inj h⟩

theorem pLoopFiltered_no_run {alloc : LoopAlloc} {args : LoopArgs} {f : PyFunc}
    {o : PyOutcome (List UInt64)} {made : List CallArgs}
    (h : pLoopFiltered lib alloc pp args f = .ok (o, pp', made))
    (hnone : MethodCall.run pp pp' (.read (.loopFiltered alloc args f)) = none) : pp' = pp := by
  rw [pLoopFiltered] at h
  rw [MethodCall.run] at hnone
  cases hpcap : pp.pcap with
  | none =>
    rw [hpcap] at h
    cases h
    rfl
  | some c =>
    rw [hpcap] at h hnone
    obtain ⟨checked, hsetup, h⟩ := bind_eq_ok.mp h
    cases checked with
    | error e =>
      cases h
      rfl
    | ok cl =>
      rw [hsetup] at hnone
      cases hnone

/-- The counters and the profile are left as they are. -/
def KeepsStats (pp pp' : PcapObject) : Prop :=
  pp'.filtCounts = pp.filtCounts ∧ pp'.filtProfile = pp.filtProfile

theorem KeepsStats.refl (pp : PcapObject) : KeepsStats pp pp := ⟨rfl, rfl⟩

theorem pLoop_keepsStats (cant : Int32) (f : PyFunc) : KeepsStats pp (pLoop lib pp cant f).2.1 := by
  rw [pLoop]
  split <;> exact ⟨rfl, rfl⟩

theorem pDispatch_keepsStats (cant : Int32) (f : PyFunc) :
    KeepsStats pp (pDispatch lib pp cant f).2.1 := by
  rw [pDispatch]
  split <;> exact ⟨rfl, rfl⟩

theorem pNext_keepsStats : KeepsStats pp (pNext lib pp).2 := by
  rw [pNext]
  split
  · exact ⟨rfl, rfl⟩
  · simp only
    split
    · exact ⟨rfl, rfl⟩
    · split
      · split <;> exact ⟨rfl, rfl⟩
      · exact ⟨rfl, rfl⟩

theorem nextBatchCall_keepsStats (maxN : Int32) :
    KeepsStats pp (nextBatchCall lib pp maxN).2.1 := by
  rw [nextBatchCall, pNextBatch]
  split
  · exact ⟨rfl, rfl⟩
  · simp only
    split
    · exact ⟨rfl, rfl⟩
    · split <;> exact ⟨rfl, rfl⟩

theorem pLoopToBuffer_keepsStats {alloc : LoopAlloc} {args : LoopArgs} {view : WritableBuf}
    {o : PyOutcome (List UInt64)} {buf : Bytes}
    (h : pLoopToBuffer lib alloc pp args view = .ok (o, pp', buf)) : KeepsStats pp pp' := by
  rw [pLoopToBuffer] at h
  split at h
  · cases h
    exact ⟨rfl, rfl⟩
  · obtain ⟨checked, -, h⟩ := bind_eq_ok.mp h
    cases checked with
    | error e =>
      cases h
      exact ⟨rfl, rfl⟩
    | ok cl =>
      obtain ⟨last, -, h⟩ := bind_eq_ok.mp h
      cases h
      exact ⟨rfl, rfl⟩

/-- Only a run of `loop_filtered` writes the counters or the profile. -/
theorem after_keepsStats {call : MethodCall} (hafter : call.after lib pp = .ok pp')
    (hnone : call.run pp pp' = none) : KeepsStats pp pp' := by
  cases call with
  | read call =>
    cases call with
    | loop cant f =>
      obtain rfl := Except.ok.inj hafter
      exact pLoop_keepsStats lib cant f
    | dispatch cant f =>
      obtain rfl := Except.ok.inj hafter
      exact pDispatch_keepsStats lib cant f
    | loopFiltered alloc args f =>
      obtain ⟨⟨o, pp'', made⟩, hrun, rfl⟩ := map_ok hafter
      rw [pLoopFiltered_no_run lib hrun hnone]
      exact .refl pp
    | next =>
      obtain rfl := Except.ok.inj hafter
      exact pNext_keepsStats lib
    | nextBatch maxN =>
      obtain rfl := Except.ok.inj hafter
      exact nextBatchCall_keepsStats lib maxN
  | loopToBuffer alloc args view =>
    obtain ⟨⟨o, pp'', buf⟩, hrun, rfl⟩ := map_ok hafter
    exact pLoopToBuffer_keepsStats lib hrun
  | filteredStats =>
    cases hafter
    exact .refl pp
  | close =>
    cases hafter
    exact ⟨rfl, rfl⟩
  | other =>
    cases hafter
    exact .refl pp

theorem run_shows {call : MethodCall} {run : FilteredRun} (hafter : call.after lib pp = .ok pp')
    (hsome : call.run pp pp' = some run) : Shows mem pp' (some run) := by
  cases call with
  | read call =>
    cases call with
    | loopFiltered alloc args f =>
      obtain ⟨⟨o, pp'', made⟩, hrun, rfl⟩ := map_ok hafter
      rw [MethodCall.run] at hsome
      cases hpcap : pp.pcap with
      | none =>
        rw [hpcap] at hsome
        cases hsome
      | some c =>
        rw [hpcap] at hsome
        cases hsetup : loopSetup filteredProfileError alloc args with
        | error e =>
          rw [hsetup] at hsome
          cases hsome
        | ok checked =>
          cases checked with
          | error e =>
            rw [hsetup] at hsome
            cases hsome
          | ok cl =>
            rw [hsetup] at hsome
            cases hsome
            obtain ⟨ret, c', last, done, ks, flowtab, -, -, rfl, hpending, hks, -⟩ :=
              ReaderCall.loopFiltered_run lib hpcap hsetup hrun
            refine ⟨cl, ks, flowtab, hsetup, ?_, rfl, rfl⟩
            have htaken : taken pp ⟨some c', liveCounts args.admitMask ks, args.profile⟩ = done := by
              rw [taken, left_of_pcap hpcap, hpending]
              exact List.take_left' (by simp [PcapObject.left])
            rw [htaken]
            exact hks
    | _ => cases hsome
  | _ => cases hsome

theorem Shows.after {last : Option FilteredRun} {call : MethodCall} (h : Shows mem pp last)
    (hafter : call.after lib pp = .ok pp') : Shows mem pp' ((call.run pp pp').or last) := by
  cases hrun : call.run pp pp' with
  | some run => exact run_shows lib hafter hrun
  | none =>
    obtain ⟨hcounts, hprofile⟩ := after_keepsStats lib hafter hrun
    rw [Option.none_or]
    cases last with
    | none => exact ⟨hcounts.trans h.1, hprofile.trans h.2⟩
    | some run =>
      rcases h with ⟨cl, ks, flowtab, hsetup, hks, hc, hp⟩
      exact ⟨cl, ks, flowtab, hsetup, hks, hcounts.trans hc, hprofile.trans hp⟩

end Calls

/-! Whole histories. -/

section Histories
variable {lib : Libpcap} {mem : ObjectMem}

/-- Behind every packet of a run, the counters are those of the packets so far. -/
theorem shows_during {pp : PcapObject} {alloc : LoopAlloc} {args : LoopArgs} {f : PyFunc}
    {cl : Classifier} {done : List Record} {ctx : FilteredContext}
    (hsetup : loopSetup filteredProfileError alloc args = .ok (.ok cl))
    (hctx : feed (faultHandler (filteredCallBack f)) (.ok (.start cl args.admitMask)) done = .ok ctx) :
    Shows mem { pp with filtCounts := ctx.live, filtProfile := args.profile }
      (some ⟨alloc, args, done⟩) := by
  obtain ⟨ks, flowtab, hks⟩ := filtered_feed_classified hctx
  have hfeed := (filtered_feed (f := f) (start_live cl args.admitMask) hks).1
  have hlive : ctx = _ := Except.ok.inj (hctx.symm.trans hfeed)
  refine ⟨cl, ks, flowtab, hsetup, hks, ?_, rfl⟩
  rw [hlive]
  rfl

theorem Polls.from_history {last shown : Option FilteredRun} {pp : PcapObject}
    {calls : List MethodCall} {t : List UInt64} (hpolls : Polls lib last pp calls shown t)
    (hshows : Shows mem pp last) (hearly : last = none → PolledEarly lib pp calls → mem.Clear) :
    historyTuple shown = some t ∧ Balanced (packetCount shown) t := by
  induction hpolls with
  | now last pp calls => exact hshows.poll fun hlast => hearly hlast trivial
  | during _ hsetup _ hctx => exact @Shows.poll mem _ _ (shows_during hsetup hctx) (by simp)
  | @later last shown pp pp' call calls t hafter _ ih =>
    apply ih (hshows.after lib hafter)
    intro hnone hlater
    obtain ⟨hrun, hlast⟩ := Option.or_eq_none_iff.mp hnone
    apply hearly hlast
    cases call with
    | filteredStats => trivial
    | _ => exact ⟨pp', hafter, hrun, hlater⟩

theorem Polls.of_early {pp : PcapObject} {calls : List MethodCall} (h : PolledEarly lib pp calls)
    (hshows : Shows mem pp none) :
    Polls lib none pp calls none (reported mem.filtProfile mem.filtCounts) := by
  induction calls generalizing pp with
  | nil => cases h
  | cons call calls ih =>
    have hlater : (∃ pp', call.after lib pp = .ok pp' ∧ call.run pp pp' = none ∧
        PolledEarly lib pp' calls) →
        Polls lib none pp (call :: calls) none (reported mem.filtProfile mem.filtCounts) := by
      intro hex
      rcases hex with ⟨pp', hafter, hrun, hrest⟩
      have hnext := hshows.after lib hafter
      rw [hrun] at hnext
      refine .later hafter ?_
      rw [hrun]
      exact ih hrest hnext
    cases call with
    | filteredStats =>
      rw [← hshows.1, ← hshows.2]
      exact .now none pp calls
    | _ => exact hlater h

end Histories

/-- `filtered_stats` shows the history and nothing else exactly if it is not polled before the
first run, or the memory of the object happened to be clear. -/
theorem filtered_stats_history_iff (lib : Libpcap) (mem : ObjectMem) (c : Capture)
    (calls : List MethodCall) :
    HistoryAlone lib mem c calls ↔ (PolledEarly lib (newPcapobject mem c) calls → mem.Clear) := by
  have hshows : Shows mem (newPcapobject mem c) none := ⟨rfl, rfl⟩
  constructor
  · intro halone hearly
    have htuple := (halone none _ (Polls.of_early hearly hshows)).1
    exact mem.clear_iff.mp (Option.some.inj htuple).symm
  · intro hclear shown t hpolls
    exact hpolls.from_history hshows fun _ => hclear

/-- An object whose memory was not clear, polled before its first run. -/
theorem filtered_stats_shows_memory :
    ¬ HistoryAlone .offline ⟨[7, 7, 7, 7, 7, 7, 7, 7], 1, rfl⟩ ⟨[udpRecord], .eof, false⟩
      [.filteredStats] := by
  intro h
  have htuple := (h none _ (.now none _ [])).1
  revert htuple
  decide

end PcapyNg
