import PcapyNg.BatchedReading
import PcapyNg.CallbackErrors

/-!
# Calls on one Reader, one after the other

The break flag outlives the call whose callback asked for it: a read that reaches its count
returns without looking at it, and the next read takes it for its own. What a call does
depends on the flag it finds, and the flag on the calls before it.
-/

namespace PcapyNg
open ReadLoop
set_option autoImplicit false

/-- A method call with its arguments; the caller goes on whatever the call raises. -/
inductive ReaderCall where
  | loop (cant : Int32) (f : PyFunc)
  | dispatch (cant : Int32) (f : PyFunc)
  | loopFiltered (alloc : LoopAlloc) (args : LoopArgs) (f : PyFunc)
  | next
  | nextBatch (maxN : Int32)

/-- The records left to read. -/
def PcapObject.left (pp : PcapObject) : List Record := (pp.pcap.map Source.pending).getD []

/-- `next_batch` where every allocation succeeds. -/
def nextBatchCall (lib : Libpcap) (pp : PcapObject) (maxN : Int32) :
    PyOutcome (Bytes × Bytes) × PcapObject × Nat :=
  pNextBatch lib { reallocs := fun _ => true } pp maxN 0

def NullRaises {α : Type} (o : PyOutcome α) : Prop := o.value = none → o.pending.isSome

/-- `P` accounts for the records a call took. -/
def HandsOver (pp pp' : PcapObject) (P : List Record → Prop) : Prop :=
  ∃ done, pp.left = done ++ pp'.left ∧ P done

namespace ReaderCall
variable (lib : Libpcap) (pp : PcapObject)

def after : ReaderCall → Except Fault PcapObject
  | loop cant f => .ok (pLoop lib pp cant f).2.1
  | dispatch cant f => .ok (pDispatch lib pp cant f).2.1
  | loopFiltered alloc args f => (pLoopFiltered lib alloc pp args f).map fun run => run.2.1
  | next => .ok (pNext lib pp).2
  | nextBatch maxN => .ok (nextBatchCall lib pp maxN).2.1

/-- NULL is returned with an exception only, the end of the file is reported only where it is,
and every record taken off the capture is handed over. -/
def Keeps : ReaderCall → Prop
  | loop cant f =>
    NullRaises (pLoop lib pp cant f).1 ∧
      HandsOver pp (pLoop lib pp cant f).2.1 fun done => (pLoop lib pp cant f).2.2 = plainCalls done
  | dispatch cant f =>
    NullRaises (pDispatch lib pp cant f).1 ∧
      HandsOver pp (pDispatch lib pp cant f).2.1 fun done =>
        (pDispatch lib pp cant f).2.2 = plainCalls done
  | loopFiltered alloc args f =>
    ∀ o pp' made, pLoopFiltered lib alloc pp args f = .ok (o, pp', made) →
      NullRaises o ∧ HandsOver pp pp' fun done =>
        done = [] ∧ made = [] ∨ ∃ cl ks flowtab,
          loopSetup filteredProfileError alloc args = .ok (.ok cl) ∧
          cl.classes done = .ok (ks, flowtab) ∧
          made = delivered args.admitMask (profileBase cl.cfg) done ks
  | next =>
    ((pNext lib pp).1.value = some (none, []) → pp.left = []) ∧
      HandsOver pp (pNext lib pp).2 fun done =>
        done = [] ∨ ∃ r, done = [r] ∧ (pNext lib pp).1 = .ret (some r.hdr, r.data)
  | nextBatch maxN =>
    (∀ pkts, (nextBatchCall lib pp maxN).1.value = some (pkts, []) → pp.left = []) ∧
      HandsOver pp (nextBatchCall lib pp maxN).2.1 fun done =>
        ∀ v, (nextBatchCall lib pp maxN).1.value = some v →
          v = (done.flatMap Record.data, packMeta (metasFrom 0 done))

/-- The call gets as far as reading. -/
def Starts : ReaderCall → Prop
  | loopFiltered alloc args _ => ∃ cl, loopSetup filteredProfileError alloc args = .ok (.ok cl)
  | _ => True

def IsLoop : ReaderCall → Prop
  | next => False
  | nextBatch _ => False
  | _ => True

/-- The callback raises where the read does not look at the break flag again. -/
def Unheeded (rs : List Record) : ReaderCall → Prop
  | loop cant f => RaisesOnLast f cant.toInt (plainCalls rs)
  | dispatch cant f => firstRaise f [] (plainCalls (due cant.toInt rs)) ≠ none
  | loopFiltered alloc args f =>
    ∃ cl, loopSetup filteredProfileError alloc args = .ok (.ok cl) ∧
      BreaksOnLast (faultHandler (filteredCallBack f)) (.ok (.start cl args.admitMask))
        args.cnt.toInt rs
  | next => False
  | nextBatch _ => False

/-- An earlier exception (`left`) is what this call makes of its first read. -/
def Misled (left : Prop) (rs : List Record) (call : ReaderCall) : Prop :=
  left ∧ call.Starts ∧ (call.IsLoop ∨ rs ≠ [])

def Leaves (left : Prop) (rs : List Record) (call : ReaderCall) : Prop :=
  (call.Starts ∧ ¬ left ∧ call.Unheeded rs) ∨ (¬ call.Starts ∧ left)

end ReaderCall

def EachKeeps (lib : Libpcap) : PcapObject → List ReaderCall → Prop
  | _, [] => True
  | pp, call :: calls =>
    call.Keeps lib pp ∧ ∀ pp', call.after lib pp = .ok pp' → EachKeeps lib pp' calls

/-- No call follows an unheeded exception as the first one that reads, unless that is `next` or
`next_batch` with nothing left. -/
def Undisturbed (lib : Libpcap) : Prop → PcapObject → List ReaderCall → Prop
  | _, _, [] => True
  | left, pp, call :: calls =>
    ¬ call.Misled left pp.left ∧
      ∀ pp', call.after lib pp = .ok pp' → Undisturbed lib (call.Leaves left pp.left) pp' calls

section Outcomes
variable {α : Type} {text : String} {ret : Int} {err : Option PyExc} {a : α}

theorem nullRaises_loopOutcome :
    NullRaises (loopOutcome text ret err a) ↔ (ret = -2 → err.isSome) := by
  rw [NullRaises, loopOutcome]
  split
  · split
    · rename_i hret
      exact iff_of_true (fun _ => rfl) (fun h => absurd h hret)
    · rename_i hret
      simp [not_not.mp hret]
  · rename_i hret
    refine iff_of_true ?_ (fun h => ?_)
    · simp
    · omega

theorem nullRaises_checkedOutcome :
    NullRaises (checkedOutcome text ret err a) ↔ (ret = -2 → err.isSome) := by
  rw [checkedOutcome]
  split
  · rename_i herr
    exact iff_of_true (fun _ => herr) (fun _ => herr)
  · exact nullRaises_loopOutcome

end Outcomes

section Python
variable {f : PyFunc}

theorem breaksOnLast_python_iff {cnt : Int} {rs : List Record} :
    BreaksOnLast (pythonCallBack f) {} cnt rs ↔ RaisesOnLast f cnt (plainCalls rs) := by
  rcases quiet_or_break (h := pythonCallBack f) {} (due cnt rs) with
    hq | ⟨pre, r, post, hdue, hq, hb⟩
  · have hquiet := (python_feed f {} (due cnt rs)).2.mp hq
    exact iff_of_false (not_breaksOnLast hq) (not_raisesOnLast hquiet)
  · obtain ⟨hpre, e, hraise, -⟩ := python_broke hq hb
    rw [due_split hdue, breaksOnLast_iff hq hb, raisesOnLast_iff hpre hraise (due_limit hdue)]

theorem python_calls (rs : List Record) : (feed (pythonCallBack f) {} rs).calls = plainCalls rs := by
  rw [(python_feed f {} rs).1, Interp.callAll_calls]
  rfl

theorem python_raised {py : Interp} {r : Record} (h : (pythonCallBack f py r).2 = true) :
    (pythonCallBack f py r).1.err.isSome := by
  rw [pythonCallBack, Interp.callObject_raised] at h
  rw [pythonCallBack, Interp.callObject_err, Option.isSome_or, h, Bool.true_or]

theorem filtered_raised {s : Except Fault FilteredContext} {r : Record} {last : FilteredContext}
    (h : (faultHandler (filteredCallBack f) s r).2 = true)
    (hlast : .ok last = (faultHandler (filteredCallBack f) s r).1) : last.py.err.isSome := by
  cases s with
  | error e => cases h
  | ok c =>
    rw [faultHandler] at h hlast
    cases hstep : filteredCallBack f c r with
    | error e =>
      rw [hstep] at h
      cases h
    | ok step =>
      rcases step with ⟨c', raised⟩
      rw [hstep] at h hlast
      cases hlast
      exact (filteredCallBack_ok hstep).2.2.2.2 h

end Python

/-! One call. -/

theorem left_of_pcap {pp : PcapObject} {c : Capture} (h : pp.pcap = some c) :
    pp.left = c.pending := by
  rw [PcapObject.left, h]
  rfl

theorem handsOver_of_pcap {pp pp' : PcapObject} {c c' : Capture} {P : List Record → Prop}
    (done : List Record) (hpcap : pp.pcap = some c) (hpcap' : pp'.pcap = some c')
    (h : c.pending = done ++ c'.pending) (hP : P done) : HandsOver pp pp' P := by
  refine ⟨done, ?_, hP⟩
  rw [left_of_pcap hpcap, left_of_pcap hpcap', h]

namespace ReaderCall

/-- A call keeps its word unless it is misled by the flag it finds, and leaves the flag set if
its callback raises unheeded. -/
def Obeys (lib : Libpcap) (pp : PcapObject) (c : Capture) (call : ReaderCall) : Prop :=
  (call.Keeps lib pp ↔ ¬ call.Misled (c.brk = true) c.pending) ∧
    ∀ pp', call.after lib pp = .ok pp' →
      ∃ c', pp'.pcap = some c' ∧ (c'.brk = true ↔ call.Leaves (c.brk = true) c.pending)

section Calls
variable (lib : Libpcap) {pp : PcapObject} {c : Capture}

theorem loop_obeys (hpcap : pp.pcap = some c) (cant : Int32) (f : PyFunc) :
    (loop cant f).Obeys lib pp c := by
  rcases c with ⟨rs, e, brk⟩
  obtain ⟨ret, c', py, hrun, hloop⟩ :=
    lib.loop_run (pythonCallBack f) cant.toInt ⟨rs, e, brk⟩ {}
  have heq := pLoop_of_run hpcap hrun
  obtain ⟨done, hpending, hpy, -⟩ := hloop.consumes
  have hcalls : py.calls = plainCalls done := by rw [hpy, python_calls]
  simp only [Obeys, Keeps, Misled, Leaves, Starts, IsLoop, Unheeded, after, heq,
    nullRaises_loopOutcome]
  cases brk with
  | true =>
    obtain ⟨rfl, rfl, rfl⟩ := hloop.flagged
    refine ⟨iff_of_false (fun h => absurd (h.1 rfl) Bool.false_ne_true) (by simp), ?_⟩
    intro pp' hpp'
    cases hpp'
    exact ⟨_, rfl, by simp⟩
  | false =>
    refine ⟨iff_of_true ⟨?_, handsOver_of_pcap done hpcap rfl hpending hcalls⟩ (by simp), ?_⟩
    · intro hret
      obtain ⟨py₀, r, hb, rfl⟩ := hloop.asked hret
      exact python_raised hb
    · intro pp' hpp'
      cases hpp'
      refine ⟨_, rfl, ?_⟩
      rw [hloop.flag_iff, breaksOnLast_python_iff]
      simp

theorem dispatch_obeys (hpcap : pp.pcap = some c) (cant : Int32) (f : PyFunc) :
    (dispatch cant f).Obeys lib pp c := by
  rcases c with ⟨rs, e, brk⟩
  obtain ⟨ret, c', py, hrun, hread⟩ :=
    lib.dispatch_run (pythonCallBack f) cant.toInt ⟨rs, e, brk⟩ {}
  have heq := pDispatch_of_run hpcap hrun
  obtain ⟨done, hpending, hpy, -⟩ := hread.consumes
  have hcalls : py.calls = plainCalls done := by rw [hpy, python_calls]
  simp only [Obeys, Keeps, Misled, Leaves, Starts, IsLoop, Unheeded, after, heq,
    nullRaises_checkedOutcome]
  cases brk with
  | true =>
    obtain ⟨rfl, ⟨-, rfl, rfl⟩ | ⟨hn, -⟩⟩ := hread.flagged
    · refine ⟨iff_of_false (fun h => absurd (h.1 rfl) Bool.false_ne_true) (by simp), ?_⟩
      intro pp' hpp'
      cases hpp'
      exact ⟨_, rfl, by simp⟩
    · omega
  | false =>
    refine ⟨iff_of_true ⟨?_, handsOver_of_pcap done hpcap rfl hpending hcalls⟩ (by simp), ?_⟩
    · exact fun hret => absurd hret hread.ne_broken
    · intro pp' hpp'
      cases hpp'
      refine ⟨_, rfl, ?_⟩
      rw [hread.flag_iff, (python_feed f {} (due cant.toInt rs)).2]
      simp

/-- A run of `loop_filtered` past its setup: what it took off the capture, it has classified,
counted and handed over. -/
theorem loopFiltered_run (hpcap : pp.pcap = some c) {alloc : LoopAlloc} {args : LoopArgs}
    {f : PyFunc} {cl : Classifier}
    (hsetup : loopSetup filteredProfileError alloc args = .ok (.ok cl)) {o : PyOutcome (List UInt64)}
    {pp' : PcapObject} {made : List CallArgs}
    (h : pLoopFiltered lib alloc pp args f = .ok (o, pp', made)) :
    ∃ ret c' last done ks flowtab,
      Loops (faultHandler (filteredCallBack f)) args.cnt.toInt c (.ok (.start cl args.admitMask))
        ret c' (.ok last) ∧
      o = checkedOutcome (lib.geterr c') ret last.py.err (reported args.profile last.live) ∧
      pp' = ⟨some c', liveCounts args.admitMask ks, args.profile⟩ ∧
      c.pending = done ++ c'.pending ∧ cl.classes done = .ok (ks, flowtab) ∧
      last.live = liveCounts args.admitMask ks ∧
      made = delivered args.admitMask (profileBase cl.cfg) done ks := by
  obtain ⟨ret, c', s, hrun, hloop⟩ := lib.loop_run (faultHandler (filteredCallBack f))
    args.cnt.toInt c (.ok (.start cl args.admitMask))
  cases s with
  | error e =>
    rw [pLoopFiltered, hpcap] at h
    simp only [hsetup, bind, Except.bind, hrun] at h
    cases h
  | ok last =>
    obtain ⟨done, hpending, hlast, -⟩ := hloop.consumes
    obtain ⟨ks, flowtab, hks⟩ := filtered_feed_classified hlast.symm
    have hfeed := (filtered_feed (f := f) (start_live cl args.admitMask) hks).1
    have hlive : last = _ := Except.ok.inj (hlast.trans hfeed)
    rw [pLoopFiltered_of_loop hpcap hsetup hrun] at h
    cases h
    refine ⟨ret, c', last, done, ks, flowtab, hloop, rfl, ?_, hpending, hks, ?_, ?_⟩
    · rw [hlive]
      rfl
    · rw [hlive]
      rfl
    · rw [hlive]
      exact Interp.callAll_calls {} _

/-- A call whose setup raises reads nothing and leaves the flag as it is. -/
theorem loopFiltered_refused_obeys (hpcap : pp.pcap = some c) {alloc : LoopAlloc} {args : LoopArgs}
    {ex : PyExc} (hsetup : loopSetup filteredProfileError alloc args = .ok (.error ex)) (f : PyFunc) :
    (loopFiltered alloc args f).Obeys lib pp c := by
  have hrun := pLoopFiltered_of_raise lib hpcap hsetup f
  simp only [Obeys, Keeps, Misled, Leaves, Starts, IsLoop, Unheeded, after, hrun, hsetup]
  refine ⟨iff_of_true (fun o pp' made h => ?_) (by simp), fun pp' h => ?_⟩
  · cases h
    exact ⟨fun _ => rfl, [], rfl, Or.inl ⟨rfl, rfl⟩⟩
  · cases h
    exact ⟨c, hpcap, by simp⟩

theorem loopFiltered_started_obeys (hpcap : pp.pcap = some c) {alloc : LoopAlloc} {args : LoopArgs}
    {cl : Classifier} (hsetup : loopSetup filteredProfileError alloc args = .ok (.ok cl))
    (f : PyFunc) : (loopFiltered alloc args f).Obeys lib pp c := by
  simp only [Obeys, Keeps, Misled, Leaves, Starts, IsLoop, Unheeded, after, hsetup]
  rcases c with ⟨rs, e, brk⟩
  cases brk with
  | true =>
    obtain ⟨ret, c', s, hrun, hloop⟩ := lib.loop_run (faultHandler (filteredCallBack f))
      args.cnt.toInt ⟨rs, e, true⟩ (.ok (.start cl args.admitMask))
    obtain ⟨rfl, rfl, rfl⟩ := hloop.flagged
    rw [pLoopFiltered_of_loop hpcap hsetup hrun]
    refine ⟨iff_of_false (fun h => ?_) (by simp), fun pp' h => ?_⟩
    · exact absurd (nullRaises_checkedOutcome.mp (h _ _ _ rfl).1 rfl) Bool.false_ne_true
    · cases h
      exact ⟨_, rfl, by simp⟩
  | false =>
    refine ⟨iff_of_true (fun o pp' made h => ?_) (by simp), fun pp' h => ?_⟩
    · obtain ⟨ret, c', last, done, ks, flowtab, hloop, rfl, rfl, hpending, hks, -, rfl⟩ :=
        loopFiltered_run lib hpcap hsetup h
      refine ⟨nullRaises_checkedOutcome.mpr ?_, ?_⟩
      · intro hret
        obtain ⟨s₀, r, hb, hlast⟩ := hloop.asked hret
        exact filtered_raised hb hlast
      · exact handsOver_of_pcap done hpcap rfl hpending
          (Or.inr ⟨cl, ks, flowtab, rfl, hks, rfl⟩)
    · cases hrun : pLoopFiltered lib alloc pp args f with
      | error e' =>
        rw [hrun] at h
        cases h
      | ok run =>
        rcases run with ⟨o, pp'', made⟩
        rw [hrun] at h
        cases h
        obtain ⟨ret, c', last, done, ks, flowtab, hloop, -, rfl, -⟩ :=
          loopFiltered_run lib hpcap hsetup hrun
        refine ⟨c', rfl, ?_⟩
        rw [hloop.flag_iff]
        simp

theorem loopFiltered_obeys (hpcap : pp.pcap = some c) (alloc : LoopAlloc) (args : LoopArgs)
    (f : PyFunc) : (loopFiltered alloc args f).Obeys lib pp c := by
  cases hsetup : loopSetup filteredProfileError alloc args with
  | error e =>
    have hrun : pLoopFiltered lib alloc pp args f = .error e := by
      rw [pLoopFiltered, hpcap]
      simp only [hsetup, bind, Except.bind]
    simp only [Obeys, Keeps, Misled, Leaves, Starts, IsLoop, Unheeded, after, hrun, hsetup]
    refine ⟨iff_of_true (fun _ _ _ h => ?_) (by simp), fun pp' h => ?_⟩
    · cases h
    · cases h
  | ok checked =>
    cases checked with
    | error ex => exact loopFiltered_refused_obeys lib hpcap hsetup f
    | ok cl => exact loopFiltered_started_obeys lib hpcap hsetup f

theorem next_obeys (hpcap : pp.pcap = some c) : next.Obeys lib pp c := by
  have hleft := left_of_pcap hpcap
  rcases c with ⟨rs, e, brk⟩
  simp only [Obeys, Keeps, Misled, Leaves, Starts, IsLoop, Unheeded, after]
  cases brk with
  | true =>
    rw [pNext_broken lib hpcap]
    refine ⟨⟨fun h hm => ?_, fun hm => ⟨fun _ => ?_, ?_⟩⟩, fun pp' h => ?_⟩
    · rw [hleft] at h
      exact hm.2.2.elim id fun hrs => hrs (h.1 rfl)
    · rw [hleft]
      by_contra hrs
      exact hm ⟨rfl, trivial, Or.inr hrs⟩
    · exact handsOver_of_pcap [] hpcap rfl rfl (Or.inl rfl)
    · cases h
      exact ⟨_, rfl, by simp⟩
  | false =>
    cases rs with
    | cons r rs =>
      rw [pNext_record lib hpcap]
      refine ⟨iff_of_true ⟨fun h => ?_, ?_⟩ (by simp), fun pp' h => ?_⟩
      · cases h
      · exact handsOver_of_pcap [r] hpcap rfl rfl (Or.inr ⟨r, rfl, rfl⟩)
      · cases h
        exact ⟨_, rfl, by simp⟩
    | nil =>
      cases e with
      | eof =>
        rw [pNext_eof lib hpcap]
        refine ⟨iff_of_true ⟨fun _ => hleft, ?_⟩ (by simp), fun pp' h => ?_⟩
        · exact handsOver_of_pcap [] hpcap rfl rfl (Or.inl rfl)
        · cases h
          exact ⟨_, rfl, by simp⟩
      | error =>
        rw [pNext_error lib hpcap]
        refine ⟨iff_of_true ⟨fun _ => hleft, ?_⟩ (by simp), fun pp' h => ?_⟩
        · exact handsOver_of_pcap [] hpcap rfl rfl (Or.inl rfl)
        · cases h
          exact ⟨_, rfl, by simp⟩

theorem nextBatch_obeys (hpcap : pp.pcap = some c) (maxN : Int32) :
    (nextBatch maxN).Obeys lib pp c := by
  have hleft := left_of_pcap hpcap
  rcases c with ⟨rs, e, brk⟩
  simp only [Obeys, Keeps, Misled, Leaves, Starts, IsLoop, Unheeded, after, nextBatchCall]
  cases brk with
  | true =>
    rw [pNextBatch_broken lib _ hpcap]
    refine ⟨⟨fun h hm => ?_, fun hm => ⟨fun pkts _ => ?_, ?_⟩⟩, fun pp' h => ?_⟩
    · rw [hleft] at h
      exact hm.2.2.elim id fun hrs => hrs (h.1 [] rfl)
    · rw [hleft]
      by_contra hrs
      exact hm ⟨rfl, trivial, Or.inr hrs⟩
    · exact handsOver_of_pcap [] hpcap rfl rfl fun v hv => (Option.some.inj hv).symm
    · cases h
      exact ⟨_, rfl, by simp⟩
  | false =>
    obtain ⟨hbuf, hmetas, -⟩ := @collected_all (fun _ => true) maxN 0 rs fun _ _ => rfl
    rw [pNextBatch_eq lib _ hpcap, hbuf, hmetas]
    refine ⟨iff_of_true ⟨fun pkts h => ?_, ?_⟩ (by simp), fun pp' h => ?_⟩
    · split at h
      · cases h
      · have hpacked := congrArg List.length (congrArg Prod.snd (Option.some.inj h))
        have hsize := (clampMaxN_toInt maxN).2
        rw [packMeta_length, metasFrom_length, List.length_take, List.length_nil] at hpacked
        rw [hleft]
        exact List.length_eq_zero_iff.mp (by simp only at hpacked ⊢; omega)
    · apply handsOver_of_pcap _ hpcap rfl (List.take_append_drop (batchSize maxN) rs).symm
      intro v hv
      split at hv
      · cases hv
      · exact (Option.some.inj hv).symm
    · cases h
      exact ⟨_, rfl, by simp⟩

theorem obeys (hpcap : pp.pcap = some c) (call : ReaderCall) : call.Obeys lib pp c := by
  cases call with
  | loop cant f => exact loop_obeys lib hpcap cant f
  | dispatch cant f => exact dispatch_obeys lib hpcap cant f
  | loopFiltered alloc args f => exact loopFiltered_obeys lib hpcap alloc args f
  | next => exact next_obeys lib hpcap
  | nextBatch maxN => exact nextBatch_obeys lib hpcap maxN

end Calls
end ReaderCall

theorem eachKeeps_iff (lib : Libpcap) {pp : PcapObject} {c : Capture} (hpcap : pp.pcap = some c)
    (calls : List ReaderCall) :
    EachKeeps lib pp calls ↔ Undisturbed lib (c.brk = true) pp calls := by
  induction calls generalizing pp c with
  | nil => exact Iff.rfl
  | cons call calls ih =>
    obtain ⟨hkeeps, hafter⟩ := ReaderCall.obeys lib hpcap call
    rw [EachKeeps, Undisturbed, hkeeps, left_of_pcap hpcap]
    apply and_congr_right
    intro _
    apply forall_congr'
    intro pp'
    apply imp_congr_right
    intro hpp'
    obtain ⟨c', hpcap', hbrk⟩ := hafter pp' hpp'
    rw [ih hpcap', propext hbrk]

/-- Every call of a sequence on an open Reader keeps its word exactly if none follows an
exception that its own call did not notice. -/
theorem aborted_loops_usable_iff (lib : Libpcap) (pp : PcapObject) (c : Capture)
    (hpcap : pp.pcap = some c) (hbrk : c.brk = false) (calls : List ReaderCall) :
    EachKeeps lib pp calls ↔ Undisturbed lib False pp calls := by
  rw [eachKeeps_iff lib hpcap calls, hbrk]
  simp only [Bool.false_eq_true]

theorem aborted_loops_usable_iff_second :
    EachKeeps .offline ⟨some ⟨[udpRecord, udpRecord], .eof, false⟩, [], 0⟩
      [.loop 2 (fun _ _ => some (.user "KeyError")), .next] := by
  apply (aborted_loops_usable_iff .offline ⟨some ⟨[udpRecord, udpRecord], .eof, false⟩, [], 0⟩ _ rfl
    rfl _).mpr
  refine ⟨fun h => h.1, fun pp' _ => ⟨fun h => ?_, fun _ _ => trivial⟩⟩
  rcases h.1 with ⟨-, -, hraise⟩ | ⟨-, hleft⟩
  · exact absurd hraise (by decide : ¬ RaisesOnLast _ _ _)
  · exact hleft

/-- The callback of `dispatch` raises on the first of two packets; `next` then reports the end
of the file with the second one left. -/
theorem next_reports_end_after_raise :
    let raise : PyFunc := fun _ _ => some (.user "KeyError")
    let pp : PcapObject := ⟨some ⟨[udpRecord, udpRecord], .eof, false⟩, [], 0⟩
    (pDispatch .offline pp 1 raise).1 = .raise (.user "KeyError") ∧
    pNext .offline (pDispatch .offline pp 1 raise).2.1 =
      (.ret (none, []), ⟨some ⟨[udpRecord], .eof, false⟩, [], 0⟩) ∧
    ¬ EachKeeps .offline pp [.dispatch 1 raise, .next] :=
  ⟨by decide, by decide, fun h => absurd ((h.2 _ rfl).1.1 rfl) (by decide)⟩

end PcapyNg
