import PcapyNg.LoopFiltered

/-!
# Exceptions raised by a callback

`dispatch`, `loop` and `loop_filtered` learn from the same read loop how a run ended, and
the callback's exception is pending beside that. `loop` alone looks only at the value
`pcap_loop` returns, which does not show a break asked for on the last counted record.
-/

namespace PcapyNg
open ReadLoop
set_option autoImplicit false

inductive Entry where
  | loop
  | dispatch
  | loopFiltered (alloc : LoopAlloc) (args : LoopArgs)

/-- The outcome `o` of a method tells what its callback did in the calls `made`. -/
structure Faithful {α : Type} (f : PyFunc) (made : List CallArgs) (readError : Prop)
    (o : PyOutcome α) : Prop where
  raised : ∀ e, firstRaise f [] made = some e → o = .raise e
  finished : firstRaise f [] made = none → ¬ readError → o.value.isSome ∧ o.pending = none
  exclusive : ¬ (o.value.isSome ∧ o.pending.isSome)

section Methods
variable (lib : Libpcap) (pp : PcapObject) (c : Capture) (cant : Int32) (f : PyFunc)

/-- The call gets as far as its read loop, and its classifier does not fault. -/
def Entry.Starts : Entry → Prop
  | .loop => True
  | .dispatch => True
  | .loopFiltered alloc args =>
    ∃ cl ks flowtab, loopSetup filteredProfileError alloc args = .ok (.ok cl) ∧
      cl.classes (due cant.toInt c.pending) = .ok (ks, flowtab)

def Entry.Faithful : Entry → Prop
  | .loop =>
    PcapyNg.Faithful f (pLoop lib pp cant f).2.2 (CutShort cant.toInt c) (pLoop lib pp cant f).1
  | .dispatch =>
    PcapyNg.Faithful f (pDispatch lib pp cant f).2.2 (CutShort cant.toInt c)
      (pDispatch lib pp cant f).1
  | .loopFiltered alloc args =>
    ∃ o pp' made, pLoopFiltered lib alloc pp { args with cnt := cant } f = .ok (o, pp', made) ∧
      PcapyNg.Faithful f made (CutShort cant.toInt c) o

end Methods

def plainCalls (rs : List Record) : List CallArgs := rs.map fun r => ⟨r.hdr, r.data, none⟩

@[simp] theorem plainCalls_nil : plainCalls [] = [] := rfl

@[simp] theorem plainCalls_cons (r : Record) (rs : List Record) :
    plainCalls (r :: rs) = ⟨r.hdr, r.data, none⟩ :: plainCalls rs := rfl

@[simp] theorem plainCalls_append (xs ys : List Record) :
    plainCalls (xs ++ ys) = plainCalls xs ++ plainCalls ys := List.map_append

@[simp] theorem plainCalls_length (rs : List Record) : (plainCalls rs).length = rs.length :=
  List.length_map _

/-- The callback first raises on its `cnt`-th call. -/
def RaisesOnLast (f : PyFunc) (cnt : Int) (calls : List CallArgs) : Prop :=
  0 < cnt ∧ firstRaise f [] (calls.take (cnt.toNat - 1)) = none ∧
    firstRaise f [] (calls.take cnt.toNat) ≠ none

instance (f : PyFunc) (cnt : Int) (calls : List CallArgs) : Decidable (RaisesOnLast f cnt calls) := by
  unfold RaisesOnLast
  infer_instance

theorem python_feed (f : PyFunc) (py : Interp) (rs : List Record) :
    feed (pythonCallBack f) py rs = py.callAll f (plainCalls rs) ∧
      (Quiet (pythonCallBack f) py rs ↔ firstRaise f py.calls (plainCalls rs) = none) := by
  induction rs generalizing py with
  | nil => exact ⟨rfl, by simp [Quiet, plainCalls, firstRaise]⟩
  | cons r rs ih =>
    obtain ⟨hfeed, hiff⟩ := ih (pythonCallBack f py r).1
    refine ⟨hfeed, ?_⟩
    rw [Quiet, hiff, pythonCallBack, Interp.callObject_raised, Interp.callObject_calls,
      plainCalls_cons, firstRaise]
    cases f py.calls ⟨r.hdr, r.data, none⟩ <;> simp

theorem python_broke {f : PyFunc} {pre : List Record} {r : Record}
    (hq : Quiet (pythonCallBack f) {} pre)
    (hb : (pythonCallBack f (feed (pythonCallBack f) {} pre) r).2 = true) :
    firstRaise f [] (plainCalls pre) = none ∧ ∃ e,
      firstRaise f [] (plainCalls (pre ++ [r])) = some e ∧
      feed (pythonCallBack f) {} (pre ++ [r]) = ⟨plainCalls (pre ++ [r]), some e⟩ := by
  have hquiet := (python_feed f {} pre).2.mp hq
  refine ⟨hquiet, ?_⟩
  rw [pythonCallBack, Interp.callObject_raised, (python_feed f {} pre).1, Interp.callAll_calls,
    List.nil_append, Option.isSome_iff_exists] at hb
  rcases hb with ⟨e, he⟩
  have hraise : firstRaise f [] (plainCalls pre ++ plainCalls [r]) = some e := by
    rw [firstRaise_append, hquiet, Option.none_or]
    exact (firstRaise_singleton _ _).trans he
  rw [plainCalls_append]
  refine ⟨e, hraise, ?_⟩
  rw [(python_feed f {} (pre ++ [r])).1, plainCalls_append]
  apply Interp.ext
  · exact Interp.callAll_calls {} _
  · exact Interp.callAll_err_of_raise {} hquiet (by simp) hraise

theorem not_raisesOnLast {f : PyFunc} {cnt : Int} {rs : List Record}
    (h : firstRaise f [] (plainCalls (due cnt rs)) = none) :
    ¬ RaisesOnLast f cnt (plainCalls rs) := by
  intro hex
  rcases hex with ⟨hcnt, -, hne⟩
  rw [due, if_pos hcnt, plainCalls, List.map_take, ← plainCalls] at h
  exact hne h

theorem raisesOnLast_iff {f : PyFunc} {cnt : Int} {pre post : List Record} {r : Record} {e : PyExc}
    (hpre : firstRaise f [] (plainCalls pre) = none)
    (hr : firstRaise f [] (plainCalls (pre ++ [r])) = some e) (hlim : cnt ≤ 0 ∨ pre.length < cnt) :
    RaisesOnLast f cnt (plainCalls (pre ++ r :: post)) ↔ cnt = pre.length + 1 := by
  have hsplit : plainCalls (pre ++ r :: post) = plainCalls (pre ++ [r]) ++ plainCalls post := by simp
  rw [hsplit]
  constructor
  · intro h
    rcases h with ⟨hcnt, hnone, -⟩
    by_contra hne
    have hlen : (plainCalls (pre ++ [r])).length ≤ cnt.toNat - 1 := by
      simp only [plainCalls_length, List.length_append, List.length_singleton]
      omega
    rw [List.take_append, List.take_of_length_le hlen, firstRaise_append, hr] at hnone
    cases hnone
  · intro hcnt
    have htake : cnt.toNat = (plainCalls (pre ++ [r])).length := by
      simp only [plainCalls_length, List.length_append, List.length_singleton]
      omega
    have htake' : cnt.toNat - 1 = (plainCalls pre).length := by
      simp only [plainCalls_length]
      omega
    refine ⟨by omega, ?_, ?_⟩
    · rw [htake', plainCalls_append, List.append_assoc, List.take_left']
      · exact hpre
      · rfl
    · rw [htake, List.take_left' rfl, hr]
      exact Option.some_ne_none e

section Outcomes
variable {α : Type} {f : PyFunc} {made : List CallArgs} {readError : Prop}

theorem Faithful.of_raise {e : PyExc} (h : firstRaise f [] made = some e) :
    PcapyNg.Faithful f made readError (.raise e : PyOutcome α) where
  raised e' he := by
    cases h.symm.trans he
    rfl
  finished hn := by cases hn.symm.trans h
  exclusive := by simp [PyOutcome.raise]

theorem Faithful.of_quiet [Decidable readError] (h : firstRaise f [] made = none) (text : String)
    (a : α) :
    PcapyNg.Faithful f made readError (if readError then .raise (.pcapError text) else .ret a) where
  raised e he := by cases h.symm.trans he
  finished _ hread := by
    rw [if_neg hread]
    exact ⟨rfl, rfl⟩
  exclusive := by split <;> simp [PyOutcome.raise, PyOutcome.ret]

end Outcomes
theorem pDispatch_of_run {lib : Libpcap} {pp : PcapObject} {c c' : Capture} {cant : Int32}
    {f : PyFunc} {ret : Int} {py : Interp} (hpcap : pp.pcap = some c)
    (hrun : lib.dispatch (pythonCallBack f) cant.toInt c {} = (ret, c', py)) :
    pDispatch lib pp cant f =
      (checkedOutcome (lib.geterr c') ret py.err ret, { pp with pcap := some c' }, py.calls) := by
  rw [pDispatch, hpcap]
  simp only [hrun]

theorem pLoop_of_run {lib : Libpcap} {pp : PcapObject} {c c' : Capture} {cant : Int32}
    {f : PyFunc} {ret : Int} {py : Interp} (hpcap : pp.pcap = some c)
    (hrun : lib.loop (pythonCallBack f) cant.toInt c {} = (ret, c', py)) :
    pLoop lib pp cant f =
      (loopOutcome (lib.geterr c') ret py.err (), { pp with pcap := some c' }, py.calls) := by
  rw [pLoop, hpcap]
  simp only [hrun]

section Methods
variable (lib : Libpcap) (pp : PcapObject) {c : Capture} (cant : Int32) (f : PyFunc)

theorem dispatch_faithful (hpcap : pp.pcap = some c) (hbrk : c.brk = false) :
    Entry.Faithful lib pp c cant f .dispatch := by
  rcases c with ⟨rs, ending, brk⟩
  cases hbrk
  obtain ⟨ret, c', py, hrun, hread⟩ :=
    lib.dispatch_run (pythonCallBack f) cant.toInt ⟨rs, ending, false⟩ {}
  rw [Entry.Faithful, pDispatch_of_run hpcap hrun]
  rcases quiet_or_break (h := pythonCallBack f) {} (due cant.toInt rs) with
    hq | ⟨pre, r, post, hdue, hq, hb⟩
  · have hquiet := (python_feed f {} (due cant.toInt rs)).2.mp hq
    obtain ⟨rfl, -, hret⟩ := hread.quiet_start hq
    rw [(python_feed f {} _).1, Interp.callAll_calls, Interp.callAll_err _ hquiet]
    have hout : checkedOutcome (lib.geterr c') ret none ret =
        if CutShort cant.toInt ⟨rs, ending, false⟩ then .raise (.pcapError (lib.geterr c'))
        else .ret ret := by
      by_cases hcut : CutShort cant.toInt ⟨rs, ending, false⟩
      · rw [if_pos hcut] at hret ⊢
        subst hret
        rfl
      · rw [if_neg hcut] at hret ⊢
        rw [checkedOutcome, if_neg (by simp), loopOutcome, if_neg (by omega)]
        rfl
    rw [hout]
    exact .of_quiet hquiet _ _
  · obtain ⟨-, e, hraise, hfeed⟩ := python_broke hq hb
    obtain rfl := hread.broke_start hdue hq hb
    rw [hfeed]
    exact .of_raise hraise

theorem loop_faithful_iff (hpcap : pp.pcap = some c) (hbrk : c.brk = false) :
    Entry.Faithful lib pp c cant f .loop ↔
      ¬ RaisesOnLast f cant.toInt (plainCalls c.pending) := by
  rcases c with ⟨rs, ending, brk⟩
  cases hbrk
  obtain ⟨ret, c', py, hrun, hloop⟩ :=
    lib.loop_run (pythonCallBack f) cant.toInt ⟨rs, ending, false⟩ {}
  rw [Entry.Faithful, pLoop_of_run hpcap hrun]
  rcases quiet_or_break (h := pythonCallBack f) {} (due cant.toInt rs) with
    hq | ⟨pre, r, post, hdue, hq, hb⟩
  · have hquiet := (python_feed f {} (due cant.toInt rs)).2.mp hq
    obtain ⟨rfl, -, rfl⟩ := hloop.quiet hq
    rw [(python_feed f {} _).1, Interp.callAll_calls, Interp.callAll_err _ hquiet]
    have hout : loopOutcome (lib.geterr c') (if CutShort cant.toInt ⟨rs, ending, false⟩ then -1 else 0)
          none () =
        if CutShort cant.toInt ⟨rs, ending, false⟩ then .raise (.pcapError (lib.geterr c'))
        else .ret () := by
      by_cases hcut : CutShort cant.toInt ⟨rs, ending, false⟩
      · rw [if_pos hcut, if_pos hcut]
        rfl
      · rw [if_neg hcut, if_neg hcut]
        rfl
    rw [hout]
    exact iff_of_true (.of_quiet hquiet _ _) (not_raisesOnLast hquiet)
  · obtain ⟨hpre, e, hraise, hfeed⟩ := python_broke hq hb
    obtain ⟨rfl, rfl⟩ := hloop.broke_due hdue hq hb
    rw [hfeed, due_split hdue, raisesOnLast_iff hpre hraise (due_limit hdue)]
    by_cases hlast : cant.toInt = pre.length + 1
    · -- the count is reached: the exception stays pending behind the value
      rw [if_pos hlast]
      exact iff_of_false (fun h => h.exclusive ⟨rfl, rfl⟩) (fun h => h hlast)
    · rw [if_neg hlast]
      exact iff_of_true (.of_raise hraise) hlast

theorem loopFiltered_faithful (hpcap : pp.pcap = some c) (hbrk : c.brk = false) {alloc : LoopAlloc}
    {args : LoopArgs} (hstart : Entry.Starts c cant (.loopFiltered alloc args)) :
    Entry.Faithful lib pp c cant f (.loopFiltered alloc args) := by
  rcases hstart with ⟨cl, ks, flowtab, hsetup, hks⟩
  cases hraise : firstRaise f []
    (delivered args.admitMask (profileBase cl.cfg) (due cant.toInt c.pending) ks) with
  | none =>
    obtain ⟨c', -, hrun⟩ := loopFiltered_quiet lib alloc pp { args with cnt := cant } f
      hpcap hbrk hsetup hks hraise
    exact ⟨_, _, _, hrun, .of_quiet hraise _ _⟩
  | some e =>
    obtain ⟨c', n, -, -, hfirst, hrun⟩ := loopFiltered_raised lib alloc pp
      { args with cnt := cant } f hpcap hbrk hsetup hks hraise
    exact ⟨_, _, _, hrun, .of_raise hfirst⟩

end Methods

/-- A method tells what its callback did, except `loop` when the call that raises is the last
one asked for. -/
theorem callback_outcome_faithful_iff (lib : Libpcap) (pp : PcapObject) (c : Capture)
    (hpcap : pp.pcap = some c) (hbrk : c.brk = false) (cant : Int32) (f : PyFunc) (m : Entry)
    (hstart : m.Starts c cant) :
    m.Faithful lib pp c cant f ↔ ¬ (m = .loop ∧ RaisesOnLast f cant.toInt (plainCalls c.pending)) := by
  cases m with
  | loop => simpa using loop_faithful_iff lib pp cant f hpcap hbrk
  | dispatch => exact iff_of_true (dispatch_faithful lib pp cant f hpcap hbrk) (by simp)
  | loopFiltered alloc args =>
    exact iff_of_true (loopFiltered_faithful lib pp cant f hpcap hbrk hstart) (by simp)

theorem callback_outcome_faithful_iff_two :
    Entry.Faithful .offline ⟨some ⟨[udpRecord, udpRecord], .eof, false⟩, [], 0⟩
      ⟨[udpRecord, udpRecord], .eof, false⟩ 2 (fun _ _ => some (.user "KeyError")) .loop :=
  (callback_outcome_faithful_iff .offline ⟨some ⟨[udpRecord, udpRecord], .eof, false⟩, [], 0⟩
    ⟨[udpRecord, udpRecord], .eof, false⟩ rfl rfl 2 (fun _ _ => some (.user "KeyError")) .loop
    trivial).mpr fun h => absurd h.2 (by decide)

/-- One packet asked for and the callback raises on it: None is returned, the exception pending. -/
theorem loop_returns_with_exception_pending :
    (pLoop .offline ⟨some ⟨[udpRecord], .eof, false⟩, [], 0⟩ 1
      (fun _ _ => some (.user "KeyError"))).1 = ⟨some (), some (.user "KeyError")⟩ ∧
    ¬ Entry.Faithful .offline ⟨some ⟨[udpRecord], .eof, false⟩, [], 0⟩
      ⟨[udpRecord], .eof, false⟩ 1 (fun _ _ => some (.user "KeyError")) .loop :=
  ⟨by decide, fun h => absurd (h.raised (.user "KeyError") (by decide)) (by decide)⟩

end PcapyNg
