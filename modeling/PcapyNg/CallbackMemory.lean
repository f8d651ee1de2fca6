import PcapyNg.CallMemory

/-!
# Calls into Python and what the callback loops own

A callback takes the GIL for one call into Python and gives back every reference the call
needed, except that `Py_DECREF` is applied to the header object whether there is one or not.
That makes the one thing a method relies on without asking: a header object for every packet
it hands to Python. With it, a method ends owning what it owned before and its result.
-/

namespace PcapyNg
open ReadLoop OwnedHeap
set_option autoImplicit false

/-! One call into Python. -/

/-- What happens to one packet that is handed over: whether `new_pcap_pkthdr` and
`Py_BuildValue` succeed, and what the callable does when it is called without arguments. -/
structure Delivery where
  header : Bool := true
  arglist : Bool := true
  bare : Option PyExc := none

section Calls
variable (ts : Nat)

/-- `PyObject_CallObject` with a NULL for the arguments, after an allocation has failed. -/
def Interp.callBare (bare : Option PyExc) (py : Interp) : Interp × Bool :=
  (⟨py.calls, bare.or (some .memoryError)⟩, bare.isSome)

/-- What `PythonCallBack` and `FilteredCallBack` do between taking the GIL and giving it up. -/
def callPython (d : Delivery) (f : PyFunc) (py : Interp) (args : CallArgs) :
    Mem (Interp × Bool) := do
  let hdr ← newReference ts d.header
  let arglist ← newReference ts (hdr.isSome && d.arglist)
  let (py, raised) := if arglist.isSome then py.callObject f args else py.callBare d.bare
  let result ← newReference ts (!raised)
  pyXdecref ts arglist
  pyXdecref ts result
  pyDecref ts hdr
  return (py, raised)

def pythonCallBackMem (f : PyFunc) (py : Interp) (r : Record) (d : Delivery) :
    Mem (Interp × Bool) := do
  restoreThread ts
  let (py, raised) ← callPython ts d f py ⟨r.hdr, r.data, none⟩
  saveThread ts
  return (py, raised)

def filteredCallBackMem (blocks : LoopBlocks) (f : PyFunc) (c : FilteredContext) (r : Record)
    (d : Delivery) : Mem (FilteredContext × Bool) := do
  blocks.read
  let (idx, flowtab) ← code (c.classify c.flowtab r)
  let live ← code (bump c.live (2 + idx))
  if (c.admitMask >>> Int32.ofNat idx) &&& 1 = 0 then
    let live ← code (bump live 1)
    return ({ c with flowtab := flowtab, live := live }, false)
  else
    let live ← code (bump live 0)
    let cls : Int := profileBase c.cfg + idx
    restoreThread ts
    let (py, raised) ← callPython ts d f c.py ⟨r.hdr, r.data, some cls⟩
    saveThread ts
    return ({ c with flowtab := flowtab, live := live, py := py }, raised)

/-- What `pcap_loop` or `pcap_dispatch` does with a callback: the packets it hands over, one
after the other, and the value it returns. -/
structure LoopRun where
  handed : List (Record × Delivery)
  ret : Int
  errbuf : String
  /-- whether the value for the caller can be built -/
  result : Bool := true

def handOver {σ : Type} (k : σ → Record → Delivery → Mem (σ × Bool)) :
    σ → List (Record × Delivery) → Mem σ
  | s, [] => return s
  | s, (r, d) :: rest => do
    let (s, _) ← k s r d
    handOver k s rest

/-- The value of a method as a reference for the caller. -/
def returning {α : Type} (ok : Bool) (o : PyOutcome α) : Mem (PyOutcome α × Pointer) :=
  if o.value.isSome then do
    let result ← newReference ts ok
    return (if result.isSome then o else .raise .memoryError, result)
  else return (o, none)

/-- `p_dispatch` and `p_loop` on an open Reader; `PcapCallbackContext` holds a reference to the
callable as long as it lives. -/
def callbackLoopMem {α : Type} (f : PyFunc) (run : LoopRun) (outcome : Option PyExc → PyOutcome α)
    (ok : Bool) : Mem (PyOutcome α × Pointer) := do
  let pyfunc ← newReference ts true
  saveThread ts
  let py ← handOver (pythonCallBackMem ts f) {} run.handed
  restoreThread ts
  let result ← returning ts ok (outcome py.err)
  pyDecref ts pyfunc
  return result

def pDispatchMem (f : PyFunc) (run : LoopRun) : Mem (PyOutcome Int × Pointer) :=
  callbackLoopMem ts f run (fun err => checkedOutcome run.errbuf run.ret err run.ret) run.result

/-- `Py_INCREF(Py_None); return Py_None;` cannot fail. -/
def pLoopMem (f : PyFunc) (run : LoopRun) : Mem (PyOutcome Unit × Pointer) :=
  callbackLoopMem ts f run (fun err => loopOutcome run.errbuf run.ret err ()) true

def pLoopFilteredMem (alloc : LoopAlloc) (args : LoopArgs) (f : PyFunc) (run : LoopRun) :
    Mem (PyOutcome (List UInt64) × Pointer) := do
  match ← loopSetupMem ts (pure ()) filteredProfileError alloc args with
  | .error e => return (.raise e, none)
  | .ok (cl, blocks) =>
    saveThread ts
    let c ← handOver (filteredCallBackMem ts blocks f) (.start cl args.admitMask) run.handed
    restoreThread ts
    blocks.release
    returning ts run.result
      (checkedOutcome run.errbuf run.ret c.py.err (reported args.profile c.live))

end Calls

/-! Calls into Python and the runs made of them. -/

section Calls
variable {ts : Nat} {own : Multiset (Held × Nat)} {d : Delivery}

theorem keeps_callPython (hd : d.header = true) (f : PyFunc) (py : Interp) (args : CallArgs) :
    Keeps (withGil ts own) (callPython ts d f py args) (fun _ => withGil ts own)
      fun x => d.arglist = true → x = py.callObject f args := by
  unfold callPython
  apply Keeps.bind (keeps_newReference own d.header)
  intro hdr hhdr
  rw [hd] at hhdr
  obtain ⟨hdr, rfl⟩ := Option.isSome_iff_exists.mp hhdr
  apply Keeps.bind (keeps_newReference _ _)
  intro arglist harglist
  simp only
  generalize hcall : (if arglist.isSome then py.callObject f args else py.callBare d.bare) = call
  apply Keeps.bind (keeps_newReference _ _)
  intro result _
  apply Keeps.of_eq (congrArg (withGil ts) (add_left_comm _ _ _))
  apply Keeps.seq (keeps_pyXdecref arglist)
  apply Keeps.seq (keeps_pyXdecref result)
  apply Keeps.seq (keeps_pyDecref hdr)
  refine Keeps.pure ?_ rfl
  intro hok
  rw [hok] at harglist
  rw [← hcall, harglist]
  rfl

/-- Without a header there is no argument list either, and then `Py_DECREF(hdr)`. -/
theorem faults_callPython (hd : d.header = false) (f : PyFunc) (py : Interp) (args : CallArgs) :
    Faults .nullPointer (withGil ts own) (callPython ts d f py args) := by
  unfold callPython
  apply Faults.bind_right (keeps_newReference own d.header)
  intro hdr hhdr
  rw [hd] at hhdr
  obtain rfl := Option.isNone_iff_eq_none.mp (Option.isSome_eq_false_iff.mp hhdr)
  apply Faults.bind_right (keeps_newReference _ _)
  intro arglist harglist
  simp only
  apply Faults.bind_right (keeps_newReference _ _)
  intro result _
  apply Faults.seq
    (Keeps.of_eq (congrArg (withGil ts) (add_left_comm _ _ _)) (keeps_pyXdecref arglist))
  apply Faults.seq (keeps_pyXdecref result)
  exact faults_pyDecref_null.bind_left

theorem keeps_pythonCallBack (hd : d.header = true) (f : PyFunc) (py : Interp) (r : Record) :
    Keeps (withoutGil ts own) (pythonCallBackMem ts f py r d) (fun _ => withoutGil ts own)
      fun x => d.arglist = true → x = pythonCallBack f py r := by
  unfold pythonCallBackMem
  apply Keeps.seq (keeps_restoreThread own)
  apply Keeps.bind (keeps_callPython hd f py _)
  intro x hx
  apply Keeps.seq (keeps_saveThread own)
  exact Keeps.pure hx rfl

theorem faults_pythonCallBack (hd : d.header = false) (f : PyFunc) (py : Interp) (r : Record) :
    Faults .nullPointer (withoutGil ts own) (pythonCallBackMem ts f py r d) := by
  unfold pythonCallBackMem
  apply Faults.seq (keeps_restoreThread own)
  exact (faults_callPython hd f py _).bind_left

/-- The packets that are left to hand over. -/
abbrev Handed := List (Record × Delivery)

section HandOver
variable {σ : Type} {k : σ → Record → Delivery → Mem (σ × Bool)} {I : σ → Handed → Prop}

theorem keeps_handOver
    (hstep : ∀ s r d rest, I s ((r, d) :: rest) →
      Keeps own (k s r d) (fun _ => own) fun x => I x.1 rest) {s : σ} {handed : Handed}
    (hI : I s handed) : Keeps own (handOver k s handed) (fun _ => own) fun s' => I s' [] := by
  induction handed generalizing s with
  | nil => exact Keeps.pure hI rfl
  | cons x rest ih =>
    apply Keeps.bind (hstep s x.1 x.2 rest hI)
    intro x hx
    exact ih hx

theorem faults_handOver {fault : MemFault} (hnil : ∀ s, ¬ I s [])
    (hstep : ∀ s r d rest, I s ((r, d) :: rest) → Faults fault own (k s r d) ∨
      Keeps own (k s r d) (fun _ => own) fun x => I x.1 rest) {s : σ} {handed : Handed}
    (hI : I s handed) : Faults fault own (handOver k s handed) := by
  induction handed generalizing s with
  | nil => exact absurd hI (hnil s)
  | cons x rest ih =>
    rcases hstep s x.1 x.2 rest hI with hfault | hkeep
    · exact hfault.bind_left
    · exact Faults.bind_right hkeep fun x hx => ih hx

end HandOver

/-- Every argument list can be built. -/
def Handed.Built (handed : Handed) : Prop := ∀ x ∈ handed, x.2.arglist = true

theorem keeps_plain_run {handed : Handed} (hheaders : ∀ x ∈ handed, x.2.header = true)
    (f : PyFunc) (py : Interp) :
    Keeps (withoutGil ts own) (handOver (pythonCallBackMem ts f) py handed)
      (fun _ => withoutGil ts own)
      fun py' => handed.Built → py' = feed (pythonCallBack f) py (handed.map Prod.fst) := by
  let I : Interp → Handed → Prop := fun py' rest =>
    (∀ x ∈ rest, x.2.header = true) ∧ (handed.Built → rest.Built ∧
      feed (pythonCallBack f) py (handed.map Prod.fst) =
        feed (pythonCallBack f) py' (rest.map Prod.fst))
  apply (keeps_handOver (I := I) ?_ ⟨hheaders, fun h => ⟨h, rfl⟩⟩).weaken (fun _ _ => rfl)
  · intro py' hpy' hbuilt
    exact (hpy'.2 hbuilt).2.symm
  · intro py' r d rest hI
    apply (keeps_pythonCallBack (hI.1 _ List.mem_cons_self) f py' r).weaken (fun _ _ => rfl)
    intro x hx
    refine ⟨fun y hy => hI.1 y (List.mem_cons_of_mem _ hy), ?_⟩
    intro hbuilt
    obtain ⟨hrest, hfeed⟩ := hI.2 hbuilt
    refine ⟨fun y hy => hrest y (List.mem_cons_of_mem _ hy), ?_⟩
    rw [hfeed, hx (hrest _ List.mem_cons_self)]
    rfl

theorem faults_plain_run {handed : Handed} (hmissing : ∃ x ∈ handed, x.2.header = false)
    (f : PyFunc) (py : Interp) :
    Faults .nullPointer (withoutGil ts own) (handOver (pythonCallBackMem ts f) py handed) := by
  apply faults_handOver (I := fun _ rest => ∃ x ∈ rest, x.2.header = false) (by simp) ?_ hmissing
  intro py' r d rest hI
  cases hd : d.header with
  | false => exact Or.inl (faults_pythonCallBack hd f py' r)
  | true =>
    right
    apply (keeps_pythonCallBack hd f py' r).weaken (fun _ _ => rfl)
    intro _ _
    rcases hI with ⟨x, hx, hxd⟩
    rcases List.mem_cons.mp hx with rfl | hx
    · cases hd.symm.trans hxd
    · exact ⟨x, hx, hxd⟩

/-- A method hands back a reference exactly where it hands back a value. -/
def OwnsValue {α : Type} (r : PyOutcome α × Pointer) : Prop := r.1.value.isSome = r.2.isSome

theorem keeps_returning {α : Type} (ok : Bool) (o : PyOutcome α) :
    Keeps (withGil ts own) (returning ts ok o) (fun r => withGil ts (owned .reference r.2 + own))
      fun r => OwnsValue r ∧ (ok = true → r.1 = o) := by
  unfold returning
  by_cases ho : o.value.isSome
  · rw [if_pos ho]
    apply Keeps.bind (keeps_newReference own ok)
    intro result hresult
    refine Keeps.pure ?_ rfl
    unfold OwnsValue
    cases result with
    | none => exact ⟨rfl, fun hok => by simp [hok] at hresult⟩
    | some n => exact ⟨ho, fun _ => rfl⟩
  · rw [if_neg ho]
    refine Keeps.pure ⟨?_, fun _ => rfl⟩ (congrArg (withGil ts) (zero_add own).symm)
    simpa [OwnsValue] using ho

theorem keeps_callbackLoop {α : Type} {run : LoopRun}
    (hheaders : ∀ x ∈ run.handed, x.2.header = true) (f : PyFunc)
    (outcome : Option PyExc → PyOutcome α) (ok : Bool) :
    Keeps (withGil ts own) (callbackLoopMem ts f run outcome ok)
      (fun r => withGil ts (owned .reference r.2 + own))
      fun r => OwnsValue r ∧ (Handed.Built run.handed → ok = true →
        r.1 = outcome (feed (pythonCallBack f) {} (run.handed.map Prod.fst)).err) := by
  unfold callbackLoopMem
  apply Keeps.bind (keeps_newReference own true)
  intro pyfunc hpyfunc
  obtain ⟨pyfunc, rfl⟩ := Option.isSome_iff_exists.mp hpyfunc
  apply Keeps.seq (keeps_saveThread _)
  apply Keeps.bind (keeps_plain_run hheaders f {})
  intro py hpy
  apply Keeps.seq (keeps_restoreThread _)
  apply Keeps.bind (keeps_returning ok (outcome py.err))
  intro r hr
  apply Keeps.of_eq (congrArg (withGil ts) (add_left_comm _ _ _))
  apply Keeps.seq (keeps_pyDecref pyfunc)
  refine Keeps.pure ⟨hr.1, ?_⟩ rfl
  intro hbuilt hok
  rw [hr.2 hok, hpy hbuilt]

theorem faults_callbackLoop {α : Type} {run : LoopRun}
    (hmissing : ∃ x ∈ run.handed, x.2.header = false) (f : PyFunc)
    (outcome : Option PyExc → PyOutcome α) (ok : Bool) :
    Faults .nullPointer (withGil ts own) (callbackLoopMem ts f run outcome ok) := by
  unfold callbackLoopMem
  apply Faults.bind_right (keeps_newReference own true)
  intro pyfunc _
  apply Faults.seq (keeps_saveThread _)
  exact (faults_plain_run hmissing f {}).bind_left

end Calls

section Filtered
variable {ts : Nat} {own : Multiset (Held × Nat)} {d : Delivery} {r : Record} {c : FilteredContext}
  {k : Nat} {flowtab : Option FlowTab}

theorem bump_length {a : List UInt64} {i : Nat} (hi : i < a.length) :
    ∃ a', bump a i = .ok a' ∧ a'.length = a.length := by
  refine ⟨a.modify i (· + 1), if_pos hi, ?_⟩
  exact List.length_modify _ _ _

/-- The context behind a packet, whatever became of the call into Python. -/
structure Follows (c : FilteredContext) (flowtab : Option FlowTab) (c' : FilteredContext) :
    Prop where
  classifier : c'.toClassifier = { c.toClassifier with flowtab := flowtab }
  admitMask : c'.admitMask = c.admitMask
  live : c'.live.length = c.live.length

theorem keeps_filteredCallBack (hlive : c.live.length = 8)
    (hk : c.classify c.flowtab r = .ok (k, flowtab)) (hd : Admits c.admitMask k → d.header = true)
    (b : LoopBlocks) (f : PyFunc) :
    Keeps (withoutGil ts (b.own + own)) (filteredCallBackMem ts b f c r d)
      (fun _ => withoutGil ts (b.own + own))
      fun x => Follows c flowtab x.1 ∧ (d.arglist = true → filteredCallBack f c r = .ok x) := by
  have hlt := classify_lt hk
  obtain ⟨live, hclass, hlen⟩ := bump_length (a := c.live) (i := 2 + k) (by omega)
  obtain ⟨dropped, hdropped, hlen₁⟩ := bump_length (a := live) (i := 1) (by omega)
  obtain ⟨admitted, hadmitted, hlen₀⟩ := bump_length (a := live) (i := 0) (by omega)
  unfold filteredCallBackMem filteredCallBack
  apply Keeps.seq (offGil (keeps_read b))
  apply Keeps.bind (keeps_code hk)
  rintro _ rfl
  apply Keeps.bind (keeps_code hclass)
  rintro _ rfl
  simp only [hk, hclass, bind, Except.bind]
  by_cases hmask : Admits c.admitMask k
  · simp only [admit_bit_iff hlt, hmask, not_true_eq_false, if_false]
    apply Keeps.bind (keeps_code hadmitted)
    rintro _ rfl
    apply Keeps.seq (keeps_restoreThread _)
    apply Keeps.bind (keeps_callPython (hd hmask) f c.py _)
    intro x hx
    apply Keeps.seq (keeps_saveThread _)
    refine Keeps.pure ⟨⟨rfl, rfl, hlen₀.trans hlen⟩, ?_⟩ rfl
    intro hok
    rw [hadmitted, hx hok]
    rfl
  · simp only [admit_bit_iff hlt, hmask, not_false_eq_true, if_true]
    apply Keeps.bind (keeps_code hdropped)
    rintro _ rfl
    refine Keeps.pure ⟨⟨rfl, rfl, hlen₁.trans hlen⟩, ?_⟩ rfl
    intro _
    rw [hdropped]
    rfl

theorem faults_filteredCallBack (hlive : c.live.length = 8)
    (hk : c.classify c.flowtab r = .ok (k, flowtab)) (hmask : Admits c.admitMask k)
    (hd : d.header = false) (b : LoopBlocks) (f : PyFunc) :
    Faults .nullPointer (withoutGil ts (b.own + own)) (filteredCallBackMem ts b f c r d) := by
  have hlt := classify_lt hk
  obtain ⟨live, hclass, hlen⟩ := bump_length (a := c.live) (i := 2 + k) (by omega)
  obtain ⟨admitted, hadmitted, -⟩ := bump_length (a := live) (i := 0) (by omega)
  unfold filteredCallBackMem
  apply Faults.seq (offGil (keeps_read b))
  apply Faults.bind_right (keeps_code hk)
  rintro _ rfl
  apply Faults.bind_right (keeps_code hclass)
  rintro _ rfl
  simp only [admit_bit_iff hlt, hmask, not_true_eq_false, if_false]
  apply Faults.bind_right (keeps_code hadmitted)
  rintro _ rfl
  apply Faults.seq (keeps_restoreThread _)
  exact (faults_callPython hd f c.py _).bind_left

/-- A packet of these classes is admitted for which no header object can be made. -/
def MissesHeader (mask : Int32) (handed : Handed) (ks : List Nat) : Prop :=
  ∃ x ∈ handed.zip ks, Admits mask x.2 ∧ x.1.2.header = false

theorem missesHeader_cons {mask : Int32} {x : Record × Delivery} {rest : Handed} {ks : List Nat} :
    MissesHeader mask (x :: rest) (k :: ks) ↔
      Admits mask k ∧ x.2.header = false ∨ MissesHeader mask rest ks := by
  simp [MissesHeader]

/-- The packets left are of these classes. -/
structure Ahead (c : FilteredContext) (rest : Handed) (ks : List Nat) : Prop where
  classes : ∃ flowtab, classifyAll c.classify c.flowtab (rest.map Prod.fst) = .ok (ks, flowtab)
  live : c.live.length = 8

theorem Ahead.next {rest : Handed} {ks : List Nat} {x : Record × Delivery}
    (h : Ahead c (x :: rest) ks) : ∃ k flowtab ks', ks = k :: ks' ∧
      c.classify c.flowtab x.1 = .ok (k, flowtab) ∧
        ∀ c', Follows c flowtab c' → Ahead c' rest ks' := by
  obtain ⟨flowtab', hks⟩ := h.classes
  obtain ⟨k, flowtab, ks', hk, hrest, rfl⟩ := classifyAll_cons_ok hks
  refine ⟨k, flowtab, ks', rfl, hk, fun c' hc' => ⟨⟨flowtab', ?_⟩, hc'.live.trans h.live⟩⟩
  have hsame : c'.classify = c.classify := by
    unfold Classifier.classify
    rw [hc'.classifier]
  rw [hsame, hc'.classifier]
  exact hrest

theorem keeps_filtered_run {handed : Handed} {ks : List Nat} (hahead : Ahead c handed ks)
    (hheaders : ¬ MissesHeader c.admitMask handed ks) (b : LoopBlocks) (f : PyFunc) :
    Keeps (withoutGil ts (b.own + own)) (handOver (filteredCallBackMem ts b f) c handed)
      (fun _ => withoutGil ts (b.own + own))
      fun c' => handed.Built →
        feed (faultHandler (filteredCallBack f)) (.ok c) (handed.map Prod.fst) = .ok c' := by
  let I : FilteredContext → Handed → Prop := fun c' rest =>
    (∃ ks, Ahead c' rest ks ∧ ¬ MissesHeader c'.admitMask rest ks) ∧
      (handed.Built → rest.Built ∧
        feed (faultHandler (filteredCallBack f)) (.ok c) (handed.map Prod.fst) =
          feed (faultHandler (filteredCallBack f)) (.ok c') (rest.map Prod.fst))
  apply (keeps_handOver (I := I) ?_ ⟨⟨ks, hahead, hheaders⟩, fun h => ⟨h, rfl⟩⟩).weaken
    (fun _ _ => rfl)
  · intro c' hc' hbuilt
    exact (hc'.2 hbuilt).2
  · rintro c' r d rest ⟨⟨ks, hahead, hheaders⟩, hrun⟩
    obtain ⟨k, flowtab, ks', rfl, hk, hnext⟩ := hahead.next
    rw [missesHeader_cons, not_or, not_and, Bool.not_eq_false] at hheaders
    apply (keeps_filteredCallBack hahead.live hk hheaders.1 b f).weaken (fun _ _ => rfl)
    rintro x ⟨hfollows, hx⟩
    refine ⟨⟨ks', hnext _ hfollows, hfollows.admitMask ▸ hheaders.2⟩, ?_⟩
    intro hbuilt
    obtain ⟨hrest, hfeed⟩ := hrun hbuilt
    refine ⟨fun y hy => hrest y (List.mem_cons_of_mem _ hy), ?_⟩
    rw [hfeed, List.map_cons, feed, faultHandler, hx (hrest _ List.mem_cons_self)]

theorem faults_filtered_run {handed : Handed} {ks : List Nat} (hahead : Ahead c handed ks)
    (hmissing : MissesHeader c.admitMask handed ks) (b : LoopBlocks) (f : PyFunc) :
    Faults .nullPointer (withoutGil ts (b.own + own))
      (handOver (filteredCallBackMem ts b f) c handed) := by
  apply faults_handOver
    (I := fun c' rest => ∃ ks, Ahead c' rest ks ∧ MissesHeader c'.admitMask rest ks) ?_ ?_
    ⟨ks, hahead, hmissing⟩
  · rintro c' ⟨ks, -, x, hx, -⟩
    simp at hx
  · rintro c' r d rest ⟨ks, hahead, hmissing⟩
    obtain ⟨k, flowtab, ks', rfl, hk, hnext⟩ := hahead.next
    by_cases hnow : Admits c'.admitMask k ∧ d.header = false
    · exact Or.inl (faults_filteredCallBack hahead.live hk hnow.1 hnow.2 b f)
    · right
      have hheader : Admits c'.admitMask k → d.header = true := by
        simpa [not_and, Bool.not_eq_false] using hnow
      apply (keeps_filteredCallBack hahead.live hk hheader b f).weaken (fun _ _ => rfl)
      rintro x ⟨hfollows, -⟩
      refine ⟨ks', hnext _ hfollows, ?_⟩
      rw [hfollows.admitMask]
      exact (missesHeader_cons.mp hmissing).resolve_left hnow

variable {alloc : LoopAlloc} {args : LoopArgs} {run : LoopRun}

/-- `loop_filtered` admits a packet for which no header object can be made. -/
def FilteredMissesHeader (alloc : LoopAlloc) (args : LoopArgs) (handed : Handed) : Prop :=
  ∃ cl ks flowtab, loopSetup filteredProfileError alloc args = .ok (.ok cl) ∧
    cl.classes (handed.map Prod.fst) = .ok (ks, flowtab) ∧ MissesHeader args.admitMask handed ks

/-- What the values of the calls say `loop_filtered` returns. -/
def filteredValue (alloc : LoopAlloc) (args : LoopArgs) (f : PyFunc) (run : LoopRun) :
    Except Fault (PyOutcome (List UInt64)) := do
  match ← loopSetup filteredProfileError alloc args with
  | .error e => return .raise e
  | .ok cl =>
    let last ← feed (faultHandler (filteredCallBack f)) (.ok (.start cl args.admitMask))
      (run.handed.map Prod.fst)
    return checkedOutcome run.errbuf run.ret last.py.err (reported args.profile last.live)

theorem keeps_noCleanup (own : Multiset (Held × Nat)) :
    Keeps (withGil ts (0 + own)) (pure () : Mem Unit) (fun _ => withGil ts own) fun _ => True :=
  Keeps.pure trivial (congrArg (withGil ts) (zero_add own))

theorem keeps_loopFiltered
    (hsmall : ∀ data, args.addrSet = some data → data.length / 4 ≤ 2 ^ 30)
    (hheaders : ¬ FilteredMissesHeader alloc args run.handed) (f : PyFunc) :
    Keeps (withGil ts own) (pLoopFilteredMem ts alloc args f run)
      (fun r => withGil ts (owned .reference r.2 + own))
      fun r => OwnsValue r ∧ (Handed.Built run.handed → run.result = true →
        filteredValue alloc args f run = .ok r.1) := by
  unfold pLoopFilteredMem filteredValue
  apply Keeps.of_eq (congrArg (withGil ts) (zero_add own).symm)
  apply Keeps.bind (keeps_loopSetup keeps_noCleanup filteredProfileError alloc hsmall)
  intro r hr
  rw [hr]
  rcases r with e | ⟨cl, b⟩
  · exact Keeps.pure ⟨rfl, fun _ _ => rfl⟩ rfl
  simp only [setupOwned, add_zero, Except.map]
  obtain ⟨e, he⟩ | ⟨cl', hcl', hclasses⟩ :=
    @loopSetup_classifies filteredProfileError alloc args hsmall
  · cases hr.symm.trans he
  obtain rfl : cl = cl' := Except.ok.inj (Except.ok.inj (hr.symm.trans hcl'))
  obtain ⟨ks, flowtab, hks⟩ := hclasses (run.handed.map Prod.fst)
  apply Keeps.seq (keeps_saveThread _)
  have hahead : Ahead (.start cl args.admitMask) run.handed ks := ⟨⟨flowtab, hks⟩, rfl⟩
  apply Keeps.bind
    (keeps_filtered_run hahead (fun h => hheaders ⟨cl, ks, flowtab, hcl', hks, h⟩) b f)
  intro c hc
  apply Keeps.seq (keeps_restoreThread _)
  apply Keeps.seq (underGil (keeps_release_blocks b))
  apply (keeps_returning run.result _).weaken (fun _ _ => rfl)
  rintro r ⟨howns, hr⟩
  refine ⟨howns, fun hbuilt hok => ?_⟩
  simp only [bind, Except.bind, hc hbuilt, hr hok]
  rfl

theorem faults_loopFiltered
    (hsmall : ∀ data, args.addrSet = some data → data.length / 4 ≤ 2 ^ 30)
    (hmissing : FilteredMissesHeader alloc args run.handed) (f : PyFunc) :
    Faults .nullPointer (withGil ts own) (pLoopFilteredMem ts alloc args f run) := by
  obtain ⟨cl, ks, flowtab, hcl, hks, hmissing⟩ := hmissing
  unfold pLoopFilteredMem
  apply Faults.bind_right (Keeps.of_eq (congrArg (withGil ts) (zero_add own).symm)
    (keeps_loopSetup keeps_noCleanup filteredProfileError alloc hsmall))
  intro r hr
  rcases r with e | ⟨cl', b⟩
  · cases hr.symm.trans hcl
  obtain rfl : cl' = cl := Except.ok.inj (Except.ok.inj (hr.symm.trans hcl))
  simp only [setupOwned, add_zero]
  apply Faults.seq (keeps_saveThread _)
  have hahead : Ahead (.start cl' args.admitMask) run.handed ks := ⟨⟨flowtab, hks⟩, rfl⟩
  exact (faults_filtered_run hahead hmissing b f).bind_left

end Filtered

/-! Whole calls. -/

section Whole
variable {α : Type} {ts : Nat} {h : Heap Held}

/-- The call ends with a reference for each value it returns, the GIL back, and nothing else
owned or given away. -/
def GivesBack (m : Mem (PyOutcome α × Pointer)) (h : Heap Held) : Prop :=
  ∃ r h', m h = .ok (r, h') ∧ h'.Sound ∧ h'.live = owned .reference r.2 + h.live ∧ OwnsValue r

theorem gil_own (hgil : (.gil, ts) ∈ h.live) : ∃ own, h.live = withGil ts own + 0 := by
  obtain ⟨own, hown⟩ := Multiset.exists_cons_of_mem hgil
  refine ⟨own, ?_⟩
  rw [hown, add_zero, withGil, Multiset.singleton_add]

theorem Keeps.whole {m : Mem (PyOutcome α × Pointer)} {val : PyOutcome α × Pointer → Prop}
    (hm : ∀ own, Keeps (withGil ts own) m (fun r => withGil ts (owned .reference r.2 + own)) val)
    (hsound : h.Sound) (hgil : (.gil, ts) ∈ h.live) :
    ∃ r h', m h = .ok (r, h') ∧ h'.Sound ∧ h'.live = owned .reference r.2 + h.live ∧ val r := by
  obtain ⟨own, hown⟩ := gil_own hgil
  obtain ⟨r, h', hrun, hsound', hlive, hval⟩ := hm own h 0 hsound hown
  refine ⟨r, h', hrun, hsound', ?_, hval⟩
  rw [hlive, hown, add_zero, add_zero]
  exact add_left_comm _ _ _

theorem Keeps.givesBack {m : Mem (PyOutcome α × Pointer)} {value : PyOutcome α × Pointer → Prop}
    (hm : ∀ own, Keeps (withGil ts own) m (fun r => withGil ts (owned .reference r.2 + own))
      fun r => OwnsValue r ∧ value r) (hsound : h.Sound) (hgil : (.gil, ts) ∈ h.live) :
    GivesBack m h := by
  obtain ⟨r, h', hrun, hsound', hlive, howns, -⟩ := Keeps.whole hm hsound hgil
  exact ⟨r, h', hrun, hsound', hlive, howns⟩

theorem Faults.whole {m : Mem (PyOutcome α × Pointer)}
    (hm : ∀ own, Faults .nullPointer (withGil ts own) m) (hsound : h.Sound)
    (hgil : (.gil, ts) ∈ h.live) : m h = .error .nullPointer := by
  obtain ⟨own, hown⟩ := gil_own hgil
  exact hm own h 0 hsound hown

end Whole

namespace Entry
variable (ts : Nat) (f : PyFunc) (run : LoopRun) (h : Heap Held)

/-- A packet is to be given to Python for which no header object can be made. -/
def MissesHeader (handed : Handed) : Entry → Prop
  | .loop => ∃ x ∈ handed, x.2.header = false
  | .dispatch => ∃ x ∈ handed, x.2.header = false
  | .loopFiltered alloc args => FilteredMissesHeader alloc args handed

def FewAddresses : Entry → Prop
  | .loop => True
  | .dispatch => True
  | .loopFiltered _ args => ∀ data, args.addrSet = some data → data.length / 4 ≤ 2 ^ 30

def Crashes : Entry → Prop
  | .loop => pLoopMem ts f run h = .error .nullPointer
  | .dispatch => pDispatchMem ts f run h = .error .nullPointer
  | .loopFiltered alloc args => pLoopFilteredMem ts alloc args f run h = .error .nullPointer

def GivesBack : Entry → Prop
  | .loop => PcapyNg.GivesBack (pLoopMem ts f run) h
  | .dispatch => PcapyNg.GivesBack (pDispatchMem ts f run) h
  | .loopFiltered alloc args => PcapyNg.GivesBack (pLoopFilteredMem ts alloc args f run) h

end Entry

/-- Whatever else fails, a method gives back all that it acquires, unless it runs into a header
object that could not be made. -/
theorem callback_loop_memory (ts : Nat) (f : PyFunc) (run : LoopRun) (m : Entry)
    (hfew : m.FewAddresses) {h : Heap Held} (hsound : h.Sound) (hgil : (.gil, ts) ∈ h.live) :
    (m.MissesHeader run.handed → m.Crashes ts f run h) ∧
      (¬ m.MissesHeader run.handed → m.GivesBack ts f run h) := by
  have hall : (¬ ∃ x ∈ run.handed, x.2.header = false) → ∀ x ∈ run.handed, x.2.header = true := by
    intro hnone x hx
    exact Bool.not_eq_false _ ▸ fun hd => hnone ⟨x, hx, hd⟩
  cases m with
  | loop =>
    constructor
    · intro hmissing
      exact Faults.whole (fun _ => faults_callbackLoop hmissing f _ true) hsound hgil
    · intro hnone
      exact Keeps.givesBack (fun _ => keeps_callbackLoop (hall hnone) f _ true) hsound hgil
  | dispatch =>
    constructor
    · intro hmissing
      exact Faults.whole (fun _ => faults_callbackLoop hmissing f _ run.result) hsound hgil
    · intro hnone
      exact Keeps.givesBack (fun _ => keeps_callbackLoop (hall hnone) f _ run.result) hsound hgil
  | loopFiltered alloc args =>
    constructor
    · intro hmissing
      exact Faults.whole (fun _ => faults_loopFiltered hfew hmissing f) hsound hgil
    · intro hnone
      exact Keeps.givesBack (fun _ => keeps_loopFiltered hfew hnone f) hsound hgil

/-- One thread, holding the GIL, and nothing else. -/
def quietHeap : Heap Held := ⟨{(.gil, 0)}, 1⟩

theorem quietHeap_sound : quietHeap.Sound where
  nodup := by simp [quietHeap]
  fresh := by simp [quietHeap]

theorem callback_loop_memory_second :
    Entry.loop.Crashes 0 (fun _ _ => none)
        ⟨[(udpRecord, {}), (udpRecord, { header := false })], 0, "", true⟩ quietHeap ∧
      Entry.loop.GivesBack 0 (fun _ _ => none)
        ⟨[(udpRecord, {}), (udpRecord, { arglist := false })], 0, "", true⟩ quietHeap :=
  ⟨(callback_loop_memory 0 (fun _ _ => none) ⟨[(udpRecord, {}), (udpRecord, { header := false })],
      0, "", true⟩ .loop trivial quietHeap_sound (by simp [quietHeap])).1
      ⟨(udpRecord, { header := false }), by simp, rfl⟩,
    (callback_loop_memory 0 (fun _ _ => none) ⟨[(udpRecord, {}), (udpRecord, { arglist := false })],
      0, "", true⟩ .loop trivial quietHeap_sound (by simp [quietHeap])).2
      (by simp [Entry.MissesHeader])⟩

/-! The values in memory are the values of the calls. -/

section Agreement
variable {α : Type} {ts : Nat} {h : Heap Held} {f : PyFunc}

/-- Packets for which every object can be made. -/
def allMade (rs : List Record) : Handed := rs.map fun r => (r, {})

theorem allMade_records (rs : List Record) : (allMade rs).map Prod.fst = rs := by
  unfold allMade
  rw [List.map_map]
  exact List.map_id rs

theorem allMade_made {rs : List Record} {x : Record × Delivery} (hx : x ∈ allMade rs) :
    x.2 = {} := by
  obtain ⟨r, -, rfl⟩ := List.mem_map.mp hx
  rfl

theorem allMade_headers (rs : List Record) : ∀ x ∈ allMade rs, x.2.header = true := by
  intro x hx
  rw [allMade_made hx]

theorem allMade_built (rs : List Record) : (allMade rs).Built := by
  intro x hx
  rw [allMade_made hx]

theorem allMade_filtered {alloc : LoopAlloc} {args : LoopArgs} (rs : List Record) :
    ¬ FilteredMissesHeader alloc args (allMade rs) := by
  rintro ⟨-, ks, -, -, -, x, hx, -, hheader⟩
  have hmem : x.1 ∈ allMade rs := (List.of_mem_zip (show (x.1, x.2) ∈ _ from hx)).1
  rw [allMade_headers rs x.1 hmem] at hheader
  cases hheader

/-- What a method reads of libpcap when the run is over: the value returned and the error text. -/
def Libpcap.said {σ : Type} (lib : Libpcap) (run : Int × Capture × σ) : Int × String :=
  (run.1, lib.geterr run.2.1)

/-- The run of libpcap that hands over `done`, answers `said` and meets no failure. -/
def plainRun (done : List Record) (said : Int × String) : LoopRun :=
  ⟨allMade done, said.1, said.2, true⟩

/-- Handed the records up to `left'` and told `said`, with every object made, the call ends with the
outcome `o` and what belongs to it. -/
def AgreesOn (m : LoopRun → Mem (PyOutcome α × Pointer)) (said : Int × String) (o : PyOutcome α)
    (left left' : List Record) (h : Heap Held) : Prop :=
  ∃ done r h', left = done ++ left' ∧ m (plainRun done said) h = .ok (r, h') ∧ r.1 = o ∧
    h'.Sound ∧ h'.live = owned .reference r.2 + h.live

theorem callbackLoop_agrees {outcome : Option PyExc → PyOutcome α} {ok : Bool} (hok : ok = true)
    {m : LoopRun → Mem (PyOutcome α × Pointer)} {said : Int × String}
    {done left left' : List Record}
    (hm : m (plainRun done said) = callbackLoopMem ts f (plainRun done said) outcome ok)
    (hleft : left = done ++ left') (hsound : h.Sound) (hgil : (.gil, ts) ∈ h.live) :
    AgreesOn m said (outcome (feed (pythonCallBack f) {} done).err) left left' h := by
  have hheaders : ∀ x ∈ (plainRun done said).handed, x.2.header = true := allMade_headers done
  obtain ⟨r, h', hrun, hsound', hlive, -, hval⟩ :=
    Keeps.whole (fun _ => keeps_callbackLoop hheaders f outcome ok) hsound hgil
  refine ⟨done, r, h', hleft, hm ▸ hrun, ?_, hsound', hlive⟩
  rw [hval (allMade_built done) hok, plainRun, allMade_records]

/-- What libpcap says when `loop_filtered` has run it with the classifier `cl`. -/
def Libpcap.saidFiltered (lib : Libpcap) (c : Capture) (args : LoopArgs) (f : PyFunc)
    (cl : Classifier) : Int × String :=
  lib.said (lib.loop (faultHandler (filteredCallBack f)) args.cnt.toInt c
    (.ok (.start cl args.admitMask)))

/-- libpcap says what it says to `loop_filtered`; a setup that fails does not ask it. -/
def Libpcap.Says (lib : Libpcap) (c : Capture) (alloc : LoopAlloc) (args : LoopArgs) (f : PyFunc)
    (said : Int × String) : Prop :=
  ∀ cl, loopSetup filteredProfileError alloc args = .ok (.ok cl) →
    said = lib.saidFiltered c args f cl

theorem Libpcap.exists_says (lib : Libpcap) (c : Capture) (alloc : LoopAlloc) (args : LoopArgs)
    (f : PyFunc) : ∃ said, lib.Says c alloc args f said := by
  by_cases h : ∃ cl, loopSetup filteredProfileError alloc args = .ok (.ok cl)
  · obtain ⟨cl, hcl⟩ := h
    refine ⟨lib.saidFiltered c args f cl, fun cl' hcl' => ?_⟩
    rw [hcl] at hcl'
    cases hcl'
    rfl
  · exact ⟨(0, ""), fun cl hcl => absurd ⟨cl, hcl⟩ h⟩

/-- The records consumed, and that the call returns what their values say. -/
theorem filtered_consumes (lib : Libpcap) {pp : PcapObject} {c : Capture} (hpcap : pp.pcap = some c)
    (alloc : LoopAlloc) (args : LoopArgs) (f : PyFunc) :
    ∃ done rest, pp.left = done ++ rest ∧ ∀ said, lib.Says c alloc args f said → ∀ o,
      filteredValue alloc args f (plainRun done said) = .ok o →
        ∃ pp' made, pLoopFiltered lib alloc pp args f = .ok (o, pp', made) ∧ pp'.left = rest := by
  have hleft := left_of_pcap hpcap
  unfold filteredValue
  cases hcl : loopSetup filteredProfileError alloc args with
  | error e => exact ⟨[], pp.left, rfl, fun _ _ _ ho => nomatch ho⟩
  | ok cl =>
    cases cl with
    | error e =>
      refine ⟨[], pp.left, rfl, fun _ _ o ho => ?_⟩
      cases ho
      exact ⟨pp, [], pLoopFiltered_of_raise lib hpcap hcl f, rfl⟩
    | ok cl =>
      obtain ⟨ret, c', last, hloop, hruns⟩ := lib.loop_run (faultHandler (filteredCallBack f))
        args.cnt.toInt c (.ok (.start cl args.admitMask))
      obtain ⟨done, hdone, hlast, -⟩ := hruns.consumes
      refine ⟨done, c'.pending, hleft.trans hdone, fun said hsaid o ho => ?_⟩
      have hend : said = (ret, lib.geterr c') := by
        rw [hsaid cl hcl, Libpcap.saidFiltered, hloop]
        rfl
      simp only [bind, Except.bind, plainRun, allMade_records, ← hlast, hend] at ho
      cases last with
      | error e => cases ho
      | ok last =>
        cases ho
        exact ⟨_, _, pLoopFiltered_of_loop hpcap hcl hloop, rfl⟩

theorem filtered_agrees {lib : Libpcap} {pp : PcapObject} {c : Capture}
    (hpcap : pp.pcap = some c) {alloc : LoopAlloc} {args : LoopArgs}
    (hfew : ∀ data, args.addrSet = some data → data.length / 4 ≤ 2 ^ 30) (hsound : h.Sound)
    (hgil : (.gil, ts) ∈ h.live) :
    ∃ o pp' made, pLoopFiltered lib alloc pp args f = .ok (o, pp', made) ∧
      ∀ said, lib.Says c alloc args f said →
        AgreesOn (pLoopFilteredMem ts alloc args f) said o pp.left pp'.left h := by
  obtain ⟨done, rest, hleft, hvalues⟩ := filtered_consumes lib hpcap alloc args f
  have hmemory : ∀ said, ∃ r h', pLoopFilteredMem ts alloc args f (plainRun done said) h =
      .ok (r, h') ∧ h'.Sound ∧ h'.live = owned .reference r.2 + h.live ∧
        filteredValue alloc args f (plainRun done said) = .ok r.1 := by
    intro said
    obtain ⟨r, h', hrun, hsound', hlive, -, hval⟩ := Keeps.whole
      (fun own => @keeps_loopFiltered ts own alloc args (plainRun done said) hfew
        (allMade_filtered done) f) hsound hgil
    exact ⟨r, h', hrun, hsound', hlive, hval (allMade_built done) rfl⟩
  obtain ⟨said, hsaid⟩ := lib.exists_says c alloc args f
  obtain ⟨r, -, -, -, -, hval⟩ := hmemory said
  obtain ⟨pp', made, hcall, hrest⟩ := hvalues said hsaid r.1 hval
  refine ⟨r.1, pp', made, hcall, fun said' hsaid' => ?_⟩
  obtain ⟨r', h', hrun, hsound', hlive, hval'⟩ := hmemory said'
  obtain ⟨_, _, hcall', -⟩ := hvalues said' hsaid' r'.1 hval'
  refine ⟨done, r', h', hrest ▸ hleft, hrun, ?_, hsound', hlive⟩
  have hsame := Except.ok.inj (hcall'.symm.trans hcall)
  exact congrArg (fun x => x.1) hsame

end Agreement

/-- What the method does to the capture and to values, it does in memory when libpcap says there
what it says here. -/
def Entry.Agrees (lib : Libpcap) (pp : PcapObject) (c : Capture) (cant : Int32) (ts : Nat)
    (f : PyFunc) (h : Heap Held) : Entry → Prop
  | .loop =>
    AgreesOn (pLoopMem ts f) (lib.said (lib.loop (pythonCallBack f) cant.toInt c {}))
      (pLoop lib pp cant f).1 pp.left (pLoop lib pp cant f).2.1.left h
  | .dispatch =>
    AgreesOn (pDispatchMem ts f) (lib.said (lib.dispatch (pythonCallBack f) cant.toInt c {}))
      (pDispatch lib pp cant f).1 pp.left (pDispatch lib pp cant f).2.1.left h
  | .loopFiltered alloc args =>
    ∃ o pp' made, pLoopFiltered lib alloc pp { args with cnt := cant } f = .ok (o, pp', made) ∧
      ∀ said, lib.Says c alloc { args with cnt := cant } f said →
        AgreesOn (pLoopFilteredMem ts alloc { args with cnt := cant } f) said o pp.left pp'.left h

/-- Where every Python object can be made, the memory of a call bears out its values. -/
theorem memory_agrees (lib : Libpcap) (pp : PcapObject) (c : Capture) (hpcap : pp.pcap = some c)
    (cant : Int32) (ts : Nat) (f : PyFunc) (m : Entry) (hfew : m.FewAddresses) {h : Heap Held}
    (hsound : h.Sound) (hgil : (.gil, ts) ∈ h.live) : m.Agrees lib pp c cant ts f h := by
  have hleft := left_of_pcap hpcap
  cases m with
  | loop =>
    obtain ⟨ret, c', py, hloop, hruns⟩ := lib.loop_run (pythonCallBack f) cant.toInt c {}
    obtain ⟨done, hdone, hpy, -⟩ := hruns.consumes
    unfold Entry.Agrees
    simp only [pLoop, hpcap, hloop, hpy]
    exact @callbackLoop_agrees _ _ _ f (fun err => loopOutcome (lib.geterr c') ret err ()) true rfl
      (pLoopMem ts f) (ret, lib.geterr c') done _ _ rfl (hleft.trans hdone) hsound hgil
  | dispatch =>
    obtain ⟨ret, c', py, hdispatch, hreads⟩ := lib.dispatch_run (pythonCallBack f) cant.toInt c {}
    obtain ⟨done, hdone, hpy, -⟩ := hreads.consumes
    unfold Entry.Agrees
    simp only [pDispatch, hpcap, hdispatch, hpy]
    exact @callbackLoop_agrees _ _ _ f (fun err => checkedOutcome (lib.geterr c') ret err ret) true
      rfl (pDispatchMem ts f) (ret, lib.geterr c') done _ _ rfl (hleft.trans hdone) hsound hgil
  | loopFiltered alloc args =>
    exact @filtered_agrees ts h f lib pp c hpcap alloc { args with cnt := cant } hfew hsound hgil

/-- The callable raises at the second packet it is given. -/
def raisesSecond : PyFunc := fun before _ =>
  if before.length = 1 then some (.user "KeyError") else none

theorem memory_agrees_two :
    let pp : PcapObject := ⟨some ⟨[udpRecord, udpRecord, udpRecord], .eof, false⟩, [], 0⟩
    Entry.dispatch.Agrees .offline pp ⟨[udpRecord, udpRecord, udpRecord], .eof, false⟩ 3 0
        raisesSecond quietHeap ∧
      (pDispatch .offline pp 3 raisesSecond).1 = .raise (.user "KeyError") ∧
      (pDispatch .offline pp 3 raisesSecond).2.1.left = [udpRecord] :=
  ⟨memory_agrees .offline ⟨some ⟨[udpRecord, udpRecord, udpRecord], .eof, false⟩, [], 0⟩
      ⟨[udpRecord, udpRecord, udpRecord], .eof, false⟩ rfl 3 0 raisesSecond .dispatch trivial
      quietHeap_sound (by simp [quietHeap]), by decide, by decide⟩

end PcapyNg
