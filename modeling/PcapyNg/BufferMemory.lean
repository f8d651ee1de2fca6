import PcapyNg.CallbackMemory

/-!
# What the calls without a callback own

`loop_to_buffer` holds the caller's buffer while it runs, `next_batch` two growing arrays that
become two objects, `next` a header object. None of them makes an object while packets are
handed over, and each path gives back what it has acquired before it returns.
-/

namespace PcapyNg
open ReadLoop OwnedHeap
set_option autoImplicit false

/-! `loop_to_buffer` -/

section Definitions
variable (ts : Nat)

/-- `PyBuffer_Release` -/
def releaseView (view : Nat) : Mem Unit := do
  use .noGil .gil ts
  release .dangling .view view

/-- `BufferCallBack`: the tables and the buffer it touches, then what it does to their values. -/
def bufferCallBackMem (blocks : LoopBlocks) (view : Nat) (b : BufferCtx) (r : Record)
    (_ : Delivery) : Mem (BufferCtx × Bool) := do
  blocks.read
  use .dangling .view view
  code (bufferCallBack b r)

/-- What `pcap_loop` or `pcap_dispatch` does with a callback that calls no Python. -/
structure BufferRun where
  records : List Record
  ret : Int := 0
  errbuf : String := ""
  /-- whether the tuple for the caller can be built -/
  result : Bool := true

/-- `p_loop_to_buffer` on an open Reader, from where `PyArg_ParseTupleAndKeywords` has taken a
view of the caller's buffer. -/
def pLoopToBufferMem (alloc : LoopAlloc) (args : LoopArgs) (buf : WritableBuf) (run : BufferRun) :
    Mem (PyOutcome (List UInt64) × Pointer) := do
  match ← acquire .view true with
  -- not reached: the arguments are parsed, so the view is there
  | none => return (.raise .memoryError, none)
  | some view =>
    match ← loopSetupMem ts (releaseView ts view) bufferProfileError alloc args with
    | .error e => return (.raise e, none)
    | .ok (cl, blocks) =>
      saveThread ts
      let b ← handOver (bufferCallBackMem blocks view) (.start cl args.admitMask buf)
        (allMade run.records)
      restoreThread ts
      blocks.release
      releaseView ts view
      returning ts run.result (.ret (b.result args.profile))

/-! `next_batch` -/

/-- `realloc`, which leaves the block alone where it fails. -/
def realloc (p : Nat) (ok : Bool) : Mem Pointer := do
  access p
  if ok then do
    free (some p)
    malloc true
  else return none

/-- One array of `BatchCallBack`: `realloc` where it is full. -/
def regrow (full : Bool) (p : Nat) (ok : Bool) : Mem Pointer :=
  if full then realloc p ok else return some p

/-- `struct BatchCtx` and the blocks its arrays lie in. -/
structure BatchMem where
  ctx : BatchCtx
  buf : Nat
  metas : Nat

def batchCallBackMem (reallocs : Nat → Bool) (s : BatchMem) (r : Record) (_ : Delivery) :
    Mem (BatchMem × Bool) := do
  let cl := r.hdr.caplen
  match ← regrow (s.ctx.used + cl.toNat > s.ctx.cap) s.buf (reallocs s.ctx.tries) with
  | none => return ({ s with ctx := (s.ctx.growBuf reallocs cl).1 }, false)
  | some buf =>
    let b := (s.ctx.growBuf reallocs cl).1
    match ← regrow (b.n ≥ b.mcap.toNat) s.metas (reallocs b.tries) with
    | none => return (⟨(b.growMeta reallocs).1, buf, s.metas⟩, false)
    | some metas => do
      access buf
      access metas
      return (⟨(b.growMeta reallocs).1.store r, buf, metas⟩, false)

/-- Which allocations of `p_next_batch` succeed, its callback's included. -/
structure BatchMallocs where
  reallocs : Nat → Bool := fun _ => true
  buf : Bool := true
  metas : Bool := true
  pybuf : Bool := true
  pymeta : Bool := true

def pNextBatchMem (mem : BatchMallocs) (maxN : Int32) (run : BufferRun) :
    Mem (PyOutcome (Bytes × Bytes) × Pointer) := do
  let maxN := clampMaxN maxN
  let buf ← malloc mem.buf
  let metas ← malloc mem.metas
  match buf, metas with
  | some buf, some metas => do
    saveThread ts
    let s ← handOver (batchCallBackMem mem.reallocs) ⟨.start maxN 0, buf, metas⟩
      (allMade run.records)
    restoreThread ts
    if run.ret < 0 ∧ run.ret ≠ -2 then
      free (some s.buf)
      free (some s.metas)
      return (.raise (.pcapError run.errbuf), none)
    else
      access s.buf
      let pybuf ← newReference ts mem.pybuf
      access s.metas
      let pymeta ← newReference ts mem.pymeta
      free (some s.buf)
      free (some s.metas)
      if pybuf.isNone || pymeta.isNone then
        pyXdecref ts pybuf
        pyXdecref ts pymeta
        return (.raise .memoryError, none)
      else
        let result ← returning ts run.result (.ret (s.ctx.buf, packMeta s.ctx.metas))
        -- `N` gives both references to the tuple, or back where there is none
        pyXdecref ts pybuf
        pyXdecref ts pymeta
        return result
  | buf, metas => do
    free buf
    free metas
    return (.raise .memoryError, none)

/-! `next` -/

/-- What `pcap_next_ex` answers, and whether the header object and the tuple can be made. -/
structure NextRun where
  errCode : Int
  record : Option Record
  errbuf : String := ""
  header : Bool := true
  result : Bool := true

def pNextMem (run : NextRun) : Mem (PyOutcome (Option PcapPkthdr × Bytes) × Pointer) := do
  saveThread ts
  restoreThread ts
  if run.errCode = -1 then return (.raise (.pcapError run.errbuf), none)
  else
    let found := if run.errCode = 1 then run.record else none
    let pkthdr ← newReference ts (found.isNone || run.header)
    match pkthdr with
    | none => return (.raise (.pcapError "Can't build pkthdr"), none)
    | some pkthdr => do
      let result ← returning ts run.result
        (.ret (found.map Record.hdr, (found.map Record.data).getD []))
      pyDecref ts (some pkthdr)
      return result

end Definitions

/-! What each call gives back. -/

section Buffer
variable {ts : Nat} {own : Multiset (Held × Nat)}

theorem keeps_releaseView (view : Nat) :
    Keeps (withGil ts ({(.view, view)} + own)) (releaseView ts view) (fun _ => withGil ts own)
      fun _ => True := by
  unfold releaseView
  apply Keeps.seq (keeps_use MemFault.noGil mem_withGil)
  exact underGil (keeps_release MemFault.dangling)

theorem keeps_bufferCallBack {b : BufferCtx} {r : Record} {x : BufferCtx × Bool}
    (hx : bufferCallBack b r = .ok x) (blocks : LoopBlocks) (view : Nat) (d : Delivery) :
    Keeps (blocks.own + ({(.view, view)} + own)) (bufferCallBackMem blocks view b r d)
      (fun _ => blocks.own + ({(.view, view)} + own)) (· = x) := by
  unfold bufferCallBackMem
  apply Keeps.seq (keeps_read blocks)
  apply Keeps.seq (keeps_use MemFault.dangling (by simp))
  exact keeps_code hx

theorem keeps_buffer_run {b last : BufferCtx} {rs : List Record}
    (hlast : feed (faultHandler bufferCallBack) (.ok b) rs = .ok last) (blocks : LoopBlocks)
    (view : Nat) :
    Keeps (blocks.own + ({(.view, view)} + own))
      (handOver (bufferCallBackMem blocks view) b (allMade rs))
      (fun _ => blocks.own + ({(.view, view)} + own)) (· = last) := by
  let I : BufferCtx → Handed → Prop := fun b' rest =>
    feed (faultHandler bufferCallBack) (.ok b') (rest.map Prod.fst) = .ok last
  have hstart : I b (allMade rs) := by
    change feed (faultHandler bufferCallBack) (.ok b) ((allMade rs).map Prod.fst) = .ok last
    rw [allMade_records]
    exact hlast
  apply (keeps_handOver (I := I) ?_ hstart).weaken (fun _ _ => rfl)
  · intro b' hb'
    exact Except.ok.inj hb'
  · intro b' r d rest hI
    have hstep : ∃ x, bufferCallBack b' r = .ok x := by
      cases hr : bufferCallBack b' r with
      | ok x => exact ⟨x, rfl⟩
      | error e =>
        have hfault : feed (faultHandler bufferCallBack) (.ok b') (((r, d) :: rest).map Prod.fst) =
            .error e := by
          rw [List.map_cons, feed, faultHandler, hr]
          exact feed_fault e _
        cases hI.symm.trans hfault
    obtain ⟨x, hx⟩ := hstep
    apply (keeps_bufferCallBack hx blocks view d).weaken (fun _ _ => rfl)
    rintro _ rfl
    change feed (faultHandler bufferCallBack) (.ok b') (r :: rest.map Prod.fst) = .ok last at hI
    rw [feed, faultHandler, hx] at hI
    exact hI

variable {alloc : LoopAlloc} {args : LoopArgs}

/-- What the values of `loop_to_buffer` are. -/
def bufferValue (alloc : LoopAlloc) (args : LoopArgs) (buf : WritableBuf) (rs : List Record) :
    Except Fault (PyOutcome (List UInt64)) := do
  match ← loopSetup bufferProfileError alloc args with
  | .error e => return .raise e
  | .ok cl =>
    let last ← feed (faultHandler bufferCallBack) (.ok (.start cl args.admitMask buf)) rs
    return .ret (last.result args.profile)

theorem keeps_loopToBuffer {run : BufferRun}
    (hsmall : ∀ data, args.addrSet = some data → data.length / 4 ≤ 2 ^ 30)
    (hcaplen : ∀ r ∈ run.records, r.hdr.caplen.toNat + 5 < 2 ^ 32) (buf : WritableBuf) :
    Keeps (withGil ts own) (pLoopToBufferMem ts alloc args buf run)
      (fun r => withGil ts (owned .reference r.2 + own))
      fun r => OwnsValue r ∧ (run.result = true →
        bufferValue alloc args buf run.records = .ok r.1) := by
  unfold pLoopToBufferMem bufferValue
  apply Keeps.bind (underGil (keeps_acquire own .view true))
  intro view hview
  obtain ⟨view, rfl⟩ := Option.isSome_iff_exists.mp hview
  apply Keeps.bind
    (keeps_loopSetup (fun _ => keeps_releaseView view) bufferProfileError alloc hsmall)
  intro r hr
  rw [hr]
  rcases r with e | ⟨cl, b⟩
  · exact Keeps.pure ⟨rfl, fun _ => rfl⟩ rfl
  obtain ⟨e, he⟩ | ⟨cl', hcl', hclasses⟩ :=
    @loopSetup_classifies bufferProfileError alloc args hsmall
  · cases hr.symm.trans he
  obtain rfl : cl = cl' := Except.ok.inj (Except.ok.inj (hr.symm.trans hcl'))
  obtain ⟨ks, flowtab, hks⟩ := hclasses run.records
  have hnone : ([] : List Record).length = ([] : List Nat).length := rfl
  have hlast := (buffer_feed args.admitMask buf hnone hks hcaplen).1
  apply Keeps.of_eq (congrArg (withGil ts) (add_assoc b.own _ own))
  apply Keeps.seq (keeps_saveThread _)
  apply Keeps.bind (offGil (keeps_buffer_run hlast b view))
  rintro last rfl
  apply Keeps.seq (keeps_restoreThread _)
  apply Keeps.seq (underGil (keeps_release_blocks b))
  apply Keeps.seq (keeps_releaseView view)
  apply (keeps_returning run.result _).weaken (fun _ _ => rfl)
  rintro r ⟨howns, hr⟩
  refine ⟨howns, fun hok => ?_⟩
  have hfeed : feed (faultHandler bufferCallBack) (.ok (.start cl args.admitMask buf)) run.records =
      .ok _ := hlast
  simp only [Except.map, bind, Except.bind, hfeed, hr hok]
  rfl

end Buffer

def BatchMem.own (s : BatchMem) : Multiset (Held × Nat) := {(.block, s.buf)} + {(.block, s.metas)}

section Batch
variable {ts : Nat} {own : Multiset (Held × Nat)} {reallocs : Nat → Bool}

theorem keeps_realloc (p : Nat) (ok : Bool) :
    Keeps ({(.block, p)} + own) (realloc p ok)
      (fun q => {(.block, q.getD p)} + own) fun q => q.isSome = ok := by
  unfold realloc
  apply Keeps.seq (keeps_access (by simp))
  cases ok with
  | false => exact Keeps.pure rfl rfl
  | true =>
    apply Keeps.seq (keeps_free (some p))
    apply (keeps_malloc own true).weaken ?_ fun _ h => h
    intro q hq
    obtain ⟨q, rfl⟩ := Option.isSome_iff_exists.mp hq
    rfl

theorem keeps_regrow (full : Bool) (p : Nat) (ok : Bool) :
    Keeps ({(.block, p)} + own) (regrow full p ok)
      (fun q => {(.block, q.getD p)} + own) fun q => q.isSome = (!full || ok) := by
  cases full with
  | false => exact Keeps.pure rfl rfl
  | true => exact keeps_realloc p ok

theorem growBuf_goesOn (b : BatchCtx) (cl : UInt32) : (b.growBuf reallocs cl).2 =
    (!decide (b.used + cl.toNat > b.cap) || reallocs b.tries) := by
  unfold BatchCtx.growBuf
  by_cases hfull : b.used + cl.toNat > b.cap
  · rw [if_pos hfull, decide_eq_true hfull]
    cases reallocs b.tries <;> rfl
  · rw [if_neg hfull, decide_eq_false hfull]
    rfl

theorem growMeta_goesOn (b : BatchCtx) :
    (b.growMeta reallocs).2 = (!decide (b.n ≥ b.mcap.toNat) || reallocs b.tries) := by
  unfold BatchCtx.growMeta
  by_cases hfull : b.n ≥ b.mcap.toNat
  · rw [if_pos hfull, decide_eq_true hfull]
    cases reallocs b.tries <;> rfl
  · rw [if_neg hfull, decide_eq_false hfull]
    rfl

theorem keeps_batchCallBack (s : BatchMem) (r : Record) (d : Delivery) :
    Keeps (s.own + own) (batchCallBackMem reallocs s r d) (fun x => x.1.own + own)
      fun x => x.1.ctx = (batchCallBack reallocs s.ctx r).1 := by
  unfold batchCallBackMem batchCallBack
  apply Keeps.of_eq (add_assoc _ _ _)
  apply Keeps.bind (keeps_regrow _ s.buf _)
  intro buf hbuf
  rw [← growBuf_goesOn] at hbuf
  rcases hgrown : s.ctx.growBuf reallocs r.hdr.caplen with ⟨b, goes⟩
  rw [hgrown] at hbuf
  cases buf with
  | none =>
    obtain rfl : false = goes := hbuf
    exact Keeps.pure rfl (add_assoc _ _ _).symm
  | some buf =>
    obtain rfl : true = goes := hbuf
    apply Keeps.of_eq (add_left_comm _ _ _)
    apply Keeps.bind (keeps_regrow _ s.metas _)
    intro metas hmetas
    rw [← growMeta_goesOn] at hmetas
    simp only
    rcases hgrown' : b.growMeta reallocs with ⟨b', goes⟩
    rw [hgrown'] at hmetas
    cases metas with
    | none =>
      obtain rfl : false = goes := hmetas
      refine Keeps.pure rfl ?_
      exact (add_left_comm _ _ _).trans (add_assoc _ _ _).symm
    | some metas =>
      obtain rfl : true = goes := hmetas
      apply Keeps.seq (keeps_access (by simp))
      apply Keeps.seq (keeps_access (by simp))
      refine Keeps.pure rfl ?_
      exact (add_left_comm _ _ _).trans (add_assoc _ _ _).symm

theorem keeps_batch_run (s : BatchMem) (rs : List Record) :
    ∀ own, Keeps (s.own + own) (handOver (batchCallBackMem reallocs) s (allMade rs))
      (fun s' => s'.own + own) fun s' => s'.ctx = feed (batchCallBack reallocs) s.ctx rs := by
  intro own
  induction rs generalizing s with
  | nil => exact Keeps.pure rfl rfl
  | cons r rs ih =>
    apply Keeps.bind (keeps_batchCallBack s r {})
    intro x hx
    apply (ih x.1).weaken (fun _ _ => rfl)
    intro s' hs'
    rw [hs', hx]
    rfl

end Batch

section NextBatch
variable {ts : Nat} {own : Multiset (Held × Nat)}

theorem withGil_move (a b c : Multiset (Held × Nat)) :
    withGil ts (a + (b + c)) = withGil ts (b + (a + c)) :=
  congrArg (withGil ts) (add_left_comm _ _ _)

/-- NULL for the caller owns nothing. -/
theorem withGil_null : withGil ts own = withGil ts (owned .reference none + own) :=
  congrArg (withGil ts) (zero_add own).symm

theorem keeps_batchObjects (ok : Bool) (s : BatchMem) (pybuf pymeta : Pointer) :
    Keeps (withGil ts (owned .reference pymeta + (owned .reference pybuf + own)))
      (do
        if pybuf.isNone || pymeta.isNone then
          pyXdecref ts pybuf
          pyXdecref ts pymeta
          return (.raise .memoryError, none)
        else
          let result ← returning ts ok (.ret (s.ctx.buf, packMeta s.ctx.metas))
          pyXdecref ts pybuf
          pyXdecref ts pymeta
          return result : Mem (PyOutcome (Bytes × Bytes) × Pointer))
      (fun r => withGil ts (owned .reference r.2 + own))
      fun r => OwnsValue r ∧ (pybuf.isSome ∧ pymeta.isSome ∧ ok = true →
        r.1 = .ret (s.ctx.buf, packMeta s.ctx.metas)) := by
  by_cases hmissing : (pybuf.isNone || pymeta.isNone) = true
  · rw [if_pos hmissing]
    apply Keeps.of_eq (withGil_move _ _ _)
    apply Keeps.seq (keeps_pyXdecref pybuf)
    apply Keeps.seq (keeps_pyXdecref pymeta)
    refine Keeps.pure ⟨rfl, ?_⟩ withGil_null
    rintro ⟨hbuf, hmeta, -⟩
    cases pybuf <;> cases pymeta <;> simp_all
  · rw [if_neg hmissing]
    apply Keeps.bind (keeps_returning ok _)
    intro r hr
    apply Keeps.of_eq (congrArg (withGil ts) (by abel :
      owned .reference r.2 + (owned .reference pymeta + (owned .reference pybuf + own)) =
        owned .reference pybuf + (owned .reference pymeta + (owned .reference r.2 + own))))
    apply Keeps.seq (keeps_pyXdecref pybuf)
    apply Keeps.seq (keeps_pyXdecref pymeta)
    exact Keeps.pure ⟨hr.1, fun h => hr.2 h.2.2⟩ rfl

/-- Every allocation outside the callback succeeds. -/
def BatchMallocs.Made (mem : BatchMallocs) : Prop :=
  mem.buf = true ∧ mem.metas = true ∧ mem.pybuf = true ∧ mem.pymeta = true

/-- What the values of `next_batch` are. -/
def batchValue (reallocs : Nat → Bool) (maxN : Int32) (run : BufferRun) :
    PyOutcome (Bytes × Bytes) :=
  let b := feed (batchCallBack reallocs) (.start (clampMaxN maxN) 0) run.records
  if run.ret < 0 ∧ run.ret ≠ -2 then .raise (.pcapError run.errbuf)
  else .ret (b.buf, packMeta b.metas)

theorem keeps_nextBatch (mem : BatchMallocs) (maxN : Int32) (run : BufferRun) :
    Keeps (withGil ts own) (pNextBatchMem ts mem maxN run)
      (fun r => withGil ts (owned .reference r.2 + own))
      fun r => OwnsValue r ∧ (mem.Made → run.result = true →
        r.1 = batchValue mem.reallocs maxN run) := by
  unfold pNextBatchMem batchValue
  apply Keeps.bind (underGil (keeps_malloc own mem.buf))
  intro buf hbuf
  apply Keeps.bind (underGil (keeps_malloc _ mem.metas))
  intro metas hmetas
  rcases buf with - | buf
  · apply Keeps.of_eq (withGil_move _ _ _)
    apply Keeps.seq (underGil (keeps_free none))
    apply Keeps.seq (underGil (keeps_free metas))
    refine Keeps.pure ⟨rfl, fun hmade => ?_⟩ withGil_null
    cases hbuf.trans hmade.1
  rcases metas with - | metas
  · apply Keeps.of_eq (withGil_move _ _ _)
    apply Keeps.seq (underGil (keeps_free (some buf)))
    apply Keeps.seq (underGil (keeps_free none))
    refine Keeps.pure ⟨rfl, fun hmade => ?_⟩ withGil_null
    cases hmetas.trans hmade.2.1
  apply Keeps.seq (keeps_saveThread _)
  have hstart : owned .block (some metas) + (owned .block (some buf) + own) =
      BatchMem.own ⟨.start (clampMaxN maxN) 0, buf, metas⟩ + own :=
    (add_left_comm _ _ _).trans (add_assoc _ _ _).symm
  rw [hstart]
  apply Keeps.bind (offGil (keeps_batch_run _ run.records own))
  intro s hs
  apply Keeps.seq (keeps_restoreThread _)
  rw [← hs]
  have hown : s.own + own = owned .block (some s.buf) + (owned .block (some s.metas) + own) :=
    add_assoc _ _ _
  by_cases hret : run.ret < 0 ∧ run.ret ≠ -2
  · simp only [if_pos hret, hown]
    apply Keeps.seq (underGil (keeps_free (some s.buf)))
    apply Keeps.seq (underGil (keeps_free (some s.metas)))
    exact Keeps.pure ⟨rfl, fun _ _ => rfl⟩ withGil_null
  · simp only [if_neg hret, hown]
    apply Keeps.seq (keeps_access (by simp [withGil]))
    apply Keeps.bind (keeps_newReference _ mem.pybuf)
    intro pybuf hpybuf
    apply Keeps.seq (keeps_access (by simp [withGil]))
    apply Keeps.bind (keeps_newReference _ mem.pymeta)
    intro pymeta hpymeta
    apply Keeps.of_eq (congrArg (withGil ts) (by abel :
      owned .reference pymeta + (owned .reference pybuf +
        (owned .block (some s.buf) + (owned .block (some s.metas) + own))) =
      owned .block (some s.buf) + (owned .block (some s.metas) +
        (owned .reference pymeta + (owned .reference pybuf + own)))))
    apply Keeps.seq (underGil (keeps_free (some s.buf)))
    apply Keeps.seq (underGil (keeps_free (some s.metas)))
    apply (keeps_batchObjects run.result s pybuf pymeta).weaken (fun _ _ => rfl)
    rintro r ⟨howns, hr⟩
    refine ⟨howns, fun hmade hok => hr ⟨?_, ?_, hok⟩⟩
    · rw [hpybuf, hmade.2.2.1]
    · rw [hpymeta, hmade.2.2.2]

/-- What the values of `next` are. -/
def nextValue (run : NextRun) : PyOutcome (Option PcapPkthdr × Bytes) :=
  if run.errCode = -1 then .raise (.pcapError run.errbuf)
  else
    let found := if run.errCode = 1 then run.record else none
    .ret (found.map Record.hdr, (found.map Record.data).getD [])

theorem keeps_next (run : NextRun) :
    Keeps (withGil ts own) (pNextMem ts run) (fun r => withGil ts (owned .reference r.2 + own))
      fun r => OwnsValue r ∧ (run.header = true → run.result = true → r.1 = nextValue run) := by
  unfold pNextMem nextValue
  apply Keeps.seq (keeps_saveThread own)
  apply Keeps.seq (keeps_restoreThread own)
  by_cases herr : run.errCode = -1
  · simp only [if_pos herr]
    exact Keeps.pure ⟨rfl, fun _ _ => rfl⟩ withGil_null
  · simp only [if_neg herr]
    apply Keeps.bind (keeps_newReference own _)
    intro pkthdr hpkthdr
    cases pkthdr with
    | none =>
      refine Keeps.pure ⟨rfl, fun hheader => ?_⟩ rfl
      rw [hheader, Bool.or_true] at hpkthdr
      cases hpkthdr
    | some pkthdr =>
      apply Keeps.bind (keeps_returning run.result _)
      intro r hr
      apply Keeps.of_eq (withGil_move _ _ _)
      apply Keeps.seq (keeps_pyDecref pkthdr)
      exact Keeps.pure ⟨hr.1, fun _ hok => hr.2 hok⟩ rfl

end NextBatch

/-! Whole calls. -/

/-- A call without a callback, with what fails in it. -/
inductive PlainCall where
  | loopToBuffer (alloc : LoopAlloc) (args : LoopArgs) (buf : WritableBuf) (run : BufferRun)
  | nextBatch (mem : BatchMallocs) (maxN : Int32) (run : BufferRun)
  | next (run : NextRun)

namespace PlainCall

/-- Address sets and packets are of the sizes that the set-up and libpcap allow. -/
def InRange : PlainCall → Prop
  | .loopToBuffer _ args _ run =>
    (∀ data, args.addrSet = some data → data.length / 4 ≤ 2 ^ 30) ∧
      ∀ r ∈ run.records, r.hdr.caplen.toNat + 5 < 2 ^ 32
  | .nextBatch _ _ _ => True
  | .next _ => True

def GivesBack (ts : Nat) (h : Heap Held) : PlainCall → Prop
  | .loopToBuffer alloc args buf run =>
    PcapyNg.GivesBack (pLoopToBufferMem ts alloc args buf run) h
  | .nextBatch mem maxN run => PcapyNg.GivesBack (pNextBatchMem ts mem maxN run) h
  | .next run => PcapyNg.GivesBack (pNextMem ts run) h

end PlainCall

section Agreement
variable {α : Type} {ts : Nat} {h : Heap Held}

/-- The run of libpcap that hands over `done`, answers `said` and meets no failure. -/
def plainBufferRun (done : List Record) (said : Int × String) : BufferRun :=
  ⟨done, said.1, said.2, true⟩

/-- What `pcap_next_ex` answers on `c`, with the header object and the tuple made. -/
def plainNextRun (lib : Libpcap) (c : Capture) : NextRun :=
  ⟨(lib.nextEx c).1, (lib.nextEx c).2.1, lib.geterr (lib.nextEx c).2.2, true, true⟩

/-- What libpcap says when `next_batch` has run it. -/
def Libpcap.saidBatch (lib : Libpcap) (c : Capture) (reallocs : Nat → Bool) (maxN : Int32) :
    Int × String :=
  lib.said (lib.dispatch (batchCallBack reallocs) (clampMaxN maxN).toInt c
    (.start (clampMaxN maxN) 0))

/-- The call returns `o`, and owns what belongs to it. -/
def EndsWith (m : Mem (PyOutcome α × Pointer)) (o : PyOutcome α) (h : Heap Held) : Prop :=
  ∃ r h', m h = .ok (r, h') ∧ r.1 = o ∧ h'.Sound ∧ h'.live = owned .reference r.2 + h.live

theorem Keeps.endsWith {m : Mem (PyOutcome α × Pointer)} {o : PyOutcome α}
    {val : PyOutcome α × Pointer → Prop}
    (hm : ∀ own, Keeps (withGil ts own) m (fun r => withGil ts (owned .reference r.2 + own)) val)
    (ho : ∀ r, val r → r.1 = o) (hsound : h.Sound) (hgil : (.gil, ts) ∈ h.live) :
    EndsWith m o h := by
  obtain ⟨r, h', hrun, hsound', hlive, hval⟩ := Keeps.whole hm hsound hgil
  exact ⟨r, h', hrun, ho r hval, hsound', hlive⟩

/-- The records consumed, and that the call returns what their values say. -/
theorem buffer_consumes (lib : Libpcap) {pp : PcapObject} {c : Capture} (hpcap : pp.pcap = some c)
    (alloc : LoopAlloc) (args : LoopArgs) (buf : WritableBuf) :
    ∃ done rest, pp.left = done ++ rest ∧ ∀ o, bufferValue alloc args buf done = .ok o →
      ∃ pp' out, pLoopToBuffer lib alloc pp args buf = .ok (o, pp', out) ∧ pp'.left = rest := by
  have hleft := left_of_pcap hpcap
  unfold bufferValue
  cases hcl : loopSetup bufferProfileError alloc args with
  | error e => exact ⟨[], pp.left, rfl, fun _ ho => nomatch ho⟩
  | ok cl =>
    cases cl with
    | error e =>
      refine ⟨[], pp.left, rfl, fun o ho => ?_⟩
      cases ho
      exact ⟨pp, buf.bytes, buffer_raises lib hpcap hcl buf, rfl⟩
    | ok cl =>
      obtain ⟨ret, c', last, hloop, hruns⟩ := lib.loop_run (faultHandler bufferCallBack)
        args.cnt.toInt c (.ok (.start cl args.admitMask buf))
      obtain ⟨done, hdone, hlast, -⟩ := hruns.consumes
      refine ⟨done, c'.pending, hleft.trans hdone, fun o ho => ?_⟩
      simp only [bind, Except.bind, ← hlast] at ho
      cases last with
      | error e => cases ho
      | ok last =>
        cases ho
        refine ⟨{ pp with pcap := some c' }, last.buf, ?_, rfl⟩
        rw [pLoopToBuffer, hpcap]
        simp only [hcl, bind, Except.bind, hloop]
        rfl

theorem batch_value (lib : Libpcap) {pp : PcapObject} {c : Capture} (hpcap : pp.pcap = some c)
    (reallocs : Nat → Bool) (maxN : Int32) :
    ∃ done, pp.left = done ++ (pNextBatch lib { reallocs := reallocs } pp maxN 0).2.1.left ∧
      batchValue reallocs maxN (plainBufferRun done (lib.saidBatch c reallocs maxN)) =
        (pNextBatch lib { reallocs := reallocs } pp maxN 0).1 := by
  obtain ⟨ret, c', b, hdispatch, hreads⟩ := lib.dispatch_run (batchCallBack reallocs)
    (clampMaxN maxN).toInt c (.start (clampMaxN maxN) 0)
  obtain ⟨done, hdone, hb, -⟩ := hreads.consumes
  refine ⟨done, ?_, ?_⟩
  · simp only [pNextBatch, hpcap, hdispatch, not_true_eq_false, if_false]
    unfold PcapObject.left
    rw [hpcap]
    split_ifs <;> exact hdone
  · unfold batchValue plainBufferRun Libpcap.saidBatch Libpcap.said
    simp only [pNextBatch, hpcap, hdispatch, not_true_eq_false, if_false, ← hb]
    split_ifs <;> rfl

theorem nextEx_consumes (lib : Libpcap) (c : Capture) :
    c.pending = (lib.nextEx c).2.1.toList ++ (lib.nextEx c).2.2.pending := by
  rcases c with ⟨rs, e, brk⟩
  cases brk with
  | true =>
    rw [lib.nextEx_broken]
    rfl
  | false =>
    cases rs with
    | cons r rs =>
      rw [lib.nextEx_record]
      rfl
    | nil =>
      cases e with
      | eof =>
        rw [lib.nextEx_eof]
        rfl
      | error =>
        rw [lib.nextEx_error]
        rfl

theorem next_value (lib : Libpcap) {pp : PcapObject} {c : Capture} (hpcap : pp.pcap = some c) :
    pp.left = (plainNextRun lib c).record.toList ++ (pNext lib pp).2.left ∧
      nextValue (plainNextRun lib c) = (pNext lib pp).1 := by
  have hconsumes := nextEx_consumes lib c
  unfold plainNextRun
  rcases hnext : lib.nextEx c with ⟨errCode, hdr, c'⟩
  rw [hnext] at hconsumes
  constructor
  · unfold pNext PcapObject.left
    simp only [hpcap, hnext]
    cases hdr <;> split_ifs <;> exact hconsumes
  · unfold nextValue pNext
    simp only [hpcap, hnext]
    cases hdr <;> split_ifs <;> rfl

end Agreement

/-- Where every object can be made, the memory of a call without a callback bears out its values
when libpcap says there what it says here; `loop_to_buffer` does not listen. The reallocations of
`next_batch` may fail in both. -/
theorem plain_memory_agrees (lib : Libpcap) (pp : PcapObject) (c : Capture)
    (hpcap : pp.pcap = some c) (hcaplen : ∀ r ∈ c.pending, r.hdr.caplen.toNat + 5 < 2 ^ 32)
    (alloc : LoopAlloc) (args : LoopArgs)
    (hfew : ∀ data, args.addrSet = some data → data.length / 4 ≤ 2 ^ 30) (buf : WritableBuf)
    (reallocs : Nat → Bool) (maxN : Int32) (ts : Nat) {h : Heap Held} (hsound : h.Sound)
    (hgil : (.gil, ts) ∈ h.live) :
    (∃ o pp' out, pLoopToBuffer lib alloc pp args buf = .ok (o, pp', out) ∧
      ∃ done, pp.left = done ++ pp'.left ∧ ∀ said,
        EndsWith (pLoopToBufferMem ts alloc args buf (plainBufferRun done said)) o h) ∧
    (∃ done, pp.left = done ++ (pNextBatch lib { reallocs := reallocs } pp maxN 0).2.1.left ∧
      EndsWith (pNextBatchMem ts { reallocs := reallocs } maxN
          (plainBufferRun done (lib.saidBatch c reallocs maxN)))
        (pNextBatch lib { reallocs := reallocs } pp maxN 0).1 h) ∧
    pp.left = (plainNextRun lib c).record.toList ++ (pNext lib pp).2.left ∧
      EndsWith (pNextMem ts (plainNextRun lib c)) (pNext lib pp).1 h := by
  refine ⟨?_, ?_, ?_⟩
  · obtain ⟨done, rest, hleft, hvalues⟩ := buffer_consumes lib hpcap alloc args buf
    have hpending : c.pending = done ++ rest := (left_of_pcap hpcap).symm.trans hleft
    have hsizes : ∀ r ∈ done, r.hdr.caplen.toNat + 5 < 2 ^ 32 := fun r hr =>
      hcaplen r (hpending ▸ List.mem_append_left _ hr)
    have hkeeps := fun said own =>
      @keeps_loopToBuffer ts own alloc args (plainBufferRun done said) hfew hsizes buf
    obtain ⟨r, -, -, -, -, -, hval⟩ := Keeps.whole (hkeeps (0, "")) hsound hgil
    obtain ⟨pp', out, hcall, hrest⟩ := hvalues r.1 (hval rfl)
    refine ⟨r.1, pp', out, hcall, done, hrest ▸ hleft, fun said => ?_⟩
    apply Keeps.endsWith (hkeeps said) ?_ hsound hgil
    intro r' hr'
    exact Except.ok.inj ((hr'.2 rfl).symm.trans (hval rfl))
  · obtain ⟨done, hleft, hvalue⟩ := batch_value lib hpcap reallocs maxN
    refine ⟨done, hleft, ?_⟩
    apply Keeps.endsWith (fun _ => keeps_nextBatch { reallocs := reallocs } maxN _) ?_ hsound hgil
    intro r hr
    exact (hr.2 ⟨rfl, rfl, rfl, rfl⟩ rfl).trans hvalue
  · obtain ⟨hleft, hvalue⟩ := next_value lib hpcap
    refine ⟨hleft, ?_⟩
    apply Keeps.endsWith (fun _ => keeps_next (plainNextRun lib c)) ?_ hsound hgil
    intro r hr
    exact (hr.2 rfl rfl).trans hvalue

/-- A batch of a file that breaks off behind its second packet. -/
theorem plain_memory_agrees_two :
    let pp : PcapObject := ⟨some ⟨[udpRecord, udpRecord], .error, false⟩, [], 0⟩
    let c : Capture := ⟨[udpRecord, udpRecord], .error, false⟩
    let reallocs : Nat → Bool := fun t => t = 0
    (∃ done, pp.left = done ++ (pNextBatch .offline { reallocs := reallocs } pp 3 0).2.1.left ∧
      EndsWith (pNextBatchMem 0 { reallocs := reallocs } 3
          (plainBufferRun done (Libpcap.offline.saidBatch c reallocs 3)))
        (pNextBatch .offline { reallocs := reallocs } pp 3 0).1 quietHeap) ∧
      (pNextBatch .offline { reallocs := reallocs } pp 3 0).1 =
        .raise (.pcapError "truncated dump file") :=
  ⟨(plain_memory_agrees .offline ⟨some ⟨[udpRecord, udpRecord], .error, false⟩, [], 0⟩
    ⟨[udpRecord, udpRecord], .error, false⟩ rfl (by simp [udpRecord]) {} { cnt := 0 }
    (by simp) ⟨[], by simp⟩ (fun t => t = 0) 3 0 quietHeap_sound (by simp [quietHeap])).2.1,
    by decide⟩

end PcapyNg
