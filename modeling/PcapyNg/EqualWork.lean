import PcapyNg.FlowHeads
import PcapyNg.LoopToBuffer
import PcapyNg.PyEquiv
import PcapyNg.SecurityClasses

/-!
# The Python counterparts of the classifier's runs

The functions of `pyequiv` read a file packet by packet, parse each and decide in Python. On
packets whose header both sides find, the decisions are those of the classifier: the counts are
equal, and the two buffers hold the same bytes.
-/

namespace PcapyNg
open ReadLoop BoundedLog
set_option autoImplicit false

/-- `while True: hdr, data = reader.next(); if hdr is None: break`, and the rest of the body. -/
def readerLoop (lib : Libpcap) {σ : Type} (body : σ → Bytes → Except Fault σ) :
    Nat → PcapObject → σ → Except Fault (PyOutcome σ)
  | 0, _, _ => .error .diverges
  | calls + 1, pp, s =>
    let (o, pp) := pNext lib pp
    match o.value with
    | none => .ok ⟨none, o.pending⟩
    | some (none, _) => .ok (.ret s)
    | some (some _, data) => do
      let s ← body s data
      readerLoop lib body calls pp s

/-! What is decided about a packet, with the state that is carried along. -/

def admitAll (s : Unit) (data : Bytes) : Except Fault (Unit × Bool) := do
  let _ ← parseIpv4 data 14
  return (s, true)

def admitNone (s : Unit) (data : Bytes) : Except Fault (Unit × Bool) := do
  let _ ← parseIpv4 data 14
  return (s, false)

def admitSet (addrSet : List UInt32) (s : Unit) (data : Bytes) : Except Fault (Unit × Bool) := do
  match ← parseIpv4 data 14 with
  | none => return (s, false)
  | some r => return (s, r.src ∈ addrSet ∨ r.dst ∈ addrSet)

def admitHead (cutoff : Nat) (seen : Flow → Nat) (data : Bytes) :
    Except Fault ((Flow → Nat) × Bool) := do
  match ← parseIpv4 data 14 with
  | none => return (seen, false)
  | some r =>
    if r.proto ≠ 6 ∧ r.proto ≠ 17 then return (seen, false)
    else
      let n := seen r + 1
      return (Function.update seen r n, n ≤ cutoff)

/-! The counting functions. -/

structure PyCounts where
  processed : Nat := 0
  admitted : Nat := 0

def countBody {σ : Type} (verdict : σ → Bytes → Except Fault (σ × Bool)) (s : σ × PyCounts)
    (data : Bytes) : Except Fault (σ × PyCounts) := do
  let (st, ok) ← verdict s.1 data
  return (st, ⟨s.2.processed + 1, if ok then s.2.admitted + 1 else s.2.admitted⟩)

/-- `{'processed': .., 'admitted': .., 'delivered': ..}` -/
structure PyResult where
  processed : Nat
  admitted : Nat
  delivered : Nat
  deriving DecidableEq

def runCounts (lib : Libpcap) {σ : Type} (verdict : σ → Bytes → Except Fault (σ × Bool)) (s : σ)
    (calls : Nat) (pp : PcapObject) : Except Fault (PyOutcome PyResult) := do
  let o ← readerLoop lib (countBody verdict) calls pp (s, {})
  return ⟨o.value.map fun s => ⟨s.2.processed, s.2.admitted, s.2.processed⟩, o.pending⟩

/-- `classify_all` -/
def pyClassifyAll (lib : Libpcap) := runCounts lib admitAll ()

/-- `classify_none` -/
def pyClassifyNone (lib : Libpcap) := runCounts lib admitNone ()

def addrSetMatch (lib : Libpcap) (addrSet : List UInt32) := runCounts lib (admitSet addrSet) ()

/-- `flow_heads` -/
def pyFlowHeads (lib : Libpcap) (cutoff : Nat) := runCounts lib (admitHead cutoff) fun _ => 0

/-! The functions that fill a buffer. -/

structure PyBuffer where
  buf : Bytes
  processed : Nat := 0
  written : Nat := 0
  pos : Nat := 0
  overflow : Nat := 0

/-- From `n = len(data)` to `written += 1`; a length beyond 32 bits is a `struct.error`. -/
def PyBuffer.write (size : Nat) (cls : UInt8) (data : Bytes) (b : PyBuffer) : Except Fault PyBuffer :=
  let n := data.length
  if b.pos + 5 + n > size then .ok { b with overflow := b.overflow + 1 }
  else if 2 ^ 32 ≤ n then .error .outOfBounds
  else
    let buf := splice b.buf b.pos (bytesLE (UInt32.ofNat n) ++ [cls])
    .ok { b with
      buf := splice buf (b.pos + 5) data
      pos := b.pos + (5 + n)
      written := b.written + 1 }

def bufferBody {σ : Type} (size : Nat) (cls : UInt8) (verdict : σ → Bytes → Except Fault (σ × Bool))
    (s : σ × PyBuffer) (data : Bytes) : Except Fault (σ × PyBuffer) := do
  let (st, ok) ← verdict s.1 data
  let b := { s.2 with processed := s.2.processed + 1 }
  if ok then
    let b ← b.write size cls data
    return (st, b)
  else return (st, b)

/-- The counters and the buffer itself; `delivered` is `processed`. -/
def runBuffer (lib : Libpcap) (cls : UInt8) {σ : Type} (verdict : σ → Bytes → Except Fault (σ × Bool))
    (s : σ) (calls : Nat) (pp : PcapObject) (buf : Bytes) : Except Fault (PyOutcome PyBuffer) := do
  let o ← readerLoop lib (bufferBody buf.length cls verdict) calls pp (s, { buf := buf })
  return ⟨o.value.map Prod.snd, o.pending⟩

def bufferAll (lib : Libpcap) := runBuffer lib 0 admitAll ()

def bufferAddrSet (lib : Libpcap) (addrSet : List UInt32) := runBuffer lib 2 (admitSet addrSet) ()

def bufferFlowHeads (lib : Libpcap) (cutoff : Nat) :=
  runBuffer lib 1 (admitHead cutoff) fun _ => 0

/-! What the buffer holds after the admitted packets `xs`. -/

def PyBuffer.after (buf : Bytes) (processed : Nat) (xs : List (UInt8 × Bytes)) : PyBuffer where
  buf := logged encodeEntry buf (fits entrySize buf.length 0 xs)
  processed := processed
  written := (fits entrySize buf.length 0 xs).length
  pos := total entrySize (fits entrySize buf.length 0 xs)
  overflow := xs.length - (fits entrySize buf.length 0 xs).length

theorem PyBuffer.write_after (buf : Bytes) (processed : Nat) (xs : List (UInt8 × Bytes)) (cls : UInt8)
    {data : Bytes} (hdata : data.length < 2 ^ 32) :
    (PyBuffer.after buf processed xs).write buf.length cls data =
      .ok (PyBuffer.after buf processed (xs ++ [(cls, data)])) := by
  have hle := (fits_sublist entrySize buf.length 0 xs).length_le
  have htotal := fits_total_le entrySize buf.length (Nat.zero_le _) xs
  have hfits := fits_append entrySize buf.length 0 xs [(cls, data)]
  rw [Nat.zero_add] at htotal hfits
  have hpos : (PyBuffer.after buf processed xs).pos =
      total entrySize (fits entrySize buf.length 0 xs) := rfl
  rw [PyBuffer.write, hpos]
  by_cases hroom : total entrySize (fits entrySize buf.length 0 xs) + (5 + data.length) ≤ buf.length
  · have hlast : fits entrySize buf.length (total entrySize (fits entrySize buf.length 0 xs))
        [(cls, data)] = [(cls, data)] := by simp [fits, entrySize, hroom]
    have hmem : (PyBuffer.after buf processed xs).buf.length = buf.length := by
      apply logged_length encodeEntry
      rwa [← total_eq_length]
    have hstore := splice_logged encodeEntry buf (fits entrySize buf.length 0 xs) (cls, data)
    have hhead : (bytesLE (UInt32.ofNat data.length) ++ [cls]).length = 5 := rfl
    have htwo := splice_splice (bytesLE (UInt32.ofNat data.length) ++ [cls]) data
      (by omega : total entrySize (fits entrySize buf.length 0 xs) ≤
        (PyBuffer.after buf processed xs).buf.length)
    have hentry : bytesLE (UInt32.ofNat data.length) ++ [cls] ++ data = encodeEntry (cls, data) := by
      rw [encodeEntry, List.append_assoc]
      rfl
    rw [← total_eq_length] at hstore
    rw [hhead, hentry] at htwo
    rw [if_neg (by omega), if_neg (by omega)]
    simp only [htwo]
    simp only [PyBuffer.after, hfits, hlast, hstore, List.length_append, List.length_singleton,
      total_append, total_cons, total_nil, entrySize]
    rw [Nat.add_sub_add_right]
    rfl
  · have hlast : fits entrySize buf.length (total entrySize (fits entrySize buf.length 0 xs))
        [(cls, data)] = [] := by simp [fits, entrySize, hroom]
    rw [if_pos (by omega)]
    simp only [PyBuffer.after, hfits, hlast, List.append_nil, List.length_append,
      List.length_singleton]
    rw [Nat.sub_add_comm hle]

/-! The runs of Python, given what is decided. -/

section Python
variable (lib : Libpcap) {σ : Type} {verdict : σ → Bytes → Except Fault (σ × Bool)}
  (choose : σ → Record → σ × Bool)

/-- The packets admitted when `s` is the state before them. -/
def chosen (choose : σ → Record → σ × Bool) : σ → List Record → List Record
  | _, [] => []
  | s, r :: rs => (if (choose s r).2 then [r] else []) ++ chosen choose (choose s r).1 rs

theorem readerLoop_record {τ : Type} {body : τ → Bytes → Except Fault τ} {pp : PcapObject}
    {r : Record} {rs : List Record} {e : Ending} {t t' : τ}
    (hpcap : pp.pcap = some ⟨r :: rs, e, false⟩) (hbody : body t r.data = .ok t') (calls : Nat) :
    readerLoop lib body (calls + 1) pp t =
      readerLoop lib body calls { pp with pcap := some ⟨rs, e, false⟩ } t' := by
  rw [readerLoop, pNext_record lib hpcap]
  simp only [PyOutcome.ret, hbody]
  rfl

theorem readerLoop_eof {τ : Type} {body : τ → Bytes → Except Fault τ} {pp : PcapObject}
    (hpcap : pp.pcap = some ⟨[], .eof, false⟩) (calls : Nat) (t : τ) :
    readerLoop lib body (calls + 1) pp t = .ok (.ret t) := by
  rw [readerLoop, pNext_eof lib hpcap]
  rfl

variable {choose} {rs : List Record}
  (hchoose : ∀ r ∈ rs, ∀ s, verdict s r.data = .ok (choose s r))
include hchoose

theorem readerLoop_count {pp : PcapObject} (hpcap : pp.pcap = some ⟨rs, .eof, false⟩) (s : σ)
    (c : PyCounts) {calls : Nat} (hcalls : rs.length < calls) :
    ∃ st, readerLoop lib (countBody verdict) calls pp (s, c) =
      .ok (.ret (st, ⟨c.processed + rs.length, c.admitted + (chosen choose s rs).length⟩)) := by
  obtain ⟨calls, rfl⟩ : ∃ n, calls = n + 1 := ⟨calls - 1, by omega⟩
  induction rs generalizing pp s c calls with
  | nil => exact ⟨s, readerLoop_eof lib hpcap calls _⟩
  | cons r rs ih =>
    simp only [List.length_cons] at hcalls
    obtain ⟨calls, rfl⟩ : ∃ n, calls = n + 1 := ⟨calls - 1, by omega⟩
    have hbody : countBody verdict (s, c) r.data = .ok ((choose s r).1, ⟨c.processed + 1,
        if (choose s r).2 then c.admitted + 1 else c.admitted⟩) := by
      rw [countBody, hchoose r List.mem_cons_self]
      rfl
    have hnext : ({ pp with pcap := some ⟨rs, .eof, false⟩ } : PcapObject).pcap =
      some ⟨rs, .eof, false⟩ := rfl
    obtain ⟨st, hst⟩ := ih (fun x hx => hchoose x (List.mem_cons_of_mem r hx)) hnext (choose s r).1
      ⟨c.processed + 1, if (choose s r).2 then c.admitted + 1 else c.admitted⟩ calls (by omega)
    refine ⟨st, ?_⟩
    rw [readerLoop_record lib hpcap hbody, hst, chosen]
    cases (choose s r).2
    · simp [Nat.add_assoc, Nat.add_comm 1]
    · simp [Nat.add_assoc, Nat.add_comm 1]

theorem readerLoop_buffer {pp : PcapObject} (hpcap : pp.pcap = some ⟨rs, .eof, false⟩) (buf : Bytes)
    (cls : UInt8) (s : σ) (processed : Nat) (xs : List (UInt8 × Bytes)) {calls : Nat}
    (hcalls : rs.length < calls) :
    ∃ st, readerLoop lib (bufferBody buf.length cls verdict) calls pp
        (s, .after buf processed xs) =
      .ok (.ret (st, .after buf (processed + rs.length)
        (xs ++ (chosen choose s rs).map fun r => (cls, r.data)))) := by
  obtain ⟨calls, rfl⟩ : ∃ n, calls = n + 1 := ⟨calls - 1, by omega⟩
  induction rs generalizing pp s processed xs calls with
  | nil =>
    refine ⟨s, ?_⟩
    rw [readerLoop_eof lib hpcap, chosen, List.map_nil, List.append_nil]
    rfl
  | cons r rs ih =>
    simp only [List.length_cons] at hcalls
    obtain ⟨calls, rfl⟩ : ∃ n, calls = n + 1 := ⟨calls - 1, by omega⟩
    have hbody : bufferBody buf.length cls verdict (s, .after buf processed xs) r.data =
        .ok ((choose s r).1, .after buf (processed + 1)
          (xs ++ (if (choose s r).2 then [r] else []).map fun r => (cls, r.data))) := by
      have hwrite : (PyBuffer.after buf (processed + 1) xs).write buf.length cls r.data = _ :=
        PyBuffer.write_after buf (processed + 1) xs cls r.packet.small
      rw [bufferBody, hchoose r List.mem_cons_self]
      rcases choose s r with ⟨st, _ | _⟩
      · rw [if_neg Bool.false_ne_true, List.map_nil, List.append_nil]
        rfl
      · rw [if_pos rfl, List.map_singleton]
        have hbind : (PyBuffer.after buf (processed + 1) xs).write buf.length cls r.data >>=
            (fun b => pure (st, b)) =
              .ok (st, PyBuffer.after buf (processed + 1) (xs ++ [(cls, r.data)])) := by
          rw [hwrite]
          rfl
        exact hbind
    have hnext : ({ pp with pcap := some ⟨rs, .eof, false⟩ } : PcapObject).pcap =
      some ⟨rs, .eof, false⟩ := rfl
    obtain ⟨st, hst⟩ := ih (fun x hx => hchoose x (List.mem_cons_of_mem r hx)) hnext
      (choose s r).1 (processed + 1)
      (xs ++ (if (choose s r).2 then [r] else []).map fun r => (cls, r.data)) calls (by omega)
    refine ⟨st, ?_⟩
    rw [readerLoop_record lib hpcap hbody, hst, chosen, List.map_append, List.append_assoc,
      List.length_cons, Nat.add_assoc, Nat.add_comm 1]

end Python

/-! The calls that the benchmark pairs them with. -/

/-- `b''.join(struct.pack('!I', ip) for ip in ips)` -/
def addrBytes (ips : List UInt32) : Bytes := ips.flatMap fun ip => (bytesLE ip).reverse

/-- `(-1, .., mask, addr_b, cutoff)` -/
def benchArgs (mask : Int32) (addrB : Bytes) (cutoff : Int32) : LoopArgs :=
  { cnt := -1, admitMask := mask, addrSet := some addrB, flowCutoff := cutoff }

def benchCfg : ClassCfg := ⟨53, mtDpiPortsDefault, mtTlsPortsDefault, 14, 0⟩

/-- A call of `loop_filtered` with `_noop` counts what the Python function counts. -/
def EqualCounts (lib : Libpcap) (pp : PcapObject) (args : LoopArgs)
    (counting : Except Fault (PyOutcome PyResult)) : Prop :=
  ∃ admitted dropped classes pp' made res,
    pLoopFiltered lib {} pp args (fun _ _ => none) =
        .ok (.ret (admitted :: dropped :: classes), pp', made) ∧
      counting = .ok (.ret res) ∧ made.length = res.admitted ∧
      admitted = UInt64.ofNat res.admitted ∧ admitted + dropped = UInt64.ofNat res.processed

/-- A call of `loop_to_buffer` leaves the counts and the bytes that the Python function leaves. -/
def EqualBuffers (lib : Libpcap) (pp : PcapObject) (args : LoopArgs)
    (filling : Bytes → Except Fault (PyOutcome PyBuffer)) : Prop :=
  ∀ view : WritableBuf, ∃ written dropped overflow used classes pp' out,
    pLoopToBuffer lib {} pp args view =
        .ok (.ret (written :: dropped :: overflow :: used :: classes), pp', out.buf) ∧
      filling view.bytes = .ok (.ret out) ∧ written = UInt64.ofNat out.written ∧
      overflow = UInt64.ofNat out.overflow ∧ used = UInt64.ofNat out.pos ∧
      written + overflow + dropped = UInt64.ofNat out.processed

section Runs
variable {lib : Libpcap} {pp : PcapObject} {rs : List Record}

theorem benchSetup (text : String) (mask : Int32) {addrB : Bytes} (cutoff : Int32)
    {set : Option AddrSet} (hioc : buildIoc {} (some addrB) = .ok (setPtr set)) :
    loopSetup text {} (benchArgs mask addrB cutoff) = .ok (.ok ⟨benchCfg, setPtr set,
      if (if cutoff > 0 then cutoff.toUInt32 else 0) ≠ 0 then flowtabBuild {} 20 else none,
      if cutoff > 0 then cutoff.toUInt32 else 0⟩) := by
  have hcfg : classCfg text {} (benchArgs mask addrB cutoff) = .ok benchCfg := rfl
  have hset : buildIoc {} (benchArgs mask addrB cutoff).addrSet = .ok (setPtr set) := hioc
  rw [loopSetup, hcfg]
  simp only [bind, Except.bind, hset]
  rfl

theorem benchSetup_tableless (text : String) (mask : Int32) {addrB : Bytes} {set : Option AddrSet}
    (hioc : buildIoc {} (some addrB) = .ok (setPtr set)) :
    loopSetup text {} (benchArgs mask addrB 0) = .ok (.ok ⟨benchCfg, setPtr set, none, 0⟩) :=
  benchSetup text mask 0 hioc

/-- One step of the generic classifier as the benchmark sets it up. -/
def benchStep (set : Option AddrSet) (flowCutoff : UInt32) (flowtab : Option FlowTab) (r : Record) :
    Nat × Option FlowTab :=
  genericClass benchCfg set flowtab flowCutoff r.data

theorem benchClasses (set : Option AddrSet) (flowtab : Option FlowTab) (flowCutoff : UInt32)
    (rs : List Record) :
    Classifier.classes ⟨benchCfg, setPtr set, flowtab, flowCutoff⟩ rs =
      .ok (classAll (benchStep set flowCutoff) flowtab rs) := by
  have hoff : benchCfg.l2Off.toNat ≤ 64 := by decide
  rw [Classifier.classes_eq hoff rfl]
  rfl

theorem offered_cons (mask : Int32) (base : Nat) (r : Record) (rs : List Record) (k : Nat)
    (ks : List Nat) :
    offered mask base (r :: rs) (k :: ks) =
      (if Admits mask k then [entry base (r, k)] else []) ++ offered mask base rs ks := by
  rw [offered, admitted, List.zip_cons_cons, List.filter_cons]
  by_cases hk : Admits mask k
  · simp [hk, offered, admitted]
  · simp [hk, offered, admitted]

/-- If `agree` relates the two states before each packet, both sides verdict the same packets. -/
theorem offered_eq_chosen {σ : Type} {choose : σ → Record → σ × Bool} {mask : Int32} {cls : UInt8}
    {set : Option AddrSet} {flowCutoff : UInt32} (agree : σ → Option FlowTab → List Record → Prop)
    (hstep : ∀ s flowtab r rs, agree s flowtab (r :: rs) →
      (Admits mask (benchStep set flowCutoff flowtab r).1 ↔ (choose s r).2 = true) ∧
      (Admits mask (benchStep set flowCutoff flowtab r).1 →
        UInt8.ofNat (benchStep set flowCutoff flowtab r).1 = cls) ∧
      agree (choose s r).1 (benchStep set flowCutoff flowtab r).2 rs)
    {s : σ} {flowtab : Option FlowTab} {rs : List Record} (h : agree s flowtab rs) :
    offered mask 0 rs (classAll (benchStep set flowCutoff) flowtab rs).1 =
      (chosen choose s rs).map fun r => (cls, r.data) := by
  induction rs generalizing s flowtab with
  | nil => rfl
  | cons r rs ih =>
    obtain ⟨hiff, hcls, hnext⟩ := hstep s flowtab r rs h
    rw [classAll, chosen, List.map_append, ← ih hnext]
    simp only [offered_cons]
    by_cases hk : Admits mask (benchStep set flowCutoff flowtab r).1
    · rw [if_pos hk, if_pos (hiff.mp hk), List.map_singleton, entry, Nat.zero_add, hcls hk]
    · rw [if_neg hk, if_neg (fun hc => hk (hiff.mpr hc)), List.map_nil]

theorem due_bench (mask : Int32) (addrB : Bytes) (cutoff : Int32) (rs : List Record) :
    due (benchArgs mask addrB cutoff).cnt.toInt rs = rs :=
  due_of_all (Or.inl (by decide : (-1 : Int32).toInt ≤ 0))

theorem counted_add_up (mask : Int32) {rs : List Record} {ks : List Nat}
    (hlen : ks.length = rs.length) :
    UInt64.ofNat (ks.countP fun k => Admits mask k) +
      UInt64.ofNat (ks.countP fun k => ¬ Admits mask k) = UInt64.ofNat rs.length := by
  have hadd : (ks.countP fun k => Admits mask k) + (ks.countP fun k => ¬ Admits mask k) =
      ks.length := by
    simpa using (List.length_eq_countP_add_countP (fun k => decide (Admits mask k)) (l := ks)).symm
  rw [← UInt64.ofNat_add, hadd, hlen]

section Pair
variable (lib) {σ : Type} {verdict : σ → Bytes → Except Fault (σ × Bool)}
  {choose : σ → Record → σ × Bool} (s₀ : σ) {mask cutoff : Int32} {addrB : Bytes}
  {cl : Classifier} {ks : List Nat} {flowtab : Option FlowTab} {calls : Nat}
  (hpcap : pp.pcap = some ⟨rs, .eof, false⟩) (hcalls : rs.length < calls)
  (hsetup : ∀ text, loopSetup text {} (benchArgs mask addrB cutoff) = .ok (.ok cl))
  (hks : cl.classes rs = .ok (ks, flowtab))
  (hchoose : ∀ r ∈ rs, ∀ s, verdict s r.data = .ok (choose s r))
  (hsmall : ∀ r ∈ rs, r.hdr.caplen.toNat + 5 < 2 ^ 32)
include hpcap hcalls hsetup hks hchoose

/-- What the two counting runs return, whatever they verdict. -/
theorem counting_runs :
    ∃ pp' made, pLoopFiltered lib {} pp (benchArgs mask addrB cutoff) (fun _ _ => none) =
        .ok (.ret (UInt64.ofNat (ks.countP fun k => Admits mask k) ::
          UInt64.ofNat (ks.countP fun k => ¬ Admits mask k) :: (tally ks).take 3), pp', made) ∧
      made.length = (ks.countP fun k => Admits mask k) ∧
      runCounts lib verdict s₀ calls pp =
        .ok (.ret ⟨rs.length, (chosen choose s₀ rs).length, rs.length⟩) := by
  have hdue := due_bench mask addrB cutoff rs
  have hlen : ks.length = rs.length := classifyAll_length hks
  obtain ⟨c', -, hrun⟩ := loopFiltered_quiet lib {} pp (benchArgs mask addrB cutoff)
    (fun _ _ => none) hpcap rfl (hsetup _) (by rwa [hdue])
    (firstRaise_of_never (fun _ _ => rfl) _ _)
  have hcut : ¬ CutShort (benchArgs mask addrB cutoff).cnt.toInt
      (⟨rs, .eof, false⟩ : Capture) := fun h => nomatch h.1
  rw [hdue, if_neg hcut] at hrun
  obtain ⟨st, hst⟩ := readerLoop_count lib hchoose hpcap s₀ {} hcalls
  refine ⟨_, _, hrun, ?_, ?_⟩
  · rw [← offered_length mask (profileBase cl.cfg) hlen, offered_eq, List.length_map]
    rfl
  · rw [runCounts, hst]
    simp only [bind, Except.bind, PyOutcome.ret, Option.map_some, Nat.zero_add]
    rfl

include hsmall in
/-- The same about the two runs that fill a buffer. -/
theorem filling_runs (cls : UInt8) (view : WritableBuf) :
    ∃ pp', pLoopToBuffer lib {} pp (benchArgs mask addrB cutoff) view =
        .ok (.ret ((BufferCtx.after cl mask view flowtab rs ks).result 0), pp',
          (BufferCtx.after cl mask view flowtab rs ks).buf) ∧
      runBuffer lib cls verdict s₀ calls pp view.bytes =
        .ok (.ret (.after view.bytes rs.length
          ((chosen choose s₀ rs).map fun r => (cls, r.data)))) := by
  have hdue := due_bench mask addrB cutoff rs
  obtain ⟨c', hrun⟩ := loopToBuffer_eq lib {} pp view hpcap rfl (hsetup _) (by rwa [hdue]) hsmall
  rw [hdue] at hrun
  obtain ⟨st, hst⟩ := readerLoop_buffer lib hchoose hpcap view.bytes cls s₀ 0 [] hcalls
  refine ⟨_, hrun, ?_⟩
  have hstart : PyBuffer.after view.bytes 0 [] = { buf := view.bytes } := rfl
  rw [Nat.zero_add, List.nil_append, hstart] at hst
  rw [runBuffer, hst]
  rfl

variable {s₀} {cls : UInt8}
  (hoffered : offered mask 0 rs ks = (chosen choose s₀ rs).map fun r => (cls, r.data))
include hoffered

/-- If both verdict the same packets, the counts are equal. -/
theorem equalCounts_of_offered :
    EqualCounts lib pp (benchArgs mask addrB cutoff) (runCounts lib verdict s₀ calls pp) := by
  have hlen : ks.length = rs.length := classifyAll_length hks
  have hadmitted : (ks.countP fun k => Admits mask k) = (chosen choose s₀ rs).length := by
    rw [← offered_length mask 0 hlen, hoffered, List.length_map]
  obtain ⟨pp', made, hfiltered, hmade, hpy⟩ :=
    counting_runs lib s₀ hpcap hcalls hsetup hks hchoose
  exact ⟨_, _, _, _, _, _, hfiltered, hpy, hmade.trans hadmitted,
    congrArg UInt64.ofNat hadmitted, counted_add_up mask hlen⟩

include hsmall in
/-- If they verdict them under the same class too, the buffers are equal. -/
theorem equalBuffers_of_offered (hbase : profileBase cl.cfg = 0) :
    EqualBuffers lib pp (benchArgs mask addrB cutoff) (runBuffer lib cls verdict s₀ calls pp) := by
  have hlen : ks.length = rs.length := classifyAll_length hks
  intro view
  obtain ⟨pp', hbuffer, hpy⟩ :=
    filling_runs lib s₀ hpcap hcalls hsetup hks hchoose hsmall cls view
  have hkept : kept mask (profileBase cl.cfg) view rs ks = fits entrySize view.bytes.length 0
      ((chosen choose s₀ rs).map fun r => (cls, r.data)) := by
    rw [kept, hbase, hoffered]
  have hle := kept_length_le mask (profileBase cl.cfg) view rs ks
  have hoff : (offered mask (profileBase cl.cfg) rs ks).length =
      (ks.countP fun k => Admits mask k) := offered_length mask _ hlen
  have hbuf : (BufferCtx.after cl mask view flowtab rs ks).buf = (PyBuffer.after view.bytes
      rs.length ((chosen choose s₀ rs).map fun r => (cls, r.data))).buf :=
    congrArg (logged encodeEntry view.bytes) hkept
  rw [hbuf] at hbuffer
  refine ⟨_, _, _, _, _, _, _, hbuffer, hpy, ?_, ?_, ?_, ?_⟩
  · exact congrArg (fun xs => UInt64.ofNat xs.length) hkept
  · apply congrArg UInt64.ofNat
    rw [hkept, hbase, hoffered]
    rfl
  · exact congrArg (fun xs => UInt64.ofNat (total entrySize xs)) hkept
  · simp only [BufferCtx.after]
    rw [← UInt64.ofNat_add, Nat.add_sub_cancel' hle, hoff]
    exact counted_add_up mask hlen

end Pair

/-! Address sets. -/

theorem admitAll_eq {b : Bytes} (h : Agrees b) : admitAll () b = .ok ((), true) := by
  rw [admitAll, parseIpv4_of_agrees h]
  rfl

theorem admitNone_eq {b : Bytes} (h : Agrees b) : admitNone () b = .ok ((), false) := by
  rw [admitNone, parseIpv4_of_agrees h]
  rfl

/-- The addresses of the header, if there is one, looked up in a Python set. -/
def hitsSet (addrSet : List UInt32) (b : Bytes) : Bool :=
  (header 14 b).any fun l3 => wordBE b (l3 + 12) ∈ addrSet ∨ wordBE b (l3 + 16) ∈ addrSet

theorem parsedAt_addrs (p : Bytes) (l3 : Nat) :
    (parsedAt p l3).src = wordBE p (l3 + 12) ∧ (parsedAt p l3).dst = wordBE p (l3 + 16) ∧
      (parsedAt p l3).proto = protoAt p l3 := by
  rw [parsedAt]
  split <;> exact ⟨rfl, rfl, rfl⟩

theorem admitSet_eq (addrSet : List UInt32) {b : Bytes} (h : Agrees b) :
    admitSet addrSet () b = .ok ((), hitsSet addrSet b) := by
  rw [admitSet, parseIpv4_of_agrees h, hitsSet]
  cases header 14 b with
  | none => rfl
  | some l3 =>
    obtain ⟨hsrc, hdst, -⟩ := parsedAt_addrs b l3
    simp only [Option.map_some, bind, Except.bind, Option.any_some, hsrc, hdst]
    rfl

theorem addrBytes_eq (ips : List UInt32) : addrBytes ips = (ips.map swap32).flatMap bytesLE := by
  rw [addrBytes, List.flatMap_map]
  simp only [bytesLE_swap32]

theorem mem_swapped {ips : List UInt32} {w : UInt32} : w ∈ ips.map swap32 ↔ swap32 w ∈ ips := by
  rw [List.mem_map]
  constructor
  · rintro ⟨ip, hip, rfl⟩
    rwa [swap32_swap32]
  · exact fun h => ⟨swap32 w, h, swap32_swap32 w⟩

/-- The set built from the packed addresses has the packets of the Python set. -/
theorem addrBytes_set {ips : List UInt32} (hne : ∀ ip ∈ ips, ip ≠ 0) (hsmall : ips.length ≤ 2 ^ 30) :
    ∃ set : Option AddrSet, buildIoc {} (some (addrBytes ips)) = .ok (setPtr set) ∧
      ∀ b, hitsSet ips b = true ↔ ∃ l3, header 14 b = some l3 ∧ AddrMatch set b l3 := by
  have hswapped : ∀ ip ∈ ips.map swap32, ip ≠ 0 := by
    intro ip hip h0
    rw [mem_swapped, h0] at hip
    exact hne _ hip rfl
  obtain ⟨set, hbuild, hmem⟩ := addrSet_of_list (ips.map swap32) hswapped
    (by rwa [List.length_map])
  rw [← addrBytes_eq] at hbuild
  refine ⟨set, hbuild, fun b => ?_⟩
  have hmatch : ∀ l3, AddrMatch set b l3 ↔ wordBE b (l3 + 12) ∈ ips ∨ wordBE b (l3 + 16) ∈ ips := by
    intro l3
    rw [AddrMatch, hmem, hmem, mem_swapped, mem_swapped, wordBE_eq, wordBE_eq]
    rfl
  simp only [hitsSet, hmatch]
  cases header 14 b <;> simp

/-- Without a flow table the class is 2 for a hit and 0 otherwise. -/
theorem benchStep_tableless {set : Option AddrSet} {addrSet : List UInt32}
    (hset : ∀ b, hitsSet addrSet b = true ↔ ∃ l3, header 14 b = some l3 ∧ AddrMatch set b l3)
    (r : Record) : benchStep set 0 none r = (if hitsSet addrSet r.data then 2 else 0, none) := by
  have h14 : benchCfg.l2Off.toNat = 14 := rfl
  have hhit := hset r.data
  rw [benchStep]
  cases hhdr : header 14 r.data with
  | none =>
    have hno : ¬ hitsSet addrSet r.data = true := by
      rw [hhit, hhdr]
      exact fun ⟨_, h, _⟩ => nomatch h
    rw [genericClass_not_found (h14 ▸ hhdr), if_neg hno]
  | some l3 =>
    rw [genericClass_found (h14 ▸ hhdr)]
    by_cases hm : AddrMatch set r.data l3
    · rw [genericAt_hit _ _ hm, if_pos (hhit.mpr ⟨l3, hhdr, hm⟩)]
    · have hno : ¬ hitsSet addrSet r.data = true := by
        rw [hhit, hhdr]
        rintro ⟨l, hl, hm'⟩
        obtain rfl := Option.some.inj hl
        exact hm hm'
      rw [genericAt_tableless _ hm, if_neg hno]

theorem offered_tableless {set : Option AddrSet} {addrSet : List UInt32} (mask : Int32) (cls : UInt8)
    (pick : Record → Bool)
    (hset : ∀ b, hitsSet addrSet b = true ↔ ∃ l3, header 14 b = some l3 ∧ AddrMatch set b l3)
    (hpick : ∀ r, (Admits mask (if hitsSet addrSet r.data then 2 else 0) ↔ pick r = true) ∧
      (Admits mask (if hitsSet addrSet r.data then 2 else 0) →
        UInt8.ofNat (if hitsSet addrSet r.data then 2 else 0) = cls)) (rs : List Record) :
    offered mask 0 rs (classAll (benchStep set 0) none rs).1 =
      (chosen (fun _ r => ((), pick r)) () rs).map fun r => (cls, r.data) := by
  refine offered_eq_chosen (fun _ flowtab _ => flowtab = none) ?_ rfl
  rintro s flowtab r rs rfl
  rw [benchStep_tableless hset r]
  exact ⟨(hpick r).1, (hpick r).2, rfl⟩

end Runs

/-- Where both sides find the same headers, admitting all packets, none, or those of an address
set is equal work. -/
theorem addr_set_equal_work (lib : Libpcap) (pp : PcapObject) (rs : List Record)
    (hpcap : pp.pcap = some ⟨rs, .eof, false⟩) (hagree : ∀ r ∈ rs, Agrees r.data)
    (hsmall : ∀ r ∈ rs, r.hdr.caplen.toNat + 5 < 2 ^ 32) (ips : List UInt32)
    (hne : ∀ ip ∈ ips, ip ≠ 0) (hmax : ips.length ≤ 2 ^ 30) (calls : Nat)
    (hcalls : rs.length < calls) :
    EqualCounts lib pp (benchArgs 7 [] 0) (pyClassifyAll lib calls pp) ∧
      EqualBuffers lib pp (benchArgs 7 [] 0) (bufferAll lib calls pp) ∧
      EqualCounts lib pp (benchArgs 0 [] 0) (pyClassifyNone lib calls pp) ∧
      EqualCounts lib pp (benchArgs 4 (addrBytes ips) 0) (addrSetMatch lib ips calls pp) ∧
      EqualBuffers lib pp (benchArgs 4 (addrBytes ips) 0) (bufferAddrSet lib ips calls pp) := by
  obtain ⟨set, hioc, hset⟩ := addrBytes_set hne hmax
  have hnil : ∀ ip ∈ ([] : List UInt32), ip ≠ 0 := nofun
  obtain ⟨empty, hnone, hempty⟩ := addrBytes_set hnil (Nat.zero_le _)
  have hmiss : ∀ b, hitsSet [] b = false := by
    intro b
    rw [hitsSet]
    cases header 14 b <;> simp
  have hsetup : ∀ mask text, loopSetup text {} (benchArgs mask [] 0) = _ := fun mask text =>
    benchSetup_tableless text mask hnone
  have hclasses := benchClasses empty none 0 rs
  have hall := offered_tableless 7 0 (fun _ => true) hempty
    (fun r => by rw [hmiss]; exact ⟨by decide, fun _ => rfl⟩) rs
  have hchooseAll : ∀ r ∈ rs, ∀ s, admitAll s r.data = .ok ((), true) := fun r hr _ =>
    admitAll_eq (hagree r hr)
  have hpick := offered_tableless 4 2 (fun r => hitsSet ips r.data) hset
    (fun r => by cases hitsSet ips r.data <;> exact ⟨by decide, by decide⟩) rs
  have hchooseSet : ∀ r ∈ rs, ∀ s, admitSet ips s r.data = .ok ((), hitsSet ips r.data) :=
    fun r hr _ => admitSet_eq ips (hagree r hr)
  refine ⟨?_, ?_, ?_, ?_, ?_⟩
  · exact equalCounts_of_offered lib hpcap hcalls (hsetup 7) hclasses hchooseAll hall
  · exact equalBuffers_of_offered lib hpcap hcalls (hsetup 7) hclasses hchooseAll hsmall hall rfl
  · have hdrop := offered_tableless 0 0 (fun _ => false) hempty
      (fun r => by rw [hmiss]; exact ⟨by decide, fun _ => rfl⟩) rs
    exact equalCounts_of_offered lib hpcap hcalls (hsetup 0) hclasses
      (fun r hr _ => admitNone_eq (hagree r hr)) hdrop
  · exact equalCounts_of_offered lib hpcap hcalls (fun text => benchSetup_tableless text 4 hioc)
      (benchClasses set none 0 rs) hchooseSet hpick
  · exact equalBuffers_of_offered lib hpcap hcalls (fun text => benchSetup_tableless text 4 hioc)
      (benchClasses set none 0 rs) hchooseSet hsmall hpick rfl

/-- A file with the UDP packet twice. -/
def udpTwice : PcapObject := ⟨some ⟨[udpRecord, udpRecord], .eof, false⟩, [], 0⟩

theorem udpRecord_agrees : Agrees udpRecord.data := rfl

theorem addr_set_equal_work_udp :
    EqualCounts .offline udpTwice (benchArgs 4 (addrBytes [0x0a000001]) 0)
        (addrSetMatch .offline [0x0a000001] 3 udpTwice) ∧
      EqualBuffers .offline udpTwice (benchArgs 4 (addrBytes [0x0a000001]) 0)
        (bufferAddrSet .offline [0x0a000001] 3 udpTwice) := by
  have h := addr_set_equal_work .offline udpTwice [udpRecord, udpRecord] rfl
    (by simp [udpRecord_agrees]) (by decide) [0x0a000001] (by simp) Nat.one_le_two_pow 3
    (by decide)
  exact h.2.2.2

end PcapyNg
