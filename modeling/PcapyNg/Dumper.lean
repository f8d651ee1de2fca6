import PcapyNg.PcapObject

/-!
# `Dumper`: packets written to a file

`pcap_dump` appends a record of as many bytes as the header says, read from the data pointer
on. `p_dump` parses the length of the bytes object and never compares the two.
-/

namespace PcapyNg
open ReadLoop
set_option autoImplicit false

/-- The memory behind a bytes object and its terminating NUL. -/
abbrev Behind := Nat → UInt8

/-- The byte at `data + i`. -/
def memoryAt (behind : Behind) (data : Bytes) (i : Nat) : UInt8 :=
  (data ++ [0]).getD i (behind (i - (data.length + 1)))

/-- An object passed as a header. -/
inductive PyHdr where
  | pkthdr (hdr : PcapPkthdr)
  | other

/-- `pcapdumper`: whether `dumper` is set, and the records of the file. -/
structure PcapDumper where
  isOpen : Bool
  file : List Record

/-- The record that `pcap_dump` appends. -/
def pcapDump (behind : Behind) (hdr : PcapPkthdr) (data : Bytes) : Record where
  hdr := hdr
  data := (List.range hdr.caplen.toNat).map (memoryAt behind data)
  captured := by rw [List.length_map, List.length_range]

def pkthdrToNative : PyHdr → Except PyExc PcapPkthdr
  | .pkthdr hdr => .ok hdr
  | .other => .error (.pcapError "Not a pkthdr object")

namespace PcapDumper

def pDump (behind : Behind) (pp : PcapDumper) (pyhdr : PyHdr) (data : Bytes) :
    PyOutcome Unit × PcapDumper :=
  match pkthdrToNative pyhdr with
  | .error e => (.raise e, pp)
  | .ok hdr =>
    if pp.isOpen then (.ret (), { pp with file := pp.file ++ [pcapDump behind hdr data] })
    else (.raise (.pcapError "Dumper is already closed."), pp)

def pClose (pp : PcapDumper) : PyOutcome Unit × PcapDumper := (.ret (), { pp with isOpen := false })

end PcapDumper

inductive DumperCall where
  | dump (pyhdr : PyHdr) (data : Bytes)
  | close

def DumperCall.run (behind : Behind) (pp : PcapDumper) : DumperCall → PyOutcome Unit × PcapDumper
  | dump pyhdr data => pp.pDump behind pyhdr data
  | close => pp.pClose

/-- The file is left alone, or gets a record with the fields of the header given and the first
`caplen` of the bytes given. -/
def DumperCall.Exact (behind : Behind) (pp : PcapDumper) : DumperCall → Prop
  | dump pyhdr data =>
    ((pp.pDump behind pyhdr data).1.pending.isSome ∧ (pp.pDump behind pyhdr data).2 = pp) ∨
      ∃ hdr r, pyhdr = .pkthdr hdr ∧
        (pp.pDump behind pyhdr data).2 = { pp with file := pp.file ++ [r] } ∧
        r.hdr = hdr ∧ r.data = data.take hdr.caplen.toNat
  | close => pp.pClose.2.file = pp.file

/-- A sequence of calls; `mem i` is what the memory holds at call `i`. -/
def dumperRun : (Nat → Behind) → PcapDumper → List DumperCall → PcapDumper
  | _, pp, [] => pp
  | mem, pp, call :: calls => dumperRun (fun i => mem (i + 1)) (call.run (mem 0) pp).2 calls

def EachExact : (Nat → Behind) → PcapDumper → List DumperCall → Prop
  | _, _, [] => True
  | mem, pp, call :: calls =>
    call.Exact (mem 0) pp ∧ EachExact (fun i => mem (i + 1)) (call.run (mem 0) pp).2 calls

/-- Every call is exact, and the file does not depend on what the memory holds. -/
def GivenOnly (pp : PcapDumper) (calls : List DumperCall) : Prop :=
  (∀ mem, EachExact mem pp calls) ∧
    ∀ mem mem', (dumperRun mem pp calls).file = (dumperRun mem' pp calls).file

/-- Every header dumped while the file is open declares no more bytes than come with it. -/
def Covered : Bool → List DumperCall → Prop
  | _, [] => True
  | isOpen, .dump pyhdr data :: calls =>
    (isOpen = true → ∀ hdr, pyhdr = .pkthdr hdr → hdr.caplen.toNat ≤ data.length) ∧
      Covered isOpen calls
  | _, .close :: calls => Covered false calls

/-- The pairs `next` returns until it raises or gives no header, in up to `calls` calls. -/
def nextPairs (lib : Libpcap) : Nat → PcapObject → List (PcapPkthdr × Bytes)
  | 0, _ => []
  | calls + 1, pp =>
    match (pNext lib pp).1.value with
    | some (some hdr, data) => (hdr, data) :: nextPairs lib calls (pNext lib pp).2
    | _ => []

def dumpPair (x : PcapPkthdr × Bytes) : DumperCall := .dump (.pkthdr x.1) x.2

def Record.pair (r : Record) : PcapPkthdr × Bytes := (r.hdr, r.data)

/-! One record. -/

theorem pcapDump_exact_iff (behind : Behind) (hdr : PcapPkthdr) (data : Bytes) :
    (pcapDump behind hdr data).data = data.take hdr.caplen.toNat ↔
      hdr.caplen.toNat ≤ data.length := by
  constructor
  · intro h
    have hlen := congrArg List.length h
    rw [(pcapDump behind hdr data).captured, List.length_take] at hlen
    change hdr.caplen.toNat = _ at hlen
    omega
  · intro hle
    apply List.ext_getElem
    · rw [(pcapDump behind hdr data).captured, List.length_take, Nat.min_eq_left hle]
      rfl
    · intro i hi hi'
      have hlt : i < hdr.caplen.toNat := by
        rw [List.length_take] at hi'
        omega
      have hin : i < data.length := by omega
      simp [pcapDump, memoryAt, List.getElem?_append_left hin, List.getElem?_eq_getElem hin]

theorem pcapDump_given {behind behind' : Behind} {hdr : PcapPkthdr} {data : Bytes}
    (h : hdr.caplen.toNat ≤ data.length) : pcapDump behind hdr data = pcapDump behind' hdr data := by
  have hdata := ((pcapDump_exact_iff behind hdr data).mpr h).trans
    ((pcapDump_exact_iff behind' hdr data).mpr h).symm
  unfold pcapDump at hdata ⊢
  simp only [Record.mk.injEq, true_and]
  exact hdata

theorem dump_exact_iff (behind : Behind) (pp : PcapDumper) (pyhdr : PyHdr) (data : Bytes) :
    (DumperCall.dump pyhdr data).Exact behind pp ↔
      (pp.isOpen = true → ∀ hdr, pyhdr = .pkthdr hdr → hdr.caplen.toNat ≤ data.length) := by
  rw [DumperCall.Exact]
  cases pyhdr with
  | other => exact iff_of_true (Or.inl ⟨rfl, rfl⟩) fun _ _ h => by cases h
  | pkthdr hdr =>
    rcases pp with ⟨isOpen, file⟩
    cases isOpen with
    | false => exact iff_of_true (Or.inl ⟨rfl, rfl⟩) fun h => by cases h
    | true =>
      constructor
      · rintro (⟨hraise, -⟩ | ⟨hdr', r, hhdr, hfile, -, hdata⟩) - hdr'' hhdr''
        · cases hraise
        · cases hhdr
          cases hhdr''
          obtain rfl : pcapDump behind hdr data = r := by
            have hlists := congrArg PcapDumper.file hfile
            exact List.singleton_inj.mp (List.append_cancel_left hlists)
          exact (pcapDump_exact_iff behind hdr data).mp hdata
      · intro hcovered
        refine Or.inr ⟨hdr, pcapDump behind hdr data, rfl, rfl, rfl, ?_⟩
        exact (pcapDump_exact_iff behind hdr data).mpr (hcovered rfl hdr rfl)

/-! Whole sequences. -/

theorem dump_isOpen (behind : Behind) (pp : PcapDumper) (pyhdr : PyHdr) (data : Bytes) :
    (pp.pDump behind pyhdr data).2.isOpen = pp.isOpen := by
  rw [PcapDumper.pDump]
  split
  · rfl
  · split <;> rfl

theorem eachExact_iff (mem : Nat → Behind) (pp : PcapDumper) (calls : List DumperCall) :
    EachExact mem pp calls ↔ Covered pp.isOpen calls := by
  induction calls generalizing mem pp with
  | nil => exact Iff.rfl
  | cons call calls ih =>
    cases call with
    | dump pyhdr data =>
      rw [EachExact, Covered, dump_exact_iff, ih, DumperCall.run, dump_isOpen]
    | close =>
      rw [EachExact, Covered, ih]
      exact and_iff_right rfl

theorem dumperRun_given {pp : PcapDumper} {calls : List DumperCall}
    (h : Covered pp.isOpen calls) (mem mem' : Nat → Behind) :
    dumperRun mem pp calls = dumperRun mem' pp calls := by
  induction calls generalizing mem mem' pp with
  | nil => rfl
  | cons call calls ih =>
    cases call with
    | dump pyhdr data =>
      have hsame : pp.pDump (mem 0) pyhdr data = pp.pDump (mem' 0) pyhdr data := by
        rw [PcapDumper.pDump, PcapDumper.pDump]
        cases pyhdr with
        | other => rfl
        | pkthdr hdr =>
          simp only [pkthdrToNative]
          split
          · rename_i hopen
            rw [pcapDump_given (h.1 hopen hdr rfl)]
          · rfl
      rw [dumperRun, dumperRun, DumperCall.run, DumperCall.run, hsame]
      apply ih
      rw [dump_isOpen]
      exact h.2
    | close => exact ih h _ _

theorem givenOnly_iff (pp : PcapDumper) (calls : List DumperCall) :
    GivenOnly pp calls ↔ Covered pp.isOpen calls := by
  constructor
  · intro h
    exact (eachExact_iff (fun _ _ => 0) pp calls).mp (h.1 _)
  · intro h
    refine ⟨fun mem => (eachExact_iff mem pp calls).mpr h, fun mem mem' => ?_⟩
    rw [dumperRun_given h mem mem']

/-! Dumping what `next` returns. -/

theorem nextPairs_eq (lib : Libpcap) {pp : PcapObject} {rs : List Record} {e : Ending}
    (hpcap : pp.pcap = some ⟨rs, e, false⟩) {calls : Nat} (hcalls : rs.length < calls) :
    nextPairs lib calls pp = rs.map Record.pair := by
  induction rs generalizing pp calls with
  | nil =>
    obtain ⟨calls, rfl⟩ : ∃ k, calls = k + 1 := ⟨calls - 1, by omega⟩
    cases e with
    | eof =>
      rw [nextPairs, pNext_eof lib hpcap]
      rfl
    | error =>
      rw [nextPairs, pNext_error lib hpcap]
      rfl
  | cons r rs ih =>
    obtain ⟨calls, rfl⟩ : ∃ k, calls = k + 1 := ⟨calls - 1, by omega⟩
    rw [List.length_cons] at hcalls
    rw [nextPairs, pNext_record lib hpcap]
    exact congrArg (r.pair :: ·) (ih rfl (by omega))

theorem pcapDump_record (behind : Behind) (r : Record) : pcapDump behind r.hdr r.data = r := by
  have hle : r.hdr.caplen.toNat ≤ r.data.length := r.captured.ge
  have hdata := (pcapDump_exact_iff behind r.hdr r.data).mpr hle
  rw [List.take_of_length_le r.captured.le] at hdata
  rcases r with ⟨hdr, data, captured⟩
  unfold pcapDump at hdata ⊢
  simp only [Record.mk.injEq, true_and]
  exact hdata

theorem dumperRun_records (mem : Nat → Behind) (file rs : List Record) :
    dumperRun mem ⟨true, file⟩ ((rs.map Record.pair).map dumpPair) = ⟨true, file ++ rs⟩ := by
  induction rs generalizing mem file with
  | nil => rw [List.append_nil]; rfl
  | cons r rs ih =>
    have hstep : (dumpPair r.pair).run (mem 0) ⟨true, file⟩ =
        (.ret (), ⟨true, file ++ [r]⟩) := by
      change (PyOutcome.ret (), PcapDumper.mk true (file ++ [pcapDump (mem 0) r.hdr r.data])) = _
      rw [pcapDump_record]
    rw [List.map_cons, List.map_cons, dumperRun, hstep, ih, List.append_assoc]
    rfl

/-- The dumper writes only what it is given exactly if no header declares more bytes than come
with it; what `next` returns never does, and reads back from the file. -/
theorem dumper_writes_given_iff (dumper : PcapDumper) (calls : List DumperCall)
    (lib : Libpcap) (pp : PcapObject) (c : Capture) (mem : Nat → Behind) (n : Nat) :
    (GivenOnly dumper calls ↔ Covered dumper.isOpen calls) ∧
    (pp.pcap = some c → c.brk = false → c.pending.length < n →
      let pairs := nextPairs lib n pp
      let file := (dumperRun mem ⟨true, []⟩ (pairs.map dumpPair)).file
      nextPairs lib n { pp with pcap := some ⟨file, .eof, false⟩ } = pairs) := by
  refine ⟨givenOnly_iff dumper calls, ?_⟩
  intro hpcap hbrk hcalls pairs file
  rcases c with ⟨rs, e, brk⟩
  cases hbrk
  have hpairs : pairs = rs.map Record.pair := nextPairs_eq lib hpcap hcalls
  have hfile : file = rs := by
    change (dumperRun mem ⟨true, []⟩ (pairs.map dumpPair)).file = rs
    rw [hpairs, dumperRun_records]
    rfl
  rw [hfile, hpairs]
  exact nextPairs_eq lib rfl hcalls

theorem dumper_writes_given_iff_one :
    GivenOnly ⟨true, []⟩ [.dump (.pkthdr udpRecord.hdr) udpRecord.data, .close] ∧
    nextPairs .offline 2 ⟨some ⟨(dumperRun (fun _ _ => 7) ⟨true, []⟩
      [.dump (.pkthdr udpRecord.hdr) udpRecord.data]).file, .eof, false⟩, [], 0⟩ =
      [(udpRecord.hdr, udpRecord.data)] := by
  have hsettled := dumper_writes_given_iff ⟨true, []⟩
    [.dump (.pkthdr udpRecord.hdr) udpRecord.data, .close] .offline
    ⟨some ⟨[udpRecord], .eof, false⟩, [], 0⟩ ⟨[udpRecord], .eof, false⟩ (fun _ _ => 7) 2
  refine ⟨hsettled.1.mpr ⟨fun _ hdr hhdr => ?_, trivial⟩, ?_⟩
  · cases hhdr
    decide
  · exact hsettled.2 rfl rfl (by decide)

/-- A header of a 42-byte packet with two bytes of data: the file gets forty bytes that were not
given. -/
theorem dump_leaks_memory :
    ¬ GivenOnly ⟨true, []⟩ [.dump (.pkthdr udpRecord.hdr) [1, 2]] ∧
    (dumperRun (fun _ _ => 7) ⟨true, []⟩ [.dump (.pkthdr udpRecord.hdr) [1, 2]]).file.map Record.data =
      [1 :: 2 :: 0 :: List.replicate 39 7] := by
  refine ⟨fun h => ?_, rfl⟩
  have hsame := h.2 (fun _ _ => 0) (fun _ _ => 7)
  exact absurd (congrArg (List.map Record.data) hsame) (by decide)

end PcapyNg
