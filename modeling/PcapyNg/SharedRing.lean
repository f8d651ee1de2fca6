import PcapyNg.Library.LogShares
import PcapyNg.LoopToBuffer

/-!
# The shared ring of the worker pool

`05_shared_memory_ring` has `loop_to_buffer` fill shared memory, finds the record boundaries and
gives each worker a range of records to tally. Indexing a memoryview outside is an `IndexError`,
here the fault `outOfBounds`.
-/

namespace PcapyNg
open ReadLoop BoundedLog
set_option autoImplicit false

/-- `mv[i]` -/
def mvAt (mv : Bytes) (i : Nat) : Except Fault UInt8 :=
  match mv[i]? with
  | some b => .ok b
  | none => .error .outOfBounds

/-- `mv[off] | (mv[off + 1] << 8) | (mv[off + 2] << 16) | (mv[off + 3] << 24)` -/
def recordLen (mv : Bytes) (off : Nat) : Except Fault Nat := do
  let b₀ ← mvAt mv off
  let b₁ ← mvAt mv (off + 1)
  let b₂ ← mvAt mv (off + 2)
  let b₃ ← mvAt mv (off + 3)
  return b₀.toNat ||| b₁.toNat <<< 8 ||| b₂.toNat <<< 16 ||| b₃.toNat <<< 24

def slotOffsetsFrom (mv : Bytes) : Nat → Nat → List Nat → Except Fault (List Nat)
  | 0, off, offs => .ok (offs ++ [off])
  | written + 1, off, offs => do
    let ln ← recordLen mv off
    slotOffsetsFrom mv written (off + (5 + ln)) (offs ++ [off])

def slotOffsets (mv : Bytes) (written : Nat) : Except Fault (List Nat) :=
  slotOffsetsFrom mv written 0 []

/-- A dictionary from class to count in which a missing class counts 0. -/
abbrev Counts := UInt8 → Nat

def Counts.incr (counts : Counts) (cls : UInt8) : Counts :=
  Function.update counts cls (counts cls + 1)

/-- The loop of `consume`: `while off < end`. -/
def consumeFrom (mv : Bytes) (stop : Nat) : Nat → Nat → Counts → Except Fault Counts
  | 0, _, _ => .error .diverges
  | fuel + 1, off, counts =>
    if off < stop then do
      let ln ← recordLen mv off
      let cls ← mvAt mv (off + 4)
      consumeFrom mv stop fuel (off + (5 + ln)) (counts.incr cls)
    else .ok counts

def consume (mv : Bytes) (start stop : Nat) : Except Fault Counts :=
  consumeFrom mv stop (stop - start + 1) start fun _ => 0

def workerNames : List String := ["OTHER", "FLOW_HEAD", "SET_MATCH"]

/-- What a worker prints: `NAMES[c], n` for the counted classes in order. -/
def workerLine (counts : Counts) : Except Fault (List (String × Nat)) :=
  ((List.range 256).filter fun c => 0 < counts (UInt8.ofNat c)).mapM fun c =>
    match workerNames[c]? with
    | some name => .ok (name, counts (UInt8.ofNat c))
    | none => .error .outOfBounds

/-- `offs[i]` -/
def offsetAt (offs : List Nat) (i : Nat) : Except Fault Nat :=
  match offs[i]? with
  | some off => .ok off
  | none => .error .outOfBounds

/-- Worker `k` of `workers`: records `offs[written * k // N]` to `offs[written * (k + 1) // N]`. -/
def runWorker (mv : Bytes) (written : Nat) (offs : List Nat) (workers k : Nat) :
    Except Fault Counts := do
  let start ← offsetAt offs (written * k / workers)
  let stop ← offsetAt offs (written * (k + 1) / workers)
  consume mv start stop

/-- The consumers of `main`; each works on its own. -/
def drainRing (mv : Bytes) (written workers : Nat) : Except Fault (List Counts) := do
  let offs ← slotOffsets mv written
  (List.range workers).mapM (runWorker mv written offs workers)

/-! Reading a record, and the ends of the loops. -/

theorem mvAt_of_lt {mv : Bytes} {i : Nat} (hi : i < mv.length) : mvAt mv i = .ok (byteAt mv i) := by
  simp [mvAt, byteAt, List.getElem?_eq_getElem hi, List.getD_eq_getElem?_getD]

theorem wordLE_toNat (a b c d : UInt8) :
    (wordLE a b c d).toNat = a.toNat ||| b.toNat <<< 8 ||| c.toNat <<< 16 ||| d.toNat <<< 24 := by
  have hshift : ∀ (x : UInt8) (n : Nat), n ≤ 24 → x.toNat <<< n % 4294967296 = x.toNat <<< n := by
    intro x n hn
    apply Nat.mod_eq_of_lt
    rw [Nat.shiftLeft_eq]
    calc x.toNat * 2 ^ n < 2 ^ 8 * 2 ^ n := Nat.mul_lt_mul_of_pos_right x.toNat_lt (Nat.two_pow_pos n)
      _ ≤ 2 ^ 8 * 2 ^ 24 := Nat.mul_le_mul_left _ (Nat.pow_le_pow_right (by decide) hn)
  have h8 := hshift b 8 (by omega)
  have h16 := hshift c 16 (by omega)
  have h24 := hshift d 24 (by omega)
  simp [wordLE, UInt32.toNat_or, UInt32.toNat_shiftLeft, h8, h16, h24]

theorem recordLen_of_le {mv : Bytes} {off : Nat} (h : off + 4 ≤ mv.length) :
    recordLen mv off = .ok (wordAt mv off).toNat := by
  have h₀ : mvAt mv off = _ := mvAt_of_lt (by omega)
  have h₁ : mvAt mv (off + 1) = _ := mvAt_of_lt (by omega)
  have h₂ : mvAt mv (off + 2) = _ := mvAt_of_lt (by omega)
  have h₃ : mvAt mv (off + 3) = _ := mvAt_of_lt (by omega)
  rw [recordLen, h₀, h₁, h₂, h₃, wordAt, wordLE_toNat]
  rfl

/-- Where a record stands, reading it gives its parts and leads behind it. -/
theorem record_reads {x : UInt8 × Bytes} (hx : x.2.length < 2 ^ 32) (pre post : Bytes) :
    recordLen (pre ++ (encodeEntry x ++ post)) pre.length = .ok x.2.length ∧
      mvAt (pre ++ (encodeEntry x ++ post)) (pre.length + 4) = .ok x.1 := by
  have hlen : (pre ++ (encodeEntry x ++ post)).length =
      pre.length + entrySize x + post.length := by
    rw [List.length_append, List.length_append, encodeEntry_length, Nat.add_assoc]
  unfold entrySize at hlen
  constructor
  · have hword : wordAt (pre ++ (encodeEntry x ++ post)) pre.length =
        UInt32.ofNat x.2.length := by
      rw [encodeEntry, List.append_assoc]
      exact wordAt_bytesLE pre _ _
    rw [recordLen_of_le (by omega), hword]
    exact congrArg Except.ok (UInt32.toNat_ofNat_of_lt' hx)
  · rw [mvAt_of_lt (by omega), byteAt_append_right]
    rfl

section Log
variable {xs : List (UInt8 × Bytes)}

theorem slotOffsetsFrom_log (hxs : ∀ x ∈ xs, x.2.length < 2 ^ 32) (pre post : Bytes)
    (offs : List Nat) :
    slotOffsetsFrom (pre ++ (xs.flatMap encodeEntry ++ post)) xs.length pre.length offs =
      .ok (offs ++ offsets entrySize pre.length xs) := by
  induction xs generalizing pre offs with
  | nil => rfl
  | cons x xs ih =>
    have hhead := (record_reads (hxs x (by simp)) pre (xs.flatMap encodeEntry ++ post)).1
    have hnext : (pre ++ encodeEntry x).length = pre.length + entrySize x := by
      rw [List.length_append, encodeEntry_length]
    have hrest := ih (fun y hy => hxs y (List.mem_cons_of_mem x hy)) (pre ++ encodeEntry x)
      (offs ++ [pre.length])
    rw [hnext, List.append_assoc, List.append_assoc] at hrest
    rw [List.flatMap_cons, List.append_assoc, List.length_cons, slotOffsetsFrom, hhead]
    exact hrest

/-- What a worker has counted after the records `xs`. -/
def Counts.after (counts : Counts) (xs : List (UInt8 × Bytes)) : Counts :=
  fun cls => counts cls + (xs.map Prod.fst).count cls

theorem Counts.incr_after (counts : Counts) (x : UInt8 × Bytes) (xs : List (UInt8 × Bytes)) :
    (counts.incr x.1).after xs = counts.after (x :: xs) := by
  funext cls
  by_cases hcls : cls = x.1
  · subst hcls
    simp [Counts.after, Counts.incr]
    omega
  · simp [Counts.after, Counts.incr, hcls, Ne.symm hcls]

/-- The run lemma: between two record boundaries a worker counts the records between them. -/
theorem consumeFrom_log (hxs : ∀ x ∈ xs, x.2.length < 2 ^ 32) (pre post : Bytes) {fuel : Nat}
    (hfuel : xs.length < fuel) (counts : Counts) :
    consumeFrom (pre ++ (xs.flatMap encodeEntry ++ post)) (pre.length + total entrySize xs) fuel
      pre.length counts = .ok (counts.after xs) := by
  induction xs generalizing pre fuel counts with
  | nil =>
    cases fuel with
    | zero => cases hfuel
    | succ fuel =>
      rw [consumeFrom, total_nil, if_neg (by omega)]
      rfl
  | cons x xs ih =>
    cases fuel with
    | zero => cases hfuel
    | succ fuel =>
      obtain ⟨hlen, hcls⟩ := record_reads (hxs x (by simp)) pre (xs.flatMap encodeEntry ++ post)
      have hnext : (pre ++ encodeEntry x).length = pre.length + entrySize x := by
        rw [List.length_append, encodeEntry_length]
      have hrest := ih (fun y hy => hxs y (List.mem_cons_of_mem x hy)) (pre ++ encodeEntry x)
        (Nat.lt_of_succ_lt_succ hfuel) (counts.incr x.1)
      rw [hnext, List.append_assoc, Nat.add_assoc, Counts.incr_after] at hrest
      have hpos : pre.length < pre.length + total entrySize (x :: xs) := by
        rw [total_cons, entrySize]
        omega
      rw [List.flatMap_cons, List.append_assoc, consumeFrom, if_pos hpos, hlen]
      simp only [bind, Except.bind, hcls]
      exact hrest

theorem total_entrySize_ge (xs : List (UInt8 × Bytes)) : xs.length ≤ total entrySize xs := by
  induction xs with
  | nil => exact Nat.le_refl 0
  | cons x xs ih =>
    rw [total_cons, List.length_cons, entrySize]
    omega

/-- The records of each class among `xs`. -/
def recordCounts (xs : List (UInt8 × Bytes)) : Counts := fun cls => (xs.map Prod.fst).count cls

/-- One worker, given the boundaries of its share. -/
theorem runWorker_log (hxs : ∀ x ∈ xs, x.2.length < 2 ^ 32) (mem : Bytes) {workers k : Nat}
    (hk : k < workers) :
    runWorker (logged encodeEntry mem xs) xs.length (offsets entrySize 0 xs) workers k =
      .ok (recordCounts (part (share xs.length workers) xs k)) := by
  have hworkers : 0 < workers := Nat.zero_lt_of_lt hk
  have hmono : share xs.length workers k ≤ share xs.length workers (k + 1) :=
    share_mono _ (Nat.le_succ k)
  have hle := share_le xs.length hworkers (Nat.succ_le_of_lt hk)
  have hstart := offsets_getElem entrySize 0 (hmono.trans hle)
  have hstop := offsets_getElem entrySize 0 hle
  rw [Nat.zero_add] at hstart hstop
  have hpre : ((xs.take (share xs.length workers k)).flatMap encodeEntry).length =
      total entrySize (xs.take (share xs.length workers k)) := (total_eq_length _).symm
  have hpart : ∀ x ∈ part (share xs.length workers) xs k, x.2.length < 2 ^ 32 := fun x hx =>
    hxs x ((part_sublist xs k).subset hx)
  have hend : total entrySize (xs.take (share xs.length workers (k + 1))) =
      total entrySize (xs.take (share xs.length workers k)) +
        total entrySize (part (share xs.length workers) xs k) := by
    rw [take_part xs hmono, total_append]
  have hsplit : logged encodeEntry mem xs =
      (xs.take (share xs.length workers k)).flatMap encodeEntry ++
        ((part (share xs.length workers) xs k).flatMap encodeEntry ++
          ((xs.drop (share xs.length workers (k + 1))).flatMap encodeEntry ++
            mem.drop (xs.flatMap encodeEntry).length)) := by
    conv_lhs => rw [logged, append_part xs hmono]
    simp only [List.flatMap_append, List.append_assoc]
    rw [← List.flatMap_append, ← List.flatMap_append, ← append_part xs hmono]
  have hfuel := total_entrySize_ge (part (share xs.length workers) xs k)
  have hrun := consumeFrom_log hpart
    ((xs.take (share xs.length workers k)).flatMap encodeEntry)
    ((xs.drop (share xs.length workers (k + 1))).flatMap encodeEntry ++
      mem.drop (xs.flatMap encodeEntry).length)
    (Nat.lt_succ_of_le hfuel) fun _ => 0
  rw [hpre, ← hsplit] at hrun
  have hzero : (Counts.after (fun _ => 0) (part (share xs.length workers) xs k)) =
      recordCounts (part (share xs.length workers) xs k) := by
    funext cls
    exact Nat.zero_add _
  unfold share at hstart hstop
  rw [runWorker, offsetAt, hstart, offsetAt, hstop]
  simp only [bind, Except.bind]
  rw [consume, ← hzero, ← share, ← share, hend, Nat.add_sub_cancel_left]
  exact hrun

theorem drainRing_log (hxs : ∀ x ∈ xs, x.2.length < 2 ^ 32) (mem : Bytes) (workers : Nat) :
    drainRing (logged encodeEntry mem xs) xs.length workers =
      .ok ((shares workers xs).map recordCounts) := by
  have hoffs : slotOffsets (logged encodeEntry mem xs) xs.length = .ok (offsets entrySize 0 xs) :=
    slotOffsetsFrom_log hxs [] _ []
  rw [drainRing, hoffs, shares, List.map_map]
  exact mapM_ok fun k hk => runWorker_log hxs mem (List.mem_range.mp hk)

/-! What a worker prints. -/

theorem sum_filter_pos (f : Nat → Nat) (ns : List Nat) :
    ((ns.filter fun n => 0 < f n).map f).sum = (ns.map f).sum := by
  induction ns with
  | nil => rfl
  | cons n ns ih =>
    rw [List.filter_cons, List.map_cons, List.sum_cons]
    by_cases hn : 0 < f n
    · rw [if_pos (by simpa using hn), List.map_cons, List.sum_cons, ih]
    · rw [if_neg (by simpa using hn), ih, Nat.eq_zero_of_not_pos hn, Nat.zero_add]

theorem sum_recordCounts (xs : List (UInt8 × Bytes)) :
    ((List.range 256).map fun c => recordCounts xs (UInt8.ofNat c)).sum = xs.length := by
  have hmap : ((List.range 256).map fun c => recordCounts xs (UInt8.ofNat c)) =
      (List.range 256).map ((xs.map fun x => x.1.toNat).count) := by
    apply List.map_congr_left
    intro c hc
    have hlt : c < 2 ^ 8 := List.mem_range.mp hc
    have hinj := SlotCounter.count_map_of_injOn UInt8.toNat (h := xs.map Prod.fst)
      (b := UInt8.ofNat c) fun x _ hx => UInt8.toNat_inj.mp hx
    rw [UInt8.toNat_ofNat_of_lt' hlt, List.map_map] at hinj
    exact hinj.symm
  have hall : ∀ n ∈ xs.map fun x => x.1.toNat, n < 256 := by
    intro n hn
    obtain ⟨x, -, rfl⟩ := List.mem_map.mp hn
    exact x.1.toNat_lt
  rw [hmap, ← List.length_map fun x => x.1.toNat]
  exact (counts_add_up 0 hall).2

/-- With generic classes alone the names cover every class, and the printed numbers add up. -/
theorem workerLine_generic (hxs : ∀ x ∈ xs, x.1.toNat < 3) :
    ∃ line, workerLine (recordCounts xs) = .ok line ∧ (line.map Prod.snd).sum = xs.length := by
  refine ⟨((List.range 256).filter fun c => 0 < recordCounts xs (UInt8.ofNat c)).map
    fun c => (workerNames.getD c "", recordCounts xs (UInt8.ofNat c)), ?_, ?_⟩
  · apply mapM_ok
    intro c hc
    obtain ⟨hrange, hpos⟩ := List.mem_filter.mp hc
    have hlt : c < 2 ^ 8 := List.mem_range.mp hrange
    obtain ⟨x, hx, hcls⟩ := List.mem_map.mp (List.count_pos_iff.mp (of_decide_eq_true hpos))
    have hthree := hxs x hx
    rw [hcls, UInt8.toNat_ofNat_of_lt' hlt] at hthree
    have hname : workerNames[c]? = some (workerNames.getD c "") := by
      have hmem : c < workerNames.length := hthree
      rw [List.getD_eq_getElem?_getD, List.getElem?_eq_getElem hmem]
      rfl
    rw [hname]
  · rw [List.map_map]
    exact (sum_filter_pos _ _).trans (sum_recordCounts xs)

end Log

/-! The packets of one class among those offered. -/

theorem offered_count (mask : Int32) {base : Nat} (hbase : base ≤ 100) {rs : List Record}
    {ks : List Nat} (hlen : ks.length = rs.length) (hks : ∀ k ∈ ks, k < 6) {i : Nat} (hi : i < 6) :
    recordCounts (offered mask base rs ks) (UInt8.ofNat (base + i)) =
      if Admits mask i then ks.count i else 0 := by
  have hclasses : (offered mask base rs ks).map Prod.fst =
      (ks.filter fun k => Admits mask k).map fun k => UInt8.ofNat (base + k) := by
    have hsnd : (rs.zip ks).map Prod.snd = ks := List.map_snd_zip hlen.le
    conv_rhs => rw [← hsnd, List.filter_map, List.map_map]
    rw [offered, List.map_map]
    rfl
  have hinj : ∀ k ∈ ks.filter fun k => Admits mask k,
      UInt8.ofNat (base + k) = UInt8.ofNat (base + i) → k = i := by
    intro k hk heq
    have hlt := hks k (List.mem_filter.mp hk).1
    have hnat := congrArg UInt8.toNat heq
    rw [UInt8.toNat_ofNat_of_lt' (by omega : base + k < 2 ^ 8),
      UInt8.toNat_ofNat_of_lt' (by omega : base + i < 2 ^ 8)] at hnat
    omega
  rw [recordCounts, hclasses, SlotCounter.count_map_of_injOn _ hinj]
  by_cases hmask : Admits mask i
  · rw [if_pos hmask, List.count_filter (by simpa using hmask)]
  · rw [if_neg hmask]
    apply List.count_eq_zero_of_not_mem
    intro hmem
    exact hmask (by simpa using (List.mem_filter.mp hmem).2)

theorem sum_recordCounts_flatten (shares : List (List (UInt8 × Bytes))) (cls : UInt8) :
    ((shares.map recordCounts).map fun counts => counts cls).sum =
      recordCounts shares.flatten cls := by
  induction shares with
  | nil => rfl
  | cons xs shares ih =>
    rw [List.map_cons, List.map_cons, List.sum_cons, ih, List.flatten_cons]
    simp only [recordCounts, List.map_append, List.count_append]

theorem tally_take_getD {m : Nat} (hm : m ≤ 6) {ks : List Nat} (hsize : ks.length < 2 ^ 64) {i : Nat}
    (hi : i < m) : (((tally ks).take m).getD i 0).toNat = ks.count i := by
  have hsix : i < 6 := hi.trans_le hm
  have hcount : ks.count i < 2 ^ 64 := List.count_le_length.trans_lt hsize
  have hget : ((tally ks).take m).getD i 0 = UInt64.ofNat (ks.count i) := by
    simp [tally, List.getD_eq_getElem?_getD, hi, hsix]
  rw [hget]
  exact UInt64.toNat_ofNat_of_lt' hcount

section Kept
variable (mask : Int32) (base : Nat) (view : WritableBuf) (rs : List Record) (ks : List Nat)

theorem kept_mem {x : UInt8 × Bytes} (hx : x ∈ kept mask base view rs ks) :
    ∃ r k, k ∈ ks ∧ x = entry base (r, k) := by
  have hsub := fits_sublist entrySize view.bytes.length 0 (offered mask base rs ks)
  obtain ⟨y, hy, rfl⟩ := List.mem_map.mp (hsub.subset hx)
  exact ⟨y.1, y.2, (List.of_mem_zip (List.mem_filter.mp hy).1).2, rfl⟩

theorem kept_small {x : UInt8 × Bytes} (hx : x ∈ kept mask base view rs ks) :
    x.2.length < 2 ^ 32 := by
  obtain ⟨r, k, -, rfl⟩ := kept_mem mask base view rs ks hx
  exact r.packet.small

/-- The buffer is too small for the count of its records to wrap. -/
theorem kept_count : (UInt64.ofNat (kept mask base view rs ks).length).toNat =
    (kept mask base view rs ks).length := by
  have hroom := kept_total_le mask base view rs ks
  have hcount := total_entrySize_ge (kept mask base view rs ks)
  have hview := view.small
  exact UInt64.toNat_ofNat_of_lt' (by omega : _ < 2 ^ 64)

variable {mask base view rs ks}

theorem kept_of_no_overflow (hlen : ks.length = rs.length) (hsize : rs.length < 2 ^ 64)
    (hover : UInt64.ofNat ((offered mask base rs ks).length - (kept mask base view rs ks).length) = 0) :
    kept mask base view rs ks = offered mask base rs ks := by
  have hle : (offered mask base rs ks).length ≤ rs.length := by
    rw [offered_length mask base hlen, ← hlen]
    exact List.countP_le_length
  have hzero := congrArg UInt64.toNat hover
  rw [UInt64.toNat_ofNat_of_lt' (by omega : _ < 2 ^ 64)] at hzero
  apply (fits_sublist entrySize view.bytes.length 0 _).eq_of_length_le
  exact Nat.le_of_sub_eq_zero hzero

end Kept

/-- The workers of a ring tally every record the producer wrote once, in ranges of nearly one
length, and when nothing overflowed their tallies add up to the producer's class counts. -/
theorem ring_workers_account (lib : Libpcap) (alloc : LoopAlloc) (pp : PcapObject) (c : Capture)
    (hpcap : pp.pcap = some c) (hbrk : c.brk = false) (args : LoopArgs) (cl : Classifier)
    (hsetup : loopSetup bufferProfileError alloc args = .ok (.ok cl)) (ks : List Nat)
    (flowtab : Option FlowTab)
    (hks : cl.classes (due args.cnt.toInt c.pending) = .ok (ks, flowtab))
    (hsmall : ∀ r ∈ c.pending, r.hdr.caplen.toNat + 5 < 2 ^ 32) (view : WritableBuf)
    (workers : Nat) (hworkers : 0 < workers) :
    let recs := due args.cnt.toInt c.pending
    ∃ (written dropped overflow used : UInt64) (cls : List UInt64) (c₁ : Capture) (buf : Bytes)
      (ranges : List (List (UInt8 × Bytes))) (tallies : List Counts),
      pLoopToBuffer lib alloc pp args view =
        .ok (.ret (written :: dropped :: overflow :: used :: cls), { pp with pcap := some c₁ }, buf) ∧
      drainRing buf written.toNat workers = .ok tallies ∧
      ranges.flatten = kept args.admitMask (profileBase cl.cfg) view recs ks ∧
      tallies = ranges.map recordCounts ∧ ranges.length = workers ∧
      (∀ s ∈ ranges, written.toNat / workers ≤ s.length ∧
        s.length ≤ written.toNat / workers + 1) ∧
      (recs.length < 2 ^ 64 → overflow = 0 → ∀ i, i < (if args.profile = 1 then 6 else 3) →
        (tallies.map fun counts => counts (UInt8.ofNat (profileBase cl.cfg + i))).sum =
          if Admits args.admitMask i then (cls.getD i 0).toNat else 0) ∧
      (args.profile ≠ 1 → ∀ s ∈ ranges, ∃ line,
        workerLine (recordCounts s) = .ok line ∧ (line.map Prod.snd).sum = s.length) := by
  intro recs
  obtain ⟨c₁, hrun⟩ := loopToBuffer_eq lib alloc pp view hpcap hbrk hsetup hks hsmall
  have hwritten : (BufferCtx.after cl args.admitMask view flowtab (due args.cnt.toInt c.pending)
      ks).written.toNat = (kept args.admitMask (profileBase cl.cfg) view recs ks).length :=
    kept_count args.admitMask (profileBase cl.cfg) view recs ks
  have hbase := loopSetup_base hsetup
  have hlen : ks.length = recs.length := classifyAll_length hks
  refine ⟨_, _, _, _, _, c₁, _, shares workers _, _, hrun, ?_, shares_flatten hworkers, rfl,
    shares_length _ _, ?_, ?_, ?_⟩
  · rw [hwritten]
    exact drainRing_log (fun x hx => kept_small _ _ _ _ _ hx) view.bytes workers
  · intro s hs
    rw [hwritten]
    exact shares_even hworkers hs
  · intro hsize hover i hi
    have hsix : i < 6 := by split at hi <;> omega
    have hsize' : ks.length < 2 ^ 64 := hlen.trans_lt hsize
    have hks6 : ∀ k ∈ ks, k < 6 := by
      intro k hk
      have hlt := classes_lt hsetup hks k hk
      split at hlt <;> omega
    have hhundred : profileBase cl.cfg ≤ 100 := by
      rw [hbase]
      split <;> omega
    rw [sum_recordCounts_flatten, shares_flatten hworkers, kept_of_no_overflow hlen hsize hover,
      offered_count _ hhundred hlen hks6 hsix, BufferCtx.after]
    by_cases hprofile : args.profile = 1
    · rw [if_pos hprofile] at hi ⊢
      rw [tally_take_getD (Nat.le_refl 6) hsize' hi]
    · rw [if_neg hprofile] at hi ⊢
      rw [tally_take_getD (by omega) hsize' hi]
  · intro hprofile s hs
    apply workerLine_generic
    intro x hx
    obtain ⟨r, k, hk, rfl⟩ := kept_mem _ _ _ _ _ (mem_of_mem_shares hs hx)
    have hlt := classes_lt hsetup hks k hk
    rw [if_neg hprofile] at hbase hlt
    rw [entry, hbase, Nat.zero_add, UInt8.toNat_ofNat_of_lt' (by omega : k < 2 ^ 8)]
    exact hlt

theorem ring_workers_account_pair :
    ∃ (written dropped overflow used : UInt64) (cls : List UInt64) (c₁ : Capture) (buf : Bytes)
      (tallies : List Counts),
      pLoopToBuffer .offline {} ⟨some ⟨[udpRecord, udpRecord], .eof, false⟩, [], 0⟩ { cnt := -1 }
          ⟨List.replicate 100 0, by decide⟩ =
        .ok (.ret (written :: dropped :: overflow :: used :: cls), ⟨some c₁, [], 0⟩, buf) ∧
      drainRing buf written.toNat 4 = .ok tallies ∧ tallies.length = 4 := by
  obtain ⟨written, dropped, overflow, used, cls, c₁, buf, ranges, tallies, hrun, hdrain, -, htallies,
    hranges, -⟩ := ring_workers_account .offline {}
      ⟨some ⟨[udpRecord, udpRecord], .eof, false⟩, [], 0⟩ _ rfl rfl { cnt := -1 } _ rfl [0, 0] _ rfl
      (by decide) ⟨List.replicate 100 0, by decide⟩ 4 (by decide)
  refine ⟨written, dropped, overflow, used, cls, c₁, buf, tallies, hrun, hdrain, ?_⟩
  rw [htallies, List.length_map, hranges]

end PcapyNg
