import PcapyNg.BatchedReading

/-!
# The layout of a batch

Two arrays grow inside the callback, each in its own way, and the offset of a packet is cut
to 32 bits. The bytes always have room. The capacity for records is doubled in 32 bits, so
that it shrinks behind the last double of `max_n`; and from 4 GiB on a packet is not where
its record says.
-/

namespace PcapyNg
open ReadLoop Batching
set_option autoImplicit false

/-- `p_next_batch` behind `pcap_dispatch`, which left the result `ret` and the context `b`. -/
def batchReturn (alloc : BatchAlloc) (ret : Int) (err : String) (b : BatchCtx) :
    PyOutcome (Bytes × Bytes) :=
  if ret < 0 ∧ ret ≠ -2 then .raise (.pcapError err)
  else if ¬ alloc.pyBytes then .raise .memoryError
  else .ret (b.buf, packMeta b.metas)

theorem pNextBatch_batchReturn (lib : Libpcap) {alloc : BatchAlloc} (hmalloc : alloc.mallocs = true)
    {pp : PcapObject} {c : Capture} (hpcap : pp.pcap = some c) (maxN : Int32) (tries : Nat) :
    let run := lib.dispatch (batchCallBack alloc.reallocs) (clampMaxN maxN).toInt c
      (.start (clampMaxN maxN) tries)
    (pNextBatch lib alloc pp maxN tries).1 =
      batchReturn alloc run.1 (lib.geterr run.2.1) run.2.2 := by
  intro run
  rw [pNextBatch, hpcap, batchReturn]
  simp only [hmalloc, not_true_eq_false, if_false]
  split
  · rfl
  · split <;> rfl

/-! The records. -/

theorem metasFrom_append (used : Nat) (xs ys : List Record) :
    metasFrom used (xs ++ ys) =
      metasFrom used xs ++ metasFrom (used + (xs.flatMap Record.data).length) ys := by
  induction xs generalizing used with
  | nil => rfl
  | cons x xs ih =>
    rw [List.cons_append, metasFrom, metasFrom, ih, List.flatMap_cons, List.length_append,
      Nat.add_assoc, List.cons_append]

theorem metasFrom_at {rs pre post : List Record} {r : Record} (used : Nat)
    (h : rs = pre ++ r :: post) :
    (metasFrom used rs)[pre.length]? =
      some (r.batchMeta (used + (pre.flatMap Record.data).length)) := by
  rw [h, metasFrom_append, List.getElem?_append_right (Nat.le_of_eq (metasFrom_length used pre)),
    metasFrom_length, Nat.sub_self]
  rfl

theorem batchMeta_off {used : Nat} (h : used < 2 ^ 32) (r : Record) :
    (r.batchMeta used).off.toNat = used := by
  rw [Record.batchMeta, UInt32.toNat_ofNat', Nat.mod_eq_of_lt h]

theorem drop_take_middle (xs ys zs : Bytes) :
    ((xs ++ (ys ++ zs)).drop xs.length).take ys.length = ys := by
  rw [List.drop_left' rfl, List.take_left' rfl]

/-! Growth. -/

/-- The capacity of an array with room for `room` that is to hold `need`, none if `realloc` fails,
and the calls of `realloc`. -/
def grownCap {α : Type} (reallocs : Nat → Bool) (room need : Nat) (cap new : α) (tries : Nat) :
    Option α × Nat :=
  if room < need then (if reallocs tries then some new else none, tries + 1) else (some cap, tries)

/-- `nm = b->mcap * 2; if (nm == 0) nm = 256;` -/
def moreRecords (mcap : UInt32) : UInt32 := if mcap * 2 = 0 then 256 else mcap * 2

section Growth
variable (reallocs : Nat → Bool)

theorem growBuf_cases (b : BatchCtx) (cl : UInt32) :
    ∃ newCap tries, grownCap reallocs b.cap (b.used + cl.toNat) b.cap
        (max (b.cap * 2) (b.used + cl.toNat + 4096)) b.tries = (newCap, tries) ∧
      b.growBuf reallocs cl = ({ b with cap := newCap.getD b.cap, tries }, newCap.isSome) := by
  by_cases hfull : b.cap < b.used + cl.toNat
  · rw [grownCap, if_pos hfull]
    by_cases hmem : reallocs b.tries = true
    · rw [growBuf_grows hfull hmem, if_pos hmem]
      exact ⟨_, _, rfl, rfl⟩
    · rw [BatchCtx.growBuf, if_pos hfull, if_neg hmem, if_neg hmem]
      exact ⟨_, _, rfl, rfl⟩
  · rw [BatchCtx.growBuf, grownCap, if_neg hfull, if_neg hfull]
    exact ⟨_, _, rfl, rfl⟩

theorem growMeta_cases (b : BatchCtx) (cap tries : Nat) :
    ∃ newMcap tries', grownCap reallocs b.mcap.toNat (b.n + 1) b.mcap (moreRecords b.mcap) tries =
        (newMcap, tries') ∧
      { b with cap, tries }.growMeta reallocs =
        ({ b with cap, mcap := newMcap.getD b.mcap, tries := tries' }, newMcap.isSome) := by
  have hmeta : { b with cap, tries }.growMeta reallocs =
      if b.mcap.toNat ≤ b.n then
        if reallocs tries then
          ({ b with cap, mcap := moreRecords b.mcap, tries := tries + 1 }, true)
        else ({ b with cap, tries := tries + 1 }, false)
      else ({ b with cap, tries }, true) := rfl
  by_cases hfull : b.mcap.toNat ≤ b.n
  · rw [hmeta, grownCap, if_pos hfull, if_pos (Nat.lt_succ_of_le hfull)]
    by_cases hmem : reallocs tries = true
    · rw [if_pos hmem, if_pos hmem]
      exact ⟨_, _, rfl, rfl⟩
    · rw [if_neg hmem, if_neg hmem]
      exact ⟨_, _, rfl, rfl⟩
  · rw [hmeta, grownCap, if_neg hfull, if_neg (fun h => hfull (Nat.le_of_lt_succ h))]
    exact ⟨_, _, rfl, rfl⟩

end Growth

/-- No `realloc` fails. -/
def always : Nat → Bool := fun _ => true

theorem grownCap_always {α : Type} (room need : Nat) (cap new : α) (tries : Nat) :
    grownCap always room need cap new tries =
      (some (if room < need then new else cap), if room < need then tries + 1 else tries) := by
  rw [grownCap]
  split <;> rfl

/-- The arrays as `BatchCallBack` has them when it comes to write. -/
def BatchCtx.atWrite (b : BatchCtx) (cl : UInt32) : BatchCtx :=
  ((b.growBuf always cl).1.growMeta always).1

section AtWrite
variable (b : BatchCtx) (cl : UInt32)

theorem growBuf_always :
    ∃ cap tries, b.growBuf always cl = ({ b with cap, tries }, true) ∧ b.used + cl.toNat ≤ cap := by
  obtain ⟨newCap, tries, hcap, hbuf⟩ := growBuf_cases always b cl
  rw [grownCap_always] at hcap
  cases hcap
  refine ⟨_, _, hbuf, ?_⟩
  rw [Option.getD_some]
  split <;> omega

theorem growMeta_always (cap tries : Nat) :
    ∃ tries', { b with cap, tries }.growMeta always =
      ({ b with
          cap, mcap := if b.mcap.toNat ≤ b.n then moreRecords b.mcap else b.mcap,
          tries := tries' }, true) := by
  obtain ⟨newMcap, tries', hmcap, hmeta⟩ := growMeta_cases always b cap tries
  rw [grownCap_always] at hmcap
  cases hmcap
  rw [hmeta, Option.getD_some, Option.isSome_some]
  simp only [Nat.lt_succ_iff]
  exact ⟨_, rfl⟩

theorem batchCallBack_always (r : Record) :
    batchCallBack always b r = ((b.atWrite r.hdr.caplen).store r, false) := by
  obtain ⟨cap, tries, hbuf, -⟩ := growBuf_always b r.hdr.caplen
  obtain ⟨tries', hmeta⟩ := growMeta_always b cap tries
  simp only [batchCallBack, BatchCtx.atWrite, hbuf, hmeta]

/-- The bytes have room, whatever the packet; the records have the capacity they had, or its
double in 32 bits. -/
theorem atWrite_eq :
    ∃ cap tries, b.used + cl.toNat ≤ cap ∧ b.atWrite cl =
      { b with
          cap, mcap := if b.mcap.toNat ≤ b.n then moreRecords b.mcap else b.mcap, tries } := by
  obtain ⟨cap, tries, hbuf, hcap⟩ := growBuf_always b cl
  obtain ⟨tries', hmeta⟩ := growMeta_always b cap tries
  refine ⟨cap, tries', hcap, ?_⟩
  rw [BatchCtx.atWrite, hbuf, hmeta]

@[simp] theorem atWrite_used : (b.atWrite cl).used = b.used := by
  obtain ⟨cap, tries, -, heq⟩ := atWrite_eq b cl
  rw [heq]
  rfl

@[simp] theorem atWrite_n : (b.atWrite cl).n = b.n := by
  obtain ⟨cap, tries, -, heq⟩ := atWrite_eq b cl
  rw [heq]
  rfl

theorem atWrite_room : (b.atWrite cl).used + cl.toNat ≤ (b.atWrite cl).cap := by
  obtain ⟨cap, tries, hcap, heq⟩ := atWrite_eq b cl
  rw [heq]
  exact hcap

theorem atWrite_mcap :
    (b.atWrite cl).mcap = if b.mcap.toNat ≤ b.n then moreRecords b.mcap else b.mcap := by
  obtain ⟨cap, tries, -, heq⟩ := atWrite_eq b cl
  rw [heq]

theorem atWrite_store (r : Record) :
    ((b.atWrite cl).store r).buf = b.buf ++ r.data ∧
      ((b.atWrite cl).store r).metas = b.metas ++ [r.batchMeta b.used] := by
  obtain ⟨cap, tries, -, heq⟩ := atWrite_eq b cl
  rw [heq]
  exact ⟨rfl, rfl⟩

end AtWrite

/-! The two arrays, packet by packet. -/

/-- The context behind the packets `rs`: their bytes and records, with a capacity for records
that comes from `max_n` by doubling. -/
structure BatchCtx.Holds (maxN : Int32) (rs : List Record) (b : BatchCtx) : Prop where
  bytes : b.buf = rs.flatMap Record.data
  records : b.metas = metasFrom 0 rs
  doubled : ∃ k, b.mcap.toNat = batchSize maxN * 2 ^ k
  within : b.n ≤ b.mcap.toNat

/-- The last capacity for records that 32 bits hold. -/
def recordLimit (maxN : Int32) : Nat := lastDoubled 32 (batchSize maxN)

section Holds
variable {maxN : Int32} {rs : List Record} {b : BatchCtx}

theorem batchSize_lt (maxN : Int32) : batchSize maxN < 2 ^ 32 := by
  have h := (clampMaxN_toInt maxN).1
  have hlt := (clampMaxN maxN).toInt_lt
  omega

theorem BatchCtx.Holds.n_eq (h : b.Holds maxN rs) : b.n = rs.length := by
  rw [BatchCtx.n, h.records, metasFrom_length]

theorem BatchCtx.Holds.mcap_le (h : b.Holds maxN rs) : b.mcap.toNat ≤ recordLimit maxN := by
  rcases h.doubled with ⟨k, hk⟩
  have hlt := b.mcap.toNat_lt
  rw [hk] at hlt ⊢
  exact pow_le_lastDoubled (clampMaxN_toInt maxN).2 hlt

theorem BatchCtx.Holds.start (maxN : Int32) (tries : Nat) :
    (BatchCtx.start (clampMaxN maxN) tries).Holds maxN [] where
  bytes := rfl
  records := rfl
  doubled := by
    refine ⟨0, ?_⟩
    have hle : 0 ≤ clampMaxN maxN := by
      rw [Int32.le_iff_toInt_le, (clampMaxN_toInt maxN).1, Int32.toInt_zero]
      omega
    rw [BatchCtx.start, Int32.toNat_toUInt32_of_le hle, Nat.pow_zero, Nat.mul_one]
    rfl
  within := Nat.zero_le _

/-- The records have room as long as there are fewer than `recordLimit`. -/
theorem BatchCtx.Holds.grows (h : b.Holds maxN rs) (hfew : rs.length < recordLimit maxN)
    (cl : UInt32) :
    (∃ k, (b.atWrite cl).mcap.toNat = batchSize maxN * 2 ^ k) ∧ b.n < (b.atWrite cl).mcap.toNat := by
  have hn := h.n_eq
  rw [atWrite_mcap]
  by_cases hfull : b.mcap.toNat ≤ b.n
  · rcases h.doubled with ⟨k, hk⟩
    have heq : batchSize maxN * 2 ^ k = rs.length := by
      have hwithin := h.within
      omega
    have hle := double_le_lastDoubled (w := 32) (by rwa [heq])
    have hlt := (lastDoubled_bounds (clampMaxN_toInt maxN).2 (batchSize_lt maxN)).2
    have hpos : 0 < batchSize maxN * 2 ^ k :=
      Nat.mul_pos (clampMaxN_toInt maxN).2 (Nat.two_pow_pos k)
    rw [Nat.pow_succ, ← Nat.mul_assoc] at hle
    have hmul : (b.mcap * 2).toNat = batchSize maxN * 2 ^ k * 2 := by
      rw [UInt32.toNat_mul, hk]
      exact Nat.mod_eq_of_lt (Nat.lt_of_le_of_lt hle hlt)
    have hne : b.mcap * 2 ≠ 0 := by
      intro hzero
      rw [hzero, UInt32.toNat_zero] at hmul
      omega
    rw [if_pos hfull, moreRecords, if_neg hne, hmul]
    exact ⟨⟨k + 1, by rw [Nat.pow_succ, Nat.mul_assoc]⟩, by omega⟩
  · rw [if_neg hfull]
    exact ⟨h.doubled, by omega⟩

theorem BatchCtx.Holds.step (h : b.Holds maxN rs) (hfew : rs.length < recordLimit maxN)
    (r : Record) : (batchCallBack always b r).1.Holds maxN (rs ++ [r]) := by
  obtain ⟨hdoubled, hn⟩ := h.grows hfew r.hdr.caplen
  rw [batchCallBack_always]
  refine ⟨?_, ?_, hdoubled, ?_⟩
  · rw [(atWrite_store b _ r).1, h.bytes, List.flatMap_append, List.flatMap_singleton]
  · rw [(atWrite_store b _ r).2, h.records, metasFrom_append, BatchCtx.used, h.bytes, Nat.zero_add]
    rfl
  · rw [BatchCtx.store_n, BatchCtx.store_mcap, atWrite_n]
    exact hn

/-- Behind `recordLimit` packets the doubled capacity wraps to less. -/
theorem BatchCtx.Holds.overruns (h : b.Holds maxN rs) (hfull : rs.length = recordLimit maxN)
    (cl : UInt32) : (b.atWrite cl).mcap.toNat ≤ b.n := by
  have hn := h.n_eq
  have hle := h.mcap_le
  have hwithin := h.within
  have hbounds := lastDoubled_bounds (w := 32) (clampMaxN_toInt maxN).2 (batchSize_lt maxN)
  change 2 ^ 32 ≤ 2 * recordLimit maxN ∧ recordLimit maxN < 2 ^ 32 at hbounds
  rw [atWrite_mcap, if_pos (by omega), moreRecords]
  split
  · change 256 ≤ b.n
    omega
  · rw [UInt32.toNat_mul]
    change b.mcap.toNat * 2 % 2 ^ 32 ≤ b.n
    omega

end Holds

/-- The context when `pcap_dispatch` has delivered the packets `rs`. -/
def batchFed (maxN : Int32) (tries : Nat) (rs : List Record) : BatchCtx :=
  feed (batchCallBack always) (.start (clampMaxN maxN) tries) rs

theorem batchFed_holds {maxN : Int32} {rs : List Record} (tries : Nat)
    (hfew : rs.length ≤ recordLimit maxN) : (batchFed maxN tries rs).Holds maxN rs := by
  induction rs using List.reverseRecOn with
  | nil => exact .start maxN tries
  | append_singleton rs r ih =>
    rw [List.length_append, List.length_singleton] at hfew
    have hrs := ih (by omega)
    rw [batchFed, feed_append]
    exact hrs.step (by omega) r

/-! What the caller gets. -/

/-- The record of a packet that stands behind the packets `pre`, and the slice it gives. -/
structure Describes (pkts : Bytes) (pre : List Record) (r : Record) (m : BatchMeta) : Prop where
  sec : m.sec = UInt32.ofInt r.hdr.sec
  usec : m.usec = UInt32.ofInt r.hdr.usec
  len : m.len = r.hdr.caplen
  off : m.off.toNat = (pre.flatMap Record.data).length
  slice : (pkts.drop m.off.toNat).take m.len.toNat = r.data

/-- `packet_bytes` and `packed_meta` of the packets `rs`. -/
structure Packed (rs : List Record) (pkts packed : Bytes) : Prop where
  bytes : pkts = rs.flatMap Record.data
  length : packed.length = 16 * rs.length
  records : ∃ ms, unpackMeta packed = some ms ∧ ms.length = rs.length ∧
    ∀ pre r post, rs = pre ++ r :: post → ∃ m, ms[pre.length]? = some m ∧ Describes pkts pre r m

/-- At every write both arrays have room. -/
def WritesWithin (maxN : Int32) (tries : Nat) (rs : List Record) : Prop :=
  ∀ pre r post, rs = pre ++ r :: post →
    let b := (batchFed maxN tries pre).atWrite r.hdr.caplen
    b.used + r.hdr.caplen.toNat ≤ b.cap ∧ b.n < b.mcap.toNat

theorem writesWithin_iff (maxN : Int32) (tries : Nat) (rs : List Record) :
    WritesWithin maxN tries rs ↔ rs.length ≤ recordLimit maxN := by
  constructor
  · intro h
    by_contra hmany
    obtain ⟨r, post, hsplit⟩ : ∃ r post, rs = rs.take (recordLimit maxN) ++ r :: post := by
      refine ⟨rs[recordLimit maxN], rs.drop (recordLimit maxN + 1), ?_⟩
      rw [← List.drop_eq_getElem_cons (by omega), List.take_append_drop]
    have hlen : (rs.take (recordLimit maxN)).length = recordLimit maxN := by
      rw [List.length_take]
      omega
    have hwrite := (h _ r post hsplit).2
    have hover := (batchFed_holds tries (Nat.le_of_eq hlen)).overruns hlen r.hdr.caplen
    rw [atWrite_n] at hwrite
    omega
  · intro hfew pre r post hsplit
    have hpre : pre.length < recordLimit maxN := by
      rw [hsplit, List.length_append, List.length_cons] at hfew
      omega
    have hholds := batchFed_holds tries (Nat.le_of_lt hpre)
    refine ⟨atWrite_room _ _, ?_⟩
    rw [atWrite_n]
    exact (hholds.grows hpre r.hdr.caplen).2

theorem describes_metasFrom {rs pre post : List Record} {r : Record} (hsplit : rs = pre ++ r :: post)
    (hsmall : (rs.flatMap Record.data).length < 2 ^ 32) :
    Describes (rs.flatMap Record.data) pre r (r.batchMeta (pre.flatMap Record.data).length) := by
  have hflat : rs.flatMap Record.data =
      pre.flatMap Record.data ++ (r.data ++ post.flatMap Record.data) := by
    rw [hsplit, List.flatMap_append, List.flatMap_cons]
  have hoff : (r.batchMeta (pre.flatMap Record.data).length).off.toNat =
      (pre.flatMap Record.data).length := by
    apply batchMeta_off
    rw [hflat, List.length_append] at hsmall
    omega
  refine ⟨rfl, rfl, rfl, hoff, ?_⟩
  rw [hoff, hflat]
  change _ = r.data
  rw [show (r.batchMeta (pre.flatMap Record.data).length).len.toNat = r.data.length from
    r.captured.symm]
  exact drop_take_middle _ _ _

theorem packed_metasFrom {rs : List Record} (hsmall : (rs.flatMap Record.data).length < 2 ^ 32) :
    Packed rs (rs.flatMap Record.data) (packMeta (metasFrom 0 rs)) where
  bytes := rfl
  length := by rw [packMeta_length, metasFrom_length]
  records := by
    refine ⟨_, unpackMeta_packMeta _, metasFrom_length 0 rs, ?_⟩
    intro pre r post hsplit
    have hat := metasFrom_at 0 hsplit
    rw [Nat.zero_add] at hat
    exact ⟨_, hat, describes_metasFrom hsplit hsmall⟩

/-- The call returns a batch that slices back into `rs`, and no write left its array. -/
def PacksBatch (maxN : Int32) (tries : Nat) (rs : List Record) (out : PyOutcome (Bytes × Bytes)) :
    Prop :=
  ∃ pkts packed, out = .ret (pkts, packed) ∧ Packed rs pkts packed ∧ WritesWithin maxN tries rs

/-- Below 4 GiB a batch is packed right unless the doubled capacity for records wraps. -/
theorem next_batch_packs_iff (maxN : Int32) (tries : Nat) (rs : List Record)
    (hsum : (rs.map fun r => r.hdr.caplen.toNat).sum < 2 ^ 32) (ret : Int)
    (hret : 0 ≤ ret ∨ ret = -2) (err : String) :
    PacksBatch maxN tries rs
        (batchReturn { reallocs := always } ret err (batchFed maxN tries rs)) ↔
      rs.length ≤ recordLimit maxN := by
  rw [← writesWithin_iff maxN tries]
  constructor
  · intro h
    obtain ⟨-, -, -, -, hwithin⟩ := h
    exact hwithin
  · intro hwithin
    have hholds := batchFed_holds tries ((writesWithin_iff maxN tries rs).mp hwithin)
    have hsmall : (rs.flatMap Record.data).length < 2 ^ 32 := by
      rw [List.length_flatMap]
      simpa only [Record.captured] using hsum
    refine ⟨_, _, ?_, packed_metasFrom hsmall, hwithin⟩
    rw [batchReturn, if_neg (by omega), hholds.bytes, hholds.records]
    rfl

theorem next_batch_packs_iff_three :
    PacksBatch 2 0 [udpRecord, udpRecord, udpRecord]
      (batchReturn { reallocs := always } 3 "" (batchFed 2 0 [udpRecord, udpRecord, udpRecord])) :=
  (next_batch_packs_iff 2 0 [udpRecord, udpRecord, udpRecord] (by decide) 3 (by decide) "").mpr
    (by decide)

def oneByteRecord : Record where
  hdr := ⟨1, 0, 1, 1⟩
  data := [0]
  captured := rfl

/-- With `max_n = 1` the capacity runs through the powers of two; behind 2^31 packets of one
byte it wraps to 0, is taken as 256, and the next record is written beyond it. -/
theorem next_batch_overruns_records :
    ((List.replicate (2 ^ 31 + 1) oneByteRecord).map fun r => r.hdr.caplen.toNat).sum < 2 ^ 32 ∧
      ¬ PacksBatch 1 0 (List.replicate (2 ^ 31 + 1) oneByteRecord)
        (batchReturn { reallocs := always } (2 ^ 31 + 1) ""
          (batchFed 1 0 (List.replicate (2 ^ 31 + 1) oneByteRecord))) := by
  constructor
  · rw [List.map_replicate, List.sum_replicate]
    decide
  · intro h
    obtain ⟨-, -, -, -, hwithin⟩ := h
    have hfew := (writesWithin_iff _ _ _).mp hwithin
    rw [List.length_replicate] at hfew
    exact absurd hfew (by decide)

/-! One call, any `realloc` failing: the packets it keeps, and where their records say they are. -/

/-- The numbers in a `BatchCtx`. -/
structure BatchSizes where
  cap : Nat
  used : Nat
  mcap : UInt32
  n : Nat
  tries : Nat

def BatchCtx.sizes (b : BatchCtx) : BatchSizes := ⟨b.cap, b.used, b.mcap, b.n, b.tries⟩

/-- The numbers behind a packet of `len` bytes, and whether it is kept. -/
def BatchSizes.next (reallocs : Nat → Bool) (s : BatchSizes) (len : Nat) : BatchSizes × Bool :=
  match grownCap reallocs s.cap (s.used + len) s.cap (max (s.cap * 2) (s.used + len + 4096))
      s.tries with
  | (none, tries) => ({ s with tries }, false)
  | (some cap, tries) =>
    match grownCap reallocs s.mcap.toNat (s.n + 1) s.mcap (moreRecords s.mcap) tries with
    | (none, tries) => ({ s with cap, tries }, false)
    | (some mcap, tries) => (⟨cap, s.used + len, mcap, s.n + 1, tries⟩, true)

/-- The packets kept of those delivered. -/
def keptFrom (reallocs : Nat → Bool) : BatchSizes → List Record → List Record
  | _, [] => []
  | s, r :: rs =>
    match s.next reallocs r.data.length with
    | (s, true) => r :: keptFrom reallocs s rs
    | (s, false) => keptFrom reallocs s rs

section Kept
variable (reallocs : Nat → Bool)

/-- One packet is kept, or leaves no trace in the arrays. -/
theorem batchCallBack_next (b : BatchCtx) (r : Record) :
    ∃ b' kept, b.sizes.next reallocs r.data.length = (b'.sizes, kept) ∧
      batchCallBack reallocs b r = (b', false) ∧
      b'.buf = b.buf ++ (if kept then r.data else []) ∧
      b'.metas = b.metas ++ (if kept then [r.batchMeta b.used] else []) := by
  obtain ⟨newCap, tries, hcap, hbuf⟩ := growBuf_cases reallocs b r.hdr.caplen
  rw [r.captured]
  cases newCap with
  | none =>
    refine ⟨{ b with tries }, false, ?_, ?_, (List.append_nil _).symm, (List.append_nil _).symm⟩
    · simp only [BatchSizes.next, BatchCtx.sizes, hcap]
      rfl
    · simp only [batchCallBack, hbuf]
      rfl
  | some cap =>
    obtain ⟨newMcap, tries', hmcap, hmeta⟩ := growMeta_cases reallocs b cap tries
    cases newMcap with
    | none =>
      refine ⟨{ b with cap, tries := tries' }, false, ?_, ?_, (List.append_nil _).symm,
        (List.append_nil _).symm⟩
      · simp only [BatchSizes.next, BatchCtx.sizes, hcap, hmcap]
        rfl
      · simp only [batchCallBack, hbuf, Option.getD_some, Option.isSome_some, hmeta]
        rfl
    | some mcap =>
      refine ⟨BatchCtx.store { b with cap, mcap, tries := tries' } r, true, ?_, ?_, rfl, rfl⟩
      · simp only [BatchSizes.next, BatchCtx.sizes, hcap, hmcap, BatchCtx.store_used,
          BatchCtx.store_n, BatchCtx.store_cap, BatchCtx.store_mcap, BatchCtx.store_tries, r.captured]
        rfl
      · simp only [batchCallBack, hbuf, Option.getD_some, Option.isSome_some, hmeta]

theorem batch_keeps (b : BatchCtx) (rs : List Record) :
    (feed (batchCallBack reallocs) b rs).buf =
        b.buf ++ (keptFrom reallocs b.sizes rs).flatMap Record.data ∧
      (feed (batchCallBack reallocs) b rs).metas =
        b.metas ++ metasFrom b.used (keptFrom reallocs b.sizes rs) := by
  induction rs generalizing b with
  | nil => exact ⟨(List.append_nil _).symm, (List.append_nil _).symm⟩
  | cons r rs ih =>
    obtain ⟨b', kept, hnext, hcall, hbuf, hmetas⟩ := batchCallBack_next reallocs b r
    obtain ⟨ihbuf, ihmetas⟩ := ih b'
    rw [feed, hcall, ihbuf, ihmetas, keptFrom, hnext, BatchCtx.used, hbuf, hmetas]
    cases kept with
    | true =>
      simp only [if_true, List.flatMap_cons, metasFrom, List.append_assoc, List.length_append,
        List.cons_append, List.nil_append, BatchCtx.used, and_self]
    | false => simp [BatchCtx.used]

end Kept

/-- The context when `pcap_dispatch` has delivered the packets `rs`. -/
def batchLeft (reallocs : Nat → Bool) (maxN : Int32) (tries : Nat) (rs : List Record) : BatchCtx :=
  feed (batchCallBack reallocs) (.start (clampMaxN maxN) tries) rs

/-- The packets that a call with `maxN` keeps of the packets `rs` delivered to it. -/
def keptOf (reallocs : Nat → Bool) (maxN : Int32) (tries : Nat) (rs : List Record) : List Record :=
  keptFrom reallocs ⟨65536, 0, (clampMaxN maxN).toUInt32, 0, tries⟩ rs

theorem batchLeft_kept (reallocs : Nat → Bool) (maxN : Int32) (tries : Nat) (rs : List Record) :
    (batchLeft reallocs maxN tries rs).buf = (keptOf reallocs maxN tries rs).flatMap Record.data ∧
      (batchLeft reallocs maxN tries rs).metas = metasFrom 0 (keptOf reallocs maxN tries rs) :=
  batch_keeps reallocs _ rs

/-- Every record of the context `b` has the position of its packet, and no two records of
packets with bytes have the same. -/
structure OffsetsTrue (rs : List Record) (b : BatchCtx) : Prop where
  bytes : b.buf = rs.flatMap Record.data
  positions : ∀ pre r post, rs = pre ++ r :: post →
    b.metas[pre.length]?.map (fun m => m.off.toNat) = some (pre.flatMap Record.data).length
  apart : ∀ pre r mid r' post, rs = (pre ++ r :: mid) ++ r' :: post → r.data ≠ [] → r'.data ≠ [] →
    b.metas[pre.length]?.map BatchMeta.off ≠ b.metas[(pre ++ r :: mid).length]?.map BatchMeta.off

/-- Where the last of the packets `rs` starts. -/
def lastStart (rs : List Record) : Nat := (rs.dropLast.flatMap Record.data).length

theorem start_le_lastStart {rs pre post : List Record} {r : Record} (h : rs = pre ++ r :: post) :
    (pre.flatMap Record.data).length ≤ lastStart rs := by
  have hlast : rs.dropLast = pre ++ (r :: post).dropLast := by
    rw [h, List.dropLast_append_of_ne_nil (List.cons_ne_nil r post)]
  rw [lastStart, hlast, List.flatMap_append, List.length_append]
  omega

section Offsets
variable {rs : List Record} {b : BatchCtx}

theorem OffsetsTrue.lastStart_lt (h : OffsetsTrue rs b) (hmetas : b.metas = metasFrom 0 rs) :
    lastStart rs < 2 ^ 32 := by
  rcases List.eq_nil_or_concat rs with rfl | ⟨pre, r, rfl⟩
  · decide
  · rw [List.concat_eq_append] at h hmetas ⊢
    have hpos := h.positions pre r [] rfl
    rw [hmetas, metasFrom_at 0 rfl, Option.map_some, Option.some_inj, Record.batchMeta] at hpos
    rw [lastStart, List.dropLast_concat, ← hpos]
    exact UInt32.toNat_lt _

theorem offsetsTrue_of_lt (hbuf : b.buf = rs.flatMap Record.data) (hmetas : b.metas = metasFrom 0 rs)
    (hlast : lastStart rs < 2 ^ 32) : OffsetsTrue rs b := by
  have hat : ∀ pre r post, rs = pre ++ r :: post → ∃ m, b.metas[pre.length]? = some m ∧
      m.off.toNat = (pre.flatMap Record.data).length := by
    intro pre r post hsplit
    have hat := metasFrom_at 0 hsplit
    rw [Nat.zero_add, ← hmetas] at hat
    exact ⟨_, hat, batchMeta_off (Nat.lt_of_le_of_lt (start_le_lastStart hsplit) hlast) r⟩
  refine ⟨hbuf, ?_, ?_⟩
  · intro pre r post hsplit
    obtain ⟨m, hm, hoff⟩ := hat pre r post hsplit
    rw [hm, Option.map_some, hoff]
  · intro pre r mid r' post hsplit hr _ heq
    obtain ⟨m, hm, hoff⟩ := hat pre r (mid ++ r' :: post) (by simpa using hsplit)
    obtain ⟨m', hm', hoff'⟩ := hat (pre ++ r :: mid) r' post hsplit
    rw [hm, hm', Option.map_some, Option.map_some, Option.some_inj] at heq
    rw [← heq, hoff, List.flatMap_append, List.length_append, List.flatMap_cons,
      List.length_append] at hoff'
    have hlen := List.length_pos_iff.mpr hr
    omega

end Offsets

/-- The offsets are true exactly if the last packet kept starts below 4 GiB. -/
theorem next_batch_offsets_iff (reallocs : Nat → Bool) (maxN : Int32) (tries : Nat)
    (rs : List Record) :
    OffsetsTrue (keptOf reallocs maxN tries rs) (batchLeft reallocs maxN tries rs) ↔
      lastStart (keptOf reallocs maxN tries rs) < 2 ^ 32 := by
  obtain ⟨hbuf, hmetas⟩ := batchLeft_kept reallocs maxN tries rs
  constructor
  · intro h
    exact h.lastStart_lt hmetas
  · intro hlast
    exact offsetsTrue_of_lt hbuf hmetas hlast

theorem keptFrom_always (s : BatchSizes) (rs : List Record) : keptFrom always s rs = rs := by
  induction rs generalizing s with
  | nil => rfl
  | cons r rs ih => simp only [keptFrom, BatchSizes.next, grownCap_always, ih]

def zeroRecord (caplen : UInt32) : Record where
  hdr := ⟨1, 0, caplen, caplen⟩
  data := List.replicate caplen.toNat 0
  captured := List.length_replicate

theorem replicate_bytes (n : Nat) (r : Record) :
    ((List.replicate n r).flatMap Record.data).length = n * r.hdr.caplen.toNat := by
  rw [List.length_flatMap, List.map_replicate, List.sum_replicate, r.captured]
  rfl

theorem keptOf_always (maxN : Int32) (tries : Nat) (rs : List Record) :
    keptOf always maxN tries rs = rs :=
  keptFrom_always _ rs

theorem batchLeft_metas (maxN : Int32) (tries : Nat) (rs : List Record) :
    (batchLeft always maxN tries rs).metas = metasFrom 0 rs := by
  rw [(batchLeft_kept always maxN tries rs).2, keptOf_always]

/-- Among packets of one length the offset of the `i`-th is `i` times that, in 32 bits. -/
theorem replicate_off {n : Nat} (r : Record) {i : Nat} (hi : i < n) :
    (metasFrom 0 (List.replicate n r))[i]?.map BatchMeta.off =
      some (UInt32.ofNat (i * r.hdr.caplen.toNat)) := by
  obtain ⟨k, rfl⟩ : ∃ k, n = i + (k + 1) := ⟨n - i - 1, by omega⟩
  have hat := metasFrom_at 0 (List.replicate_add i (k + 1) r)
  rw [List.length_replicate, Nat.zero_add, replicate_bytes] at hat
  rw [hat]
  rfl

theorem not_offsetsTrue_replicate (maxN : Int32) {n : Nat} {r : Record}
    (hlarge : 2 ^ 32 ≤ (n - 1) * r.hdr.caplen.toNat) :
    ¬ OffsetsTrue (keptOf always maxN 0 (List.replicate n r))
      (batchLeft always maxN 0 (List.replicate n r)) := by
  intro h
  rw [keptOf_always] at h
  have hlt := h.lastStart_lt (batchLeft_metas maxN 0 _)
  rw [lastStart, List.dropLast_replicate, replicate_bytes] at hlt
  omega

/-- The 16385th packet of libpcap's largest length starts at 2^32, and its record says 0, like
that of the first. -/
theorem next_batch_offset_wraps :
    (∀ r ∈ List.replicate 16385 (zeroRecord 262144), r.hdr.caplen.toNat ≤ 262144) ∧
      (∀ i, i = 0 ∨ i = 16384 →
        (batchLeft always 16385 0 (List.replicate 16385 (zeroRecord 262144))).metas[i]?.map
          BatchMeta.off = some 0) ∧
      ¬ OffsetsTrue (keptOf always 16385 0 (List.replicate 16385 (zeroRecord 262144)))
        (batchLeft always 16385 0 (List.replicate 16385 (zeroRecord 262144))) := by
  refine ⟨?_, ?_, ?_⟩
  · intro r hr
    rw [List.eq_of_mem_replicate hr]
    exact (by decide : (262144 : UInt32).toNat ≤ 262144)
  · intro i hi
    rw [batchLeft_metas, replicate_off _ (by omega)]
    rcases hi with rfl | rfl
    · exact (by decide : some (UInt32.ofNat (0 * (262144 : UInt32).toNat)) = some 0)
    · exact (by decide : some (UInt32.ofNat (16384 * (262144 : UInt32).toNat)) = some 0)
  · exact not_offsetsTrue_replicate 16385
      (by decide : 2 ^ 32 ≤ (16385 - 1) * (262144 : UInt32).toNat)

end PcapyNg
