import PcapyNg.Library.Batching
import PcapyNg.Library.BoundedLog
import PcapyNg.PcapObject

/-!
# `next_batch`: many packets in one result

`BatchCallBack` appends to two arrays that grow by `realloc` and returns without a trace when
one cannot; `p_next_batch` throws both away when the read ends in an error. Whether the
results hold what `next` would have returned is decided by both, and by the 32-bit offsets.
-/

namespace PcapyNg
open ReadLoop BoundedLog Batching
set_option autoImplicit false

structure BatchMeta where
  sec : UInt32
  usec : UInt32
  off : UInt32
  len : UInt32
  deriving DecidableEq

/-- `struct BatchCtx`: the arrays are what is stored in them, and `tries` is the number of
calls of `realloc` so far. -/
structure BatchCtx where
  buf : Bytes
  cap : Nat
  metas : List BatchMeta
  mcap : UInt32
  tries : Nat

def BatchCtx.used (b : BatchCtx) : Nat := b.buf.length

def BatchCtx.n (b : BatchCtx) : Nat := b.metas.length

/-- `if (b->used + cl > b->cap) { .. }`, and whether it goes on behind it. -/
def BatchCtx.growBuf (reallocs : Nat → Bool) (b : BatchCtx) (cl : UInt32) : BatchCtx × Bool :=
  if b.used + cl.toNat > b.cap then
    let nc := b.cap * 2
    let nc := if nc < b.used + cl.toNat + 4096 then b.used + cl.toNat + 4096 else nc
    if reallocs b.tries then ({ b with cap := nc, tries := b.tries + 1 }, true)
    else ({ b with tries := b.tries + 1 }, false)
  else (b, true)

/-- `if (b->n >= b->mcap) { .. }`, and whether it goes on behind it. -/
def BatchCtx.growMeta (reallocs : Nat → Bool) (b : BatchCtx) : BatchCtx × Bool :=
  if b.n ≥ b.mcap.toNat then
    let nm := b.mcap * 2
    let nm := if nm = 0 then 256 else nm
    if reallocs b.tries then ({ b with mcap := nm, tries := b.tries + 1 }, true)
    else ({ b with tries := b.tries + 1 }, false)
  else (b, true)

/-- The record `BatchCallBack` writes for a packet stored at `used`. -/
def Record.batchMeta (used : Nat) (r : Record) : BatchMeta :=
  ⟨UInt32.ofInt r.hdr.sec, UInt32.ofInt r.hdr.usec, UInt32.ofNat used, r.hdr.caplen⟩

def BatchCtx.store (b : BatchCtx) (r : Record) : BatchCtx :=
  { b with buf := b.buf ++ r.data, metas := b.metas ++ [r.batchMeta b.used] }

def batchCallBack (reallocs : Nat → Bool) : Handler BatchCtx Record := fun b r =>
  match b.growBuf reallocs r.hdr.caplen with
  | (b, false) => (b, false)
  | (b, true) =>
    match b.growMeta reallocs with
    | (b, false) => (b, false)
    | (b, true) => (b.store r, false)

/-- Which allocations of `p_next_batch` and its callback succeed. -/
structure BatchAlloc where
  reallocs : Nat → Bool
  mallocs : Bool := true
  pyBytes : Bool := true

/-- `if (max_n <= 0) max_n = 256;` -/
def clampMaxN (maxN : Int32) : Int32 := if maxN ≤ 0 then 256 else maxN

def BatchCtx.start (maxN : Int32) (tries : Nat) : BatchCtx where
  buf := []
  cap := 65536
  metas := []
  mcap := maxN.toUInt32
  tries := tries

def packRecord (m : BatchMeta) : Bytes :=
  bytesLE m.sec ++ (bytesLE m.usec ++ (bytesLE m.off ++ bytesLE m.len))

def packMeta (ms : List BatchMeta) : Bytes := ms.flatMap packRecord

/-- `p_next_batch`; `tries` counts the calls of `realloc` made before it, and after it. -/
def pNextBatch (lib : Libpcap) (alloc : BatchAlloc) (pp : PcapObject) (maxN : Int32) (tries : Nat) :
    PyOutcome (Bytes × Bytes) × PcapObject × Nat :=
  match pp.pcap with
  | none => (.raise errClosed, pp, tries)
  | some c =>
    let maxN := clampMaxN maxN
    if ¬ alloc.mallocs then (.raise .memoryError, pp, tries)
    else
      let (ret, c, b) := lib.dispatch (batchCallBack alloc.reallocs) maxN.toInt c (.start maxN tries)
      let pp := { pp with pcap := some c }
      if ret < 0 ∧ ret ≠ -2 then (.raise (.pcapError (lib.geterr c)), pp, b.tries)
      else if ¬ alloc.pyBytes then (.raise .memoryError, pp, b.tries)
      else (.ret (b.buf, packMeta b.metas), pp, b.tries)

/-! What the callback leaves behind. -/

/-- The records of packets stored from `used` on. -/
def metasFrom : Nat → List Record → List BatchMeta
  | _, [] => []
  | used, r :: rs => r.batchMeta used :: metasFrom (used + r.data.length) rs

def lengths (rs : List Record) : List Nat := rs.map fun r => r.data.length

/-- Of the next `m` calls of `realloc`, none fails. -/
def NoneFails (reallocs : Nat → Bool) (tries m : Nat) : Prop :=
  ∀ t, t < m → reallocs (tries + t) = true

section Feed
variable {reallocs : Nat → Bool}

theorem noneFails_add {tries m k : Nat} :
    NoneFails reallocs tries (m + k) ↔
      NoneFails reallocs tries m ∧ NoneFails reallocs (tries + m) k := by
  constructor
  · refine fun h => ⟨fun t ht => h t (by omega), fun t ht => ?_⟩
    rw [Nat.add_assoc]
    exact h (m + t) (by omega)
  · rintro ⟨hm, hk⟩ t ht
    by_cases hlt : t < m
    · exact hm t hlt
    · have h := hk (t - m) (by omega)
      rwa [(by omega : tries + m + (t - m) = tries + t)] at h

theorem noneFails_one {tries : Nat} : NoneFails reallocs tries 1 ↔ reallocs tries = true :=
  ⟨fun h => h 0 Nat.one_pos, fun h t ht => by rwa [(by omega : t = 0)]⟩

theorem metasFrom_length (used : Nat) (rs : List Record) : (metasFrom used rs).length = rs.length := by
  induction rs generalizing used with
  | nil => rfl
  | cons r rs ih => simp [metasFrom, ih]

theorem lengths_cons (r : Record) (rs : List Record) :
    lengths (r :: rs) = r.data.length :: lengths rs := rfl

def BatchCtx.grown (b : BatchCtx) (len : Nat) : BatchCtx :=
  { b with cap := max (b.cap * 2) (b.used + len + 4096), tries := b.tries + 1 }

def BatchCtx.failed (b : BatchCtx) : BatchCtx := { b with tries := b.tries + 1 }

section Fields
variable (b : BatchCtx) (r : Record) (len : Nat)

@[simp] theorem BatchCtx.store_n : (b.store r).n = b.n + 1 := by simp [store, n]

@[simp] theorem BatchCtx.store_used : (b.store r).used = b.used + r.data.length := by
  simp [store, used]

@[simp] theorem BatchCtx.store_cap : (b.store r).cap = b.cap := rfl

@[simp] theorem BatchCtx.store_mcap : (b.store r).mcap = b.mcap := rfl

@[simp] theorem BatchCtx.store_tries : (b.store r).tries = b.tries := rfl

@[simp] theorem BatchCtx.grown_n : (b.grown len).n = b.n := rfl

@[simp] theorem BatchCtx.grown_used : (b.grown len).used = b.used := rfl

@[simp] theorem BatchCtx.grown_cap :
    (b.grown len).cap = max (b.cap * 2) (b.used + len + 4096) := rfl

@[simp] theorem BatchCtx.grown_mcap : (b.grown len).mcap = b.mcap := rfl

@[simp] theorem BatchCtx.grown_tries : (b.grown len).tries = b.tries + 1 := rfl

@[simp] theorem BatchCtx.failed_n : b.failed.n = b.n := rfl

end Fields

/-- `b` stays within its arrays for `m` more packets. -/
structure BatchCtx.Room (b : BatchCtx) (m : Nat) : Prop where
  records : b.n + m ≤ b.mcap.toNat
  bytes : b.used ≤ b.cap

section Room
variable {b : BatchCtx} {r : Record} {m : Nat}

theorem BatchCtx.Room.store (h : b.Room (m + 1)) (hfits : b.used + r.data.length ≤ b.cap) :
    (b.store r).Room m where
  records := by
    have := h.records
    rw [store_n, store_mcap]
    omega
  bytes := by rwa [store_used, store_cap]

theorem BatchCtx.Room.grown (h : b.Room (m + 1)) : ((b.grown r.data.length).store r).Room m where
  records := by
    have := h.records
    rw [store_n, grown_n, store_mcap, grown_mcap]
    omega
  bytes := by
    rw [store_used, grown_used, store_cap, grown_cap]
    omega

theorem BatchCtx.Room.failed (h : b.Room (m + 1)) : b.failed.Room m where
  records := by
    have := h.records
    change b.n + m ≤ b.mcap.toNat
    omega
  bytes := h.bytes

end Room

theorem batchCallBack_quiet (b : BatchCtx) (r : Record) : (batchCallBack reallocs b r).2 = false := by
  rw [batchCallBack]
  split
  · rfl
  · split <;> rfl

/-! One packet. -/

section Step
variable {b : BatchCtx}

theorem growBuf_grows {cl : UInt32} (h : b.cap < b.used + cl.toNat) (hmem : reallocs b.tries = true) :
    b.growBuf reallocs cl = (b.grown cl.toNat, true) := by
  have hmax : (if b.cap * 2 < b.used + cl.toNat + 4096 then b.used + cl.toNat + 4096
      else b.cap * 2) = max (b.cap * 2) (b.used + cl.toNat + 4096) := by
    split <;> omega
  rw [BatchCtx.growBuf, if_pos h]
  simp only [hmax, hmem, if_true]
  rfl

theorem growMeta_room (hn : b.n < b.mcap.toNat) : b.growMeta reallocs = (b, true) := by
  rw [BatchCtx.growMeta, if_neg (by omega)]

variable (reallocs) in
/-- The packet is stored, in a larger buffer if need be, or it is lost. -/
theorem batchCallBack_cases (r : Record) {m : Nat} (hb : b.Room (m + 1)) :
    (b.used + r.data.length ≤ b.cap ∧ batchCallBack reallocs b r = (b.store r, false)) ∨
    (b.cap < b.used + r.data.length ∧ reallocs b.tries = true ∧
      batchCallBack reallocs b r = ((b.grown r.data.length).store r, false)) ∨
    (b.cap < b.used + r.data.length ∧ reallocs b.tries ≠ true ∧
      batchCallBack reallocs b r = (b.failed, false)) := by
  have hn : b.n < b.mcap.toNat := by
    have := hb.records
    omega
  rw [r.captured, batchCallBack]
  rcases Nat.lt_or_ge b.cap (b.used + r.hdr.caplen.toNat) with hgrow | hroom
  · by_cases hmem : reallocs b.tries = true
    · refine Or.inr (Or.inl ⟨hgrow, hmem, ?_⟩)
      have hmeta : (b.grown r.hdr.caplen.toNat).growMeta reallocs =
          (b.grown r.hdr.caplen.toNat, true) := growMeta_room hn
      rw [growBuf_grows hgrow hmem]
      simp only [hmeta]
    · refine Or.inr (Or.inr ⟨hgrow, hmem, ?_⟩)
      rw [BatchCtx.growBuf, if_pos hgrow, if_neg hmem]
      rfl
  · refine Or.inl ⟨hroom, ?_⟩
    rw [BatchCtx.growBuf, if_neg (by omega)]
    simp only [growMeta_room hn]

end Step

theorem batch_stores {b : BatchCtx} {rs : List Record} (hb : b.Room rs.length)
    (hmem : NoneFails reallocs b.tries (growths 4096 b.cap b.used (lengths rs))) :
    (feed (batchCallBack reallocs) b rs).buf = b.buf ++ rs.flatMap Record.data ∧
      (feed (batchCallBack reallocs) b rs).metas = b.metas ++ metasFrom b.used rs ∧
      (feed (batchCallBack reallocs) b rs).tries =
        b.tries + growths 4096 b.cap b.used (lengths rs) := by
  induction rs generalizing b with
  | nil => simp [feed, metasFrom, lengths, growths]
  | cons r rs ih =>
    rw [lengths_cons] at hmem
    rw [feed, lengths_cons, List.flatMap_cons, metasFrom]
    rcases batchCallBack_cases reallocs r hb with
      ⟨hfits, heq⟩ | ⟨hgrow, -, heq⟩ | ⟨hgrow, hfail, -⟩
    · rw [growths_cons_fits hfits] at hmem ⊢
      obtain ⟨hbuf, hmetas, htries⟩ := ih (hb.store hfits) (by simpa using hmem)
      simp only [BatchCtx.store_used] at hmetas htries
      rw [heq]
      exact ⟨hbuf.trans (List.append_assoc _ _ _), hmetas.trans (List.append_assoc _ _ _), htries⟩
    · rw [growths_cons_grows hgrow] at hmem ⊢
      obtain ⟨hbuf, hmetas, htries⟩ := ih hb.grown (by simpa using (noneFails_add.mp hmem).2)
      simp only [BatchCtx.store_used, BatchCtx.grown_used] at hmetas htries
      rw [heq]
      exact ⟨hbuf.trans (List.append_assoc _ _ _), hmetas.trans (List.append_assoc _ _ _),
        htries.trans (Nat.add_assoc _ _ _)⟩
    · rw [growths_cons_grows hgrow, noneFails_add, noneFails_one] at hmem
      exact absurd hmem.1 hfail

variable (reallocs) in
/-- Whatever `realloc` does, nothing is stored beyond the end of either array. -/
theorem batch_in_bounds {b : BatchCtx} {rs : List Record} (hb : b.Room rs.length) :
    (feed (batchCallBack reallocs) b rs).Room 0 ∧
      (feed (batchCallBack reallocs) b rs).n ≤ b.n + rs.length := by
  induction rs generalizing b with
  | nil => exact ⟨hb, Nat.le_refl _⟩
  | cons r rs ih =>
    rw [feed, List.length_cons]
    rcases batchCallBack_cases reallocs r hb with
      ⟨hfits, heq⟩ | ⟨-, -, heq⟩ | ⟨-, -, heq⟩
    · obtain ⟨hroom, hle⟩ := ih (hb.store hfits)
      rw [BatchCtx.store_n] at hle
      simp only [heq]
      exact ⟨hroom, by omega⟩
    · obtain ⟨hroom, hle⟩ := ih (hb.grown (r := r))
      rw [BatchCtx.store_n, BatchCtx.grown_n] at hle
      simp only [heq]
      exact ⟨hroom, by omega⟩
    · obtain ⟨hroom, hle⟩ := ih hb.failed
      rw [BatchCtx.failed_n] at hle
      simp only [heq]
      exact ⟨hroom, by omega⟩

theorem batch_loses {b : BatchCtx} {rs : List Record} (hb : b.Room rs.length)
    (hmem : ¬ NoneFails reallocs b.tries (growths 4096 b.cap b.used (lengths rs))) :
    (feed (batchCallBack reallocs) b rs).n < b.n + rs.length := by
  induction rs generalizing b with
  | nil => exact absurd (fun t ht => absurd ht (Nat.not_lt_zero t)) hmem
  | cons r rs ih =>
    rw [lengths_cons] at hmem
    rw [feed, List.length_cons]
    rcases batchCallBack_cases reallocs r hb with
      ⟨hfits, heq⟩ | ⟨hgrow, hgiven, heq⟩ | ⟨-, -, heq⟩
    · rw [growths_cons_fits hfits] at hmem
      have hlt := ih (hb.store hfits) (by simpa using hmem)
      rw [BatchCtx.store_n] at hlt
      simp only [heq]
      omega
    · rw [growths_cons_grows hgrow, noneFails_add, noneFails_one] at hmem
      have hlt := ih (hb.grown (r := r)) (by simpa using fun h => hmem ⟨hgiven, h⟩)
      rw [BatchCtx.store_n, BatchCtx.grown_n] at hlt
      simp only [heq]
      omega
    · have hle := (batch_in_bounds reallocs hb.failed).2
      rw [BatchCtx.failed_n] at hle
      simp only [heq]
      omega

end Feed

/-! One call. -/

def batchSize (maxN : Int32) : Nat := (clampMaxN maxN).toNatClampNeg

theorem clampMaxN_toInt (maxN : Int32) :
    (clampMaxN maxN).toInt = batchSize maxN ∧ 0 < batchSize maxN := by
  have hpos : 0 < (clampMaxN maxN).toInt := by
    rw [clampMaxN]
    split
    · decide
    · rename_i h
      rw [Int32.le_iff_toInt_le, Int32.toInt_zero] at h
      omega
  unfold batchSize Int32.toNatClampNeg
  omega

theorem start_n (maxN : Int32) (tries : Nat) : (BatchCtx.start maxN tries).n = 0 := rfl

theorem start_room (maxN : Int32) (tries : Nat) :
    (BatchCtx.start (clampMaxN maxN) tries).Room (batchSize maxN) where
  records := by
    have hle : 0 ≤ clampMaxN maxN := by
      rw [Int32.le_iff_toInt_le, (clampMaxN_toInt maxN).1, Int32.toInt_zero]
      omega
    change 0 + batchSize maxN ≤ (clampMaxN maxN).toUInt32.toNat
    rw [Int32.toNat_toUInt32_of_le hle, batchSize]
    omega
  bytes := Nat.zero_le _

theorem BatchCtx.Room.mono {b : BatchCtx} {m k : Nat} (h : b.Room m) (hk : k ≤ m) : b.Room k where
  records := (Nat.add_le_add_left hk _).trans h.records
  bytes := h.bytes

/-- What the callback has collected when a call with `maxN` on the packets `rs` is over. -/
def collected (reallocs : Nat → Bool) (maxN : Int32) (tries : Nat) (rs : List Record) : BatchCtx :=
  feed (batchCallBack reallocs) (.start (clampMaxN maxN) tries) (rs.take (batchSize maxN))

/-- A call reads a batch, and returns it unless the file ends in an error within it. -/
theorem pNextBatch_eq (lib : Libpcap) (reallocs : Nat → Bool) {pp : PcapObject} {rs : List Record}
    {e : Ending} (hpcap : pp.pcap = some ⟨rs, e, false⟩) (maxN : Int32) (tries : Nat) :
    let b := collected reallocs maxN tries rs
    let c : Capture := ⟨rs.drop (batchSize maxN), e, false⟩
    pNextBatch lib { reallocs } pp maxN tries =
      (if e = .error ∧ rs.length < batchSize maxN then .raise (.pcapError (lib.geterr c))
        else .ret (b.buf, packMeta b.metas), { pp with pcap := some c }, b.tries) := by
  obtain ⟨hsize, hpos⟩ := clampMaxN_toInt maxN
  have hdue : due (clampMaxN maxN).toInt rs = rs.take (batchSize maxN) := by
    rw [hsize, due, if_pos (by omega), Int.toNat_natCast]
  have hcut : CutShort (clampMaxN maxN).toInt ⟨rs, e, false⟩ ↔
      e = .error ∧ rs.length < batchSize maxN := by
    rw [CutShort, hsize]
    exact and_congr_right fun _ => by simp only; omega
  obtain ⟨ret, c', last, hrun, hread⟩ := lib.dispatch_run (batchCallBack reallocs)
    (clampMaxN maxN).toInt ⟨rs, e, false⟩ (.start (clampMaxN maxN) tries)
  obtain ⟨hlast, hc, hret⟩ := hread.quiet_start (quiet_of_never batchCallBack_quiet _ _)
  simp only [hdue, hcut] at hlast hc hret
  have hdrop : rs.drop (rs.take (batchSize maxN)).length = rs.drop (batchSize maxN) := by
    rw [List.length_take]
    rcases Nat.le_total (batchSize maxN) rs.length with h | h
    · rw [Nat.min_eq_left h]
    · rw [Nat.min_eq_right h, List.drop_length, List.drop_of_length_le h]
  rw [hdrop] at hc
  subst hlast hc
  intro b c
  rw [pNextBatch, hpcap]
  simp only [hrun, not_true_eq_false, if_false]
  by_cases herr : e = .error ∧ rs.length < batchSize maxN
  · rw [if_pos herr] at hret ⊢
    rw [if_pos (by omega)]
    rfl
  · rw [if_neg herr] at hret ⊢
    rw [if_neg (by omega)]
    rfl

/-- A call that finds the break flag set returns empty. -/
theorem pNextBatch_broken (lib : Libpcap) (reallocs : Nat → Bool) {pp : PcapObject}
    {rs : List Record} {e : Ending} (hpcap : pp.pcap = some ⟨rs, e, true⟩) (maxN : Int32)
    (tries : Nat) :
    pNextBatch lib { reallocs } pp maxN tries =
      (.ret ([], []), { pp with pcap := some ⟨rs, e, false⟩ }, tries) := by
  obtain ⟨ret, c', last, hrun, hread⟩ := lib.dispatch_run (batchCallBack reallocs)
    (clampMaxN maxN).toInt ⟨rs, e, true⟩ (.start (clampMaxN maxN) tries)
  obtain ⟨rfl, ⟨-, rfl, rfl⟩ | ⟨hn, -⟩⟩ := hread.flagged
  · rw [pNextBatch, hpcap]
    simp only [hrun]
    rfl
  · omega

def batchGrowths (rs : List Record) : Nat := growths 4096 65536 0 (lengths rs)

theorem collected_all {reallocs : Nat → Bool} {maxN : Int32} {tries : Nat} {rs : List Record}
    (hmem : NoneFails reallocs tries (batchGrowths (rs.take (batchSize maxN)))) :
    let b := collected reallocs maxN tries rs
    b.buf = (rs.take (batchSize maxN)).flatMap Record.data ∧
      b.metas = metasFrom 0 (rs.take (batchSize maxN)) ∧
      b.tries = tries + batchGrowths (rs.take (batchSize maxN)) :=
  batch_stores ((start_room maxN tries).mono (List.length_take_le _ _)) hmem

theorem collected_length_le (reallocs : Nat → Bool) (maxN : Int32) (tries : Nat) (rs : List Record) :
    (collected reallocs maxN tries rs).metas.length ≤ (rs.take (batchSize maxN)).length := by
  have h := (batch_in_bounds reallocs
    ((start_room maxN tries).mono (List.length_take_le _ rs))).2
  rwa [start_n, Nat.zero_add] at h

theorem collected_missing {reallocs : Nat → Bool} {maxN : Int32} {tries : Nat} {rs : List Record}
    (hmem : ¬ NoneFails reallocs tries (batchGrowths (rs.take (batchSize maxN)))) :
    (collected reallocs maxN tries rs).metas.length < (rs.take (batchSize maxN)).length := by
  have h := batch_loses ((start_room maxN tries).mono (List.length_take_le _ rs)) hmem
  rwa [start_n, Nat.zero_add] at h

end PcapyNg
