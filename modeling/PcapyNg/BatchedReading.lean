import PcapyNg.NextBatch

/-!
# Reading a file with `next_batch` and with `next`

A caller slices the packets out of the results of `next_batch` until one raises or is
empty. The packets are those of `next` if no batch is thrown away, stored in part, or so
large that an offset does not fit its 32 bits.
-/

namespace PcapyNg
open ReadLoop BoundedLog Batching
set_option autoImplicit false

/-- A packet as both `next` and `next_batch` give it, the time in 32-bit words. -/
structure TimedPacket where
  sec : UInt32
  usec : UInt32
  data : Bytes
  deriving DecidableEq

def timedPacket (hdr : PcapPkthdr) (data : Bytes) : TimedPacket :=
  ⟨UInt32.ofInt hdr.sec, UInt32.ofInt hdr.usec, data⟩

/-- `struct.unpack_from("=IIII", meta, i)`, and the next `i`. -/
def unpackFrom (packed : Bytes) (i : Nat) : Option (BatchMeta × Nat) :=
  if i + 16 ≤ packed.length then
    some (⟨wordAt packed i, wordAt packed (i + 4), wordAt packed (i + 8), wordAt packed (i + 12)⟩,
      i + 16)
  else none

/-- `for i in range(0, len(meta), 16)` -/
def unpackMeta (packed : Bytes) : Option (List BatchMeta) :=
  (decodeMany unpackFrom packed (packed.length / 16) 0).map Prod.fst

/-- `pkts[off:off + caplen]` -/
def slicePacket (pkts : Bytes) (m : BatchMeta) : TimedPacket :=
  ⟨m.sec, m.usec, (pkts.drop m.off.toNat).take m.len.toNat⟩

/-- Calls `next_batch` with `maxN 0`, `maxN 1`, .. until a call raises or its meta is empty: the
packets and the exception. -/
def batchRun (lib : Libpcap) (alloc : BatchAlloc) :
    Nat → (Nat → Int32) → PcapObject → Nat → Option (List TimedPacket × Option PyExc)
  | 0, _, _, _ => none
  | calls + 1, maxN, pp, tries =>
    let (o, pp, tries) := pNextBatch lib alloc pp (maxN 0) tries
    match o.value with
    | none => some ([], o.pending)
    | some (_, []) => some ([], none)
    | some (pkts, packed) => do
      let ms ← unpackMeta packed
      let (rest, e) ← batchRun lib alloc calls (fun i => maxN (i + 1)) pp tries
      return (ms.map (slicePacket pkts) ++ rest, e)

def nextRun (lib : Libpcap) : Nat → PcapObject → Option (List TimedPacket × Option PyExc)
  | 0, _ => none
  | calls + 1, pp =>
    let (o, pp) := pNext lib pp
    match o.value with
    | none => some ([], o.pending)
    | some (none, _) => some ([], none)
    | some (some hdr, data) => do
      let (rest, e) ← nextRun lib calls pp
      return (timedPacket hdr data :: rest, e)

def Record.timed (r : Record) : TimedPacket := timedPacket r.hdr r.data

/-! The packed records. -/

@[simp] theorem packRecord_length (m : BatchMeta) : (packRecord m).length = 16 := rfl

theorem packMeta_length (ms : List BatchMeta) : (packMeta ms).length = 16 * ms.length := by
  induction ms with
  | nil => rfl
  | cons m ms ih =>
    rw [packMeta, List.flatMap_cons, List.length_append, ← packMeta, ih, packRecord_length,
      List.length_cons]
    omega

theorem unpackFrom_packRecord (m : BatchMeta) (pre post : Bytes) :
    unpackFrom (pre ++ (packRecord m ++ post)) pre.length =
      some (m, pre.length + (packRecord m).length) := by
  have hsec : wordAt (pre ++ (packRecord m ++ post)) pre.length = m.sec := by
    rw [packRecord, List.append_assoc]
    exact wordAt_bytesLE pre m.sec _
  have husec : wordAt (pre ++ (packRecord m ++ post)) (pre.length + 4) = m.usec := by
    have h := wordAt_bytesLE (pre ++ bytesLE m.sec) m.usec (bytesLE m.off ++ bytesLE m.len ++ post)
    simpa [packRecord] using h
  have hoff : wordAt (pre ++ (packRecord m ++ post)) (pre.length + 8) = m.off := by
    have h := wordAt_bytesLE (pre ++ bytesLE m.sec ++ bytesLE m.usec) m.off (bytesLE m.len ++ post)
    simpa [packRecord] using h
  have hlen : wordAt (pre ++ (packRecord m ++ post)) (pre.length + 12) = m.len := by
    have h := wordAt_bytesLE (pre ++ bytesLE m.sec ++ bytesLE m.usec ++ bytesLE m.off) m.len post
    simpa [packRecord] using h
  rw [unpackFrom, if_pos (by simp), hsec, husec, hoff, hlen, packRecord_length]

theorem unpackMeta_packMeta (ms : List BatchMeta) : unpackMeta (packMeta ms) = some ms := by
  have h := decodeMany_flatMap [] [] ms fun m _ => unpackFrom_packRecord m
  rw [List.nil_append, List.append_nil, ← packMeta, List.length_nil] at h
  rw [unpackMeta, packMeta_length, Nat.mul_div_cancel_left _ (by decide), h]
  rfl

/-! Slicing a batch. -/

/-- Every packet of the batch is found at its offset modulo 2^32. -/
def Addressable (rs : List Record) : Prop :=
  ∀ pre r post, rs = pre ++ r :: post →
    ((rs.flatMap Record.data).drop ((pre.flatMap Record.data).length % 2 ^ 32)).take r.data.length =
      r.data

theorem slices_from_iff (pkts : Bytes) (used : Nat) (rs : List Record) :
    (metasFrom used rs).map (slicePacket pkts) = rs.map Record.timed ↔
      ∀ pre r post, rs = pre ++ r :: post →
        (pkts.drop ((used + (pre.flatMap Record.data).length) % 2 ^ 32)).take r.data.length =
          r.data := by
  induction rs generalizing used with
  | nil => simp [metasFrom]
  | cons x rs ih =>
    have hhead : slicePacket pkts (x.batchMeta used) = x.timed ↔
        (pkts.drop (used % 2 ^ 32)).take x.data.length = x.data := by
      simp [slicePacket, Record.batchMeta, Record.timed, timedPacket, ← x.captured]
    rw [metasFrom, List.map_cons, List.map_cons, List.cons.injEq, hhead, ih]
    constructor
    · rintro ⟨hx, hrest⟩ pre r post heq
      cases pre with
      | nil =>
        cases heq
        exact hx
      | cons y pre =>
        cases heq
        have h := hrest pre r post rfl
        rwa [Nat.add_assoc, ← List.length_append, ← List.flatMap_cons] at h
    · refine fun h => ⟨h [] x rs rfl, fun pre r post heq => ?_⟩
      have hr := h (x :: pre) r post (by rw [heq, List.cons_append])
      rwa [List.flatMap_cons, List.length_append, ← Nat.add_assoc] at hr

theorem slices_iff (rs : List Record) :
    (metasFrom 0 rs).map (slicePacket (rs.flatMap Record.data)) = rs.map Record.timed ↔
      Addressable rs := by
  rw [slices_from_iff, Addressable]
  simp only [Nat.zero_add]

theorem slices_append_iff (rs : List Record) (n : Nat) (rest : List TimedPacket) :
    (metasFrom 0 (rs.take n)).map (slicePacket ((rs.take n).flatMap Record.data)) ++ rest =
        rs.map Record.timed ↔
      Addressable (rs.take n) ∧ rest = (rs.drop n).map Record.timed := by
  have hmap : rs.map Record.timed =
      (rs.take n).map Record.timed ++ (rs.drop n).map Record.timed := by
    rw [← List.map_append, List.take_append_drop]
  rw [hmap, ← slices_iff]
  constructor
  · exact fun h => List.append_inj h (by simp [metasFrom_length])
  · intro hex
    rcases hex with ⟨hslices, hrest⟩
    rw [hslices, hrest]

theorem addressable_of_small {rs : List Record} (h : (rs.flatMap Record.data).length ≤ 2 ^ 32) :
    Addressable rs := by
  rintro pre r post rfl
  have hflat : (pre ++ r :: post).flatMap Record.data =
      pre.flatMap Record.data ++ (r.data ++ post.flatMap Record.data) := by simp
  rw [hflat] at h ⊢
  rw [List.length_append, List.length_append] at h
  by_cases hlt : (pre.flatMap Record.data).length < 2 ^ 32
  · rw [Nat.mod_eq_of_lt hlt, List.drop_left' rfl]
    exact List.take_left' rfl
  · have hempty : r.data = [] := List.eq_nil_of_length_eq_zero (by omega)
    rw [hempty]
    rfl

/-! Whole runs. -/

/-- Calls of the sizes given return every packet: the file does not end in an error within a
batch, no growth of a buffer fails, and offsets lead back to their packets. -/
structure BatchesWhole (reallocs : Nat → Bool) (tries : Nat) (size : Nat → Nat) (c : Capture) :
    Prop where
  complete : c.ending = .error → ∃ m, c.pending.length = start size m
  stored : ∀ m, NoneFails reallocs tries
    (∑ i ∈ Finset.range m, batchGrowths (batch size c.pending i))
  addressed : ∀ i, Addressable (batch size c.pending i)

section Runs
variable {lib : Libpcap} {reallocs : Nat → Bool} {tries : Nat} {size : Nat → Nat}
  {rs : List Record} {e : Ending}

theorem batchesWhole_nil : BatchesWhole reallocs tries size ⟨[], e, false⟩ where
  complete _ := ⟨0, rfl⟩
  stored m := by
    have hsum : ∑ i ∈ Finset.range m, batchGrowths (batch size ([] : List Record) i) = 0 :=
      Finset.sum_eq_zero fun i _ => by
        rw [batch_nil]
        rfl
    rw [hsum]
    exact fun t ht => absurd ht (Nat.not_lt_zero t)
  addressed i := by
    rw [batch_nil]
    rintro pre r post heq
    simp at heq

theorem lengths_sum (rs : List Record) : (lengths rs).sum = (rs.flatMap Record.data).length :=
  List.length_flatMap.symm

theorem batchesWhole_of_small
    (hend : e = .error → ∃ m, rs.length = start size m)
    (hsmall : (rs.flatMap Record.data).length ≤ 65536) :
    BatchesWhole reallocs tries size ⟨rs, e, false⟩ := by
  have hbatch : ∀ i, ((batch size rs i).flatMap Record.data).length ≤ 65536 := by
    intro i
    have hsub : ((batch size rs i).map Record.data).Sublist (rs.map Record.data) :=
      (batch_sublist size rs i).map _
    rw [List.flatMap_def] at hsmall ⊢
    exact (hsub.flatten.length_le).trans hsmall
  refine ⟨hend, fun m => ?_, fun i => addressable_of_small ((hbatch i).trans (by decide))⟩
  have hsum : ∑ i ∈ Finset.range m, batchGrowths (batch size rs i) = 0 :=
    Finset.sum_eq_zero fun i _ => growths_of_room (by
      have h := hbatch i
      rw [← lengths_sum] at h
      omega)
  rw [hsum]
  exact fun t ht => absurd ht (Nat.not_lt_zero t)

theorem not_batchesWhole_cut (hrs : rs ≠ []) (hcut : rs.length < size 0) :
    ¬ BatchesWhole reallocs tries size ⟨rs, .error, false⟩ := by
  intro h
  obtain ⟨m, hm⟩ := h.complete rfl
  simp only at hm
  cases m with
  | zero => exact hrs (List.eq_nil_of_length_eq_zero hm)
  | succ m =>
    rw [start_succ] at hm
    omega

theorem batchGrowths_succ (size : Nat → Nat) (rs : List Record) (m : Nat) :
    ∑ i ∈ Finset.range (m + 1), batchGrowths (batch size rs i) =
      batchGrowths (rs.take (size 0)) +
        ∑ i ∈ Finset.range m, batchGrowths (batch (fun i => size (i + 1)) (rs.drop (size 0)) i) := by
  rw [Finset.sum_range_succ', Nat.add_comm, batch_zero]
  simp only [batch_succ]

theorem batchesWhole_step (hrs : rs ≠ []) (hcut : ¬ (e = .error ∧ rs.length < size 0)) :
    BatchesWhole reallocs tries size ⟨rs, e, false⟩ ↔
      NoneFails reallocs tries (batchGrowths (rs.take (size 0))) ∧
        Addressable (rs.take (size 0)) ∧
        BatchesWhole reallocs (tries + batchGrowths (rs.take (size 0))) (fun i => size (i + 1))
          ⟨rs.drop (size 0), e, false⟩ := by
  constructor
  · intro h
    have hmem : ∀ m, NoneFails reallocs tries (batchGrowths (rs.take (size 0)) +
        ∑ i ∈ Finset.range m, batchGrowths (batch (fun i => size (i + 1)) (rs.drop (size 0)) i)) :=
      fun m => by
        rw [← batchGrowths_succ]
        exact h.stored (m + 1)
    refine ⟨(noneFails_add.mp (hmem 0)).1, h.addressed 0, fun he => ?_,
      fun m => (noneFails_add.mp (hmem m)).2, fun i => ?_⟩
    · obtain ⟨m, hm⟩ := h.complete he
      simp only at hm
      cases m with
      | zero => exact absurd (List.eq_nil_of_length_eq_zero hm) hrs
      | succ m =>
        refine ⟨m, ?_⟩
        rw [start_succ] at hm
        simp only [List.length_drop]
        omega
    · have haddr := h.addressed (i + 1)
      rwa [batch_succ] at haddr
  · intro hex
    rcases hex with ⟨hmem, haddr, hrest⟩
    refine ⟨fun he => ?_, fun m => ?_, fun i => ?_⟩
    · obtain ⟨m, hm⟩ := hrest.complete he
      refine ⟨m + 1, ?_⟩
      have hlen : ¬ rs.length < size 0 := fun hlt => hcut ⟨he, hlt⟩
      simp only [List.length_drop] at hm
      rw [start_succ]
      simp only
      omega
    · cases m with
      | zero => exact fun t ht => absurd ht (Nat.not_lt_zero t)
      | succ m =>
        simp only [batchGrowths_succ]
        exact noneFails_add.mpr ⟨hmem, hrest.stored m⟩
    · cases i with
      | zero => exact haddr
      | succ i =>
        simp only [batch_succ]
        exact hrest.addressed i

variable (lib) in
theorem nextRun_eq (pp : PcapObject) (hpcap : pp.pcap = some ⟨rs, e, false⟩) {calls : Nat}
    (hcalls : rs.length < calls) : ∃ err, nextRun lib calls pp = some (rs.map Record.timed, err) := by
  induction rs generalizing pp calls with
  | nil =>
    obtain ⟨calls, rfl⟩ : ∃ k, calls = k + 1 := ⟨calls - 1, by omega⟩
    cases e with
    | eof =>
      refine ⟨none, ?_⟩
      rw [nextRun, pNext_eof lib hpcap]
      rfl
    | error =>
      refine ⟨some (.pcapError (lib.geterr ⟨[], .error, false⟩)), ?_⟩
      rw [nextRun, pNext_error lib hpcap]
      rfl
  | cons r rs ih =>
    obtain ⟨calls, rfl⟩ : ∃ k, calls = k + 1 := ⟨calls - 1, by omega⟩
    rw [List.length_cons] at hcalls
    obtain ⟨err, hrest⟩ := ih { pp with pcap := some ⟨rs, e, false⟩ } rfl
      (by omega : rs.length < calls)
    refine ⟨err, ?_⟩
    rw [nextRun, pNext_record lib hpcap]
    simp [PyOutcome.ret, hrest, Record.timed]

section OneCall
variable {alloc : BatchAlloc} {calls : Nat} {maxN : Nat → Int32} {pp pp' : PcapObject} {tries' : Nat}
  {pkts : Bytes} {ms : List BatchMeta}

theorem batchRun_raise {ex : PyExc}
    (hcall : pNextBatch lib alloc pp (maxN 0) tries = (.raise ex, pp', tries')) :
    batchRun lib alloc (calls + 1) maxN pp tries = some ([], some ex) := by
  rw [batchRun, hcall]
  rfl

theorem batchRun_empty
    (hcall : pNextBatch lib alloc pp (maxN 0) tries = (.ret (pkts, packMeta []), pp', tries')) :
    batchRun lib alloc (calls + 1) maxN pp tries = some ([], none) := by
  rw [batchRun, hcall]
  rfl

theorem batchRun_more {rest : List TimedPacket} {err : Option PyExc} (hms : ms ≠ [])
    (hcall : pNextBatch lib alloc pp (maxN 0) tries = (.ret (pkts, packMeta ms), pp', tries'))
    (hrest : batchRun lib alloc calls (fun i => maxN (i + 1)) pp' tries' = some (rest, err)) :
    batchRun lib alloc (calls + 1) maxN pp tries =
      some (ms.map (slicePacket pkts) ++ rest, err) := by
  have hne : packMeta ms ≠ [] := by
    intro h
    have hlen := packMeta_length ms
    rw [h, List.length_nil] at hlen
    exact hms (List.eq_nil_of_length_eq_zero (by omega))
  rw [batchRun, hcall]
  simp only [PyOutcome.ret]
  rw [unpackMeta_packMeta, hrest]
  rfl

end OneCall

variable (lib reallocs tries) in
/-- The run lemma of `next_batch`: how many packets it gives at most, and when it gives all. -/
theorem batchRun_spec (pp : PcapObject) (hpcap : pp.pcap = some ⟨rs, e, false⟩) {calls : Nat}
    (hcalls : rs.length < calls) (maxN : Nat → Int32) :
    ∃ ps err, batchRun lib { reallocs } calls maxN pp tries = some (ps, err) ∧
      err ≠ some .memoryError ∧ ps.length ≤ rs.length ∧
      (ps = rs.map Record.timed ↔
        BatchesWhole reallocs tries (fun i => batchSize (maxN i)) ⟨rs, e, false⟩) := by
  induction calls generalizing rs pp tries maxN with
  | zero => omega
  | succ calls ih =>
    have hcall := pNextBatch_eq lib reallocs hpcap (maxN 0) tries
    have hpos := (clampMaxN_toInt (maxN 0)).2
    simp only at hcall
    by_cases hcut : e = .error ∧ rs.length < batchSize (maxN 0)
    · -- the batch is thrown away
      rw [if_pos hcut] at hcall
      refine ⟨[], _, batchRun_raise hcall, by simp, Nat.zero_le _, ?_⟩
      rcases hcut with ⟨rfl, hlt⟩
      by_cases hrs : rs = []
      · subst hrs
        exact iff_of_true rfl batchesWhole_nil
      · exact iff_of_false (fun h => hrs (List.map_eq_nil_iff.mp h.symm)) (not_batchesWhole_cut hrs hlt)
    rw [if_neg hcut] at hcall
    by_cases hrs : rs = []
    · subst hrs
      have hle := collected_length_le reallocs (maxN 0) tries []
      rw [List.take_nil, List.length_nil] at hle
      rw [List.eq_nil_of_length_eq_zero (Nat.le_zero.mp hle)] at hcall
      exact ⟨[], _, batchRun_empty hcall, by simp, Nat.zero_le _, iff_of_true rfl batchesWhole_nil⟩
    have htake : 0 < (rs.take (batchSize (maxN 0))).length := by
      have := List.length_pos_iff.mpr hrs
      rw [List.length_take]
      omega
    have hsplit : (rs.take (batchSize (maxN 0))).length + (rs.drop (batchSize (maxN 0))).length =
        rs.length := by
      rw [← List.length_append, List.take_append_drop]
    rw [batchesWhole_step hrs hcut]
    obtain ⟨rest, err, hrest, herr, hlen, hiff⟩ := ih
      (collected reallocs (maxN 0) tries rs).tries
      { pp with pcap := some ⟨rs.drop (batchSize (maxN 0)), e, false⟩ } rfl (by omega) (fun i => maxN (i + 1))
    by_cases hmem : NoneFails reallocs tries (batchGrowths (rs.take (batchSize (maxN 0))))
    · -- the batch is returned as a whole
      obtain ⟨hbuf, hmetas, htries⟩ := collected_all hmem
      rw [htries] at hiff
      rw [hmetas, hbuf] at hcall
      have hne : metasFrom 0 (rs.take (batchSize (maxN 0))) ≠ [] := by
        rw [← List.length_pos_iff, metasFrom_length]
        exact htake
      refine ⟨_, err, batchRun_more hne hcall hrest, herr, ?_, ?_⟩
      · rw [List.length_append, List.length_map, metasFrom_length]
        omega
      · rw [slices_append_iff, hiff]
        exact (and_iff_right hmem).symm
    · -- a packet of the batch is missing
      have hshort := collected_missing hmem
      by_cases hnil : (collected reallocs (maxN 0) tries rs).metas = []
      · rw [hnil] at hcall
        refine ⟨[], _, batchRun_empty hcall, by simp, Nat.zero_le _, ?_⟩
        exact iff_of_false (fun h => hrs (List.map_eq_nil_iff.mp h.symm)) fun h => hmem h.1
      · refine ⟨_, err, batchRun_more hnil hcall hrest, herr, ?_, iff_of_false (fun h => ?_) fun h => hmem h.1⟩
        · rw [List.length_append, List.length_map]
          omega
        · have hcount := congrArg List.length h
          rw [List.length_append, List.length_map, List.length_map] at hcount
          omega

end Runs

/-- What `next_batch` returned is what `next` returned, or a call said why not. -/
def NoPacketLost (batched one : List TimedPacket × Option PyExc) : Prop :=
  batched.1 = one.1 ∨ batched.2 = some .memoryError

/-- Successive calls of `next_batch` lose no packet exactly where every batch is whole. -/
theorem next_batch_complete_iff (lib : Libpcap) (pp : PcapObject) (c : Capture)
    (hpcap : pp.pcap = some c) (hbrk : c.brk = false) (maxN : Nat → Int32) (reallocs : Nat → Bool)
    (calls : Nat) (hcalls : c.pending.length < calls) :
    ∃ batched one, batchRun lib { reallocs } calls maxN pp 0 = some batched ∧
      nextRun lib calls pp = some one ∧
      (NoPacketLost batched one ↔ BatchesWhole reallocs 0 (fun i => batchSize (maxN i)) c) := by
  rcases c with ⟨rs, e, brk⟩
  cases hbrk
  obtain ⟨ps, err, hrun, herr, -, hiff⟩ := batchRun_spec lib reallocs 0 pp hpcap hcalls maxN
  obtain ⟨err', hnext⟩ := nextRun_eq lib pp hpcap hcalls
  exact ⟨_, _, hrun, hnext, (or_iff_left herr).trans hiff⟩

theorem next_batch_complete_iff_three :
    ∃ batched one,
      batchRun .offline { reallocs := fun _ => false } 4 (fun _ => 2)
        ⟨some ⟨[udpRecord, udpRecord, udpRecord], .eof, false⟩, [], 0⟩ 0 = some batched ∧
      nextRun .offline 4 ⟨some ⟨[udpRecord, udpRecord, udpRecord], .eof, false⟩, [], 0⟩ = some one ∧
      NoPacketLost batched one := by
  obtain ⟨batched, one, h₁, h₂, hiff⟩ := next_batch_complete_iff .offline
    ⟨some ⟨[udpRecord, udpRecord, udpRecord], .eof, false⟩, [], 0⟩ _ rfl rfl (fun _ => 2)
    (fun _ => false) 4 (by decide)
  refine ⟨batched, one, h₁, h₂, hiff.mpr (batchesWhole_of_small nofun ?_)⟩
  exact (by decide : 126 ≤ 65536)

/-- A file truncated behind its first packet: `next` returns the packet, `next_batch(2)` raises
and it is gone. -/
theorem next_batch_discards_on_error :
    ∃ batched one,
      batchRun .offline { reallocs := fun _ => true } 2 (fun _ => 2)
        ⟨some ⟨[udpRecord], .error, false⟩, [], 0⟩ 0 = some batched ∧
      nextRun .offline 2 ⟨some ⟨[udpRecord], .error, false⟩, [], 0⟩ = some one ∧
      ¬ NoPacketLost batched one :=
  ⟨([], some (.pcapError "truncated dump file")), _, rfl, rfl, fun h => h.elim nofun nofun⟩

end PcapyNg
