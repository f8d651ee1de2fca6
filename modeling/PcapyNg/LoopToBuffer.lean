import PcapyNg.Library.BoundedLog
import PcapyNg.LoopFiltered

/-!
# `loop_to_buffer`: the same packets as records in a buffer

`BufferCallBack` keeps counters of its own and writes `[u32 caplen LE][u8 class][bytes]`
where `FilteredCallBack` calls Python. Both are run lemmas over the same classes, so the
two entry points are compared through them.
-/

namespace PcapyNg
open ReadLoop BoundedLog
set_option autoImplicit false

/-- The memory behind a `Py_buffer`; its length is a `Py_ssize_t`. -/
structure WritableBuf where
  bytes : Bytes
  small : bytes.length < 2 ^ 63
  deriving DecidableEq

structure BufferCtx extends Classifier where
  buf : Bytes
  cap : UInt64
  used : UInt64
  admitMask : Int32
  written : UInt64
  dropped : UInt64
  overflow : UInt64
  cls : List UInt64

def storeBytes : Bytes → Nat → Bytes → Except Fault Bytes
  | mem, _, [] => .ok mem
  | mem, i, b :: bs => if i < mem.length then storeBytes (mem.set i b) (i + 1) bs else .error .outOfBounds

/-- `BufferCallBack`, which never calls `pcap_breakloop`. -/
def bufferCallBack (b : BufferCtx) (r : Record) : Except Fault (BufferCtx × Bool) := do
  let (idx, flowtab) ← b.classify b.flowtab r
  let cls ← bump b.cls idx
  let b := { b with flowtab := flowtab, cls := cls }
  if (b.admitMask >>> Int32.ofNat idx) &&& 1 = 0 then
    return ({ b with dropped := b.dropped + 1 }, false)
  else
    let cl := r.hdr.caplen
    let need : UInt64 := (5 + cl).toUInt64
    if b.used + need > b.cap then return ({ b with overflow := b.overflow + 1 }, false)
    else
      let p := b.used.toNat
      let buf ← storeBytes b.buf p (bytesLE cl ++ [UInt8.ofNat (profileBase b.cfg + idx)])
      let buf ← storeBytes buf (p + 5) r.data
      return ({ b with buf := buf, used := b.used + need, written := b.written + 1 }, false)

def bufferProfileError : String := "profile must be 0 or 1"

def BufferCtx.start (cl : Classifier) (admitMask : Int32) (view : WritableBuf) : BufferCtx :=
  { cl with
    buf := view.bytes
    cap := UInt64.ofNat view.bytes.length
    used := 0
    admitMask := admitMask
    written := 0
    dropped := 0
    overflow := 0
    cls := List.replicate 6 0 }

def BufferCtx.result (b : BufferCtx) (profile : Int32) : List UInt64 :=
  b.written :: b.dropped :: b.overflow :: b.used :: if profile = 1 then b.cls.take 6 else b.cls.take 3

/-- `p_loop_to_buffer`; what `pcap_loop` returns is not looked at. -/
def pLoopToBuffer (lib : Libpcap) (alloc : LoopAlloc) (pp : PcapObject) (args : LoopArgs)
    (view : WritableBuf) : Except Fault (PyOutcome (List UInt64) × PcapObject × Bytes) :=
  match pp.pcap with
  | none => .ok (.raise errClosed, pp, view.bytes)
  | some c => do
    match ← loopSetup bufferProfileError alloc args with
    | .error e => return (.raise e, pp, view.bytes)
    | .ok cl =>
      let (_, c, last) := lib.loop (faultHandler bufferCallBack) args.cnt.toInt c
        (.ok (.start cl args.admitMask view))
      let last ← last
      return (.ret (last.result args.profile), { pp with pcap := some c }, last.buf)

/-! The record format. -/

def encodeEntry (x : UInt8 × Bytes) : Bytes := bytesLE (UInt32.ofNat x.2.length) ++ x.1 :: x.2

def decodeEntry (buf : Bytes) (off : Nat) : Option ((UInt8 × Bytes) × Nat) :=
  if off + 5 ≤ buf.length then
    let ln := (wordAt buf off).toNat
    if off + 5 + ln ≤ buf.length then
      some ((byteAt buf (off + 4), (buf.drop (off + 5)).take ln), off + 5 + ln)
    else none
  else none

def entrySize (x : UInt8 × Bytes) : Nat := 5 + x.2.length

theorem encodeEntry_length (x : UInt8 × Bytes) : (encodeEntry x).length = entrySize x := by
  simp [encodeEntry, entrySize]
  omega

/-- A record decodes wherever it stands, and its length leads to the next one. -/
theorem decodeEntry_encodeEntry {x : UInt8 × Bytes} (hx : x.2.length < 2 ^ 32) (pre post : Bytes) :
    decodeEntry (pre ++ (encodeEntry x ++ post)) pre.length =
      some (x, pre.length + (encodeEntry x).length) := by
  rcases x with ⟨tag, data⟩
  have hlen : (pre ++ (encodeEntry (tag, data) ++ post)).length =
      pre.length + (5 + data.length) + post.length := by
    simp [encodeEntry_length, entrySize]
    omega
  have hword : (wordAt (pre ++ (encodeEntry (tag, data) ++ post)) pre.length).toNat = data.length := by
    rw [encodeEntry, List.append_assoc, wordAt_bytesLE]
    exact UInt32.toNat_ofNat_of_lt' hx
  have htag : byteAt (pre ++ (encodeEntry (tag, data) ++ post)) (pre.length + 4) = tag := by
    rw [byteAt_append_right]
    rfl
  have hdata : ((pre ++ (encodeEntry (tag, data) ++ post)).drop (pre.length + 5)).take data.length =
      data := by
    rw [← List.drop_drop, List.drop_left' rfl]
    exact List.take_left' rfl
  rw [decodeEntry, if_pos (by omega)]
  simp only [hword, htag, hdata]
  rw [if_pos (by omega), encodeEntry_length, entrySize, Nat.add_assoc]

theorem storeBytes_eq {mem : Bytes} {i : Nat} {bs : Bytes} (h : i + bs.length ≤ mem.length) :
    storeBytes mem i bs = .ok (splice mem i bs) := by
  induction bs generalizing mem i with
  | nil => simp [storeBytes, splice]
  | cons b bs ih =>
    simp only [List.length_cons] at h
    have hset : mem.set i b = splice mem i [b] := by
      rw [List.set_eq_take_append_cons_drop, if_pos (by omega), splice, List.append_assoc]
      rfl
    rw [storeBytes, if_pos (by omega), ih (by rw [List.length_set]; omega), hset]
    exact congrArg Except.ok (splice_splice [b] bs (by omega))

theorem store_entry (mem : Bytes) (p : Nat) (x : UInt8 × Bytes) (h : p + entrySize x ≤ mem.length) :
    ∃ mem', storeBytes mem p (bytesLE (UInt32.ofNat x.2.length) ++ [x.1]) = .ok mem' ∧
      storeBytes mem' (p + 5) x.2 = .ok (splice mem p (encodeEntry x)) := by
  have hhead : (bytesLE (UInt32.ofNat x.2.length) ++ [x.1]).length = 5 := rfl
  have hsplit : encodeEntry x = (bytesLE (UInt32.ofNat x.2.length) ++ [x.1]) ++ x.2 := by
    simp [encodeEntry]
  unfold entrySize at h
  refine ⟨_, storeBytes_eq (by rw [hhead]; omega), ?_⟩
  rw [storeBytes_eq (by rw [splice_length (by rw [hhead]; omega)]; omega), hsplit]
  exact congrArg Except.ok (splice_splice _ _ (by omega))

/-! What the buffer holds after packets of known classes. -/

def entry (base : Nat) (x : Record × Nat) : UInt8 × Bytes := (UInt8.ofNat (base + x.2), x.1.data)

def offered (mask : Int32) (base : Nat) (rs : List Record) (ks : List Nat) : List (UInt8 × Bytes) :=
  (admitted mask rs ks).map (entry base)

/-- Of these, the records that fitted when they were offered. -/
def kept (mask : Int32) (base : Nat) (view : WritableBuf) (rs : List Record) (ks : List Nat) :
    List (UInt8 × Bytes) :=
  fits entrySize view.bytes.length 0 (offered mask base rs ks)

def BufferCtx.after (cl : Classifier) (mask : Int32) (view : WritableBuf) (flowtab : Option FlowTab)
    (rs : List Record) (ks : List Nat) : BufferCtx :=
  let base := profileBase cl.cfg
  { cl with
    flowtab := flowtab
    buf := logged encodeEntry view.bytes (kept mask base view rs ks)
    cap := UInt64.ofNat view.bytes.length
    used := UInt64.ofNat (total entrySize (kept mask base view rs ks))
    admitMask := mask
    written := UInt64.ofNat (kept mask base view rs ks).length
    dropped := UInt64.ofNat (ks.countP fun k => ¬ Admits mask k)
    overflow := UInt64.ofNat ((offered mask base rs ks).length - (kept mask base view rs ks).length)
    cls := tally ks }

section Run
variable {cl : Classifier} {mask : Int32} {view : WritableBuf}

theorem total_eq_length (xs : List (UInt8 × Bytes)) :
    total entrySize xs = (xs.flatMap encodeEntry).length := by
  rw [length_flatMap_eq_total]
  simp only [encodeEntry_length]

section Snoc
variable {base : Nat} {rs : List Record} {ks : List Nat} {r : Record} {k : Nat}

theorem kept_length_le (mask : Int32) (base : Nat) (view : WritableBuf) (rs : List Record)
    (ks : List Nat) : (kept mask base view rs ks).length ≤ (offered mask base rs ks).length :=
  (fits_sublist entrySize view.bytes.length 0 _).length_le

theorem kept_total_le (mask : Int32) (base : Nat) (view : WritableBuf) (rs : List Record)
    (ks : List Nat) : total entrySize (kept mask base view rs ks) ≤ view.bytes.length := by
  have h := fits_total_le entrySize view.bytes.length (Nat.zero_le _) (offered mask base rs ks)
  rwa [Nat.zero_add] at h

theorem offered_dropped (hlen : rs.length = ks.length) (hmask : ¬ Admits mask k) :
    offered mask base (rs ++ [r]) (ks ++ [k]) = offered mask base rs ks := by
  rw [offered, admitted_append mask hlen]
  simp [offered, admitted, hmask]

theorem offered_admitted (hlen : rs.length = ks.length) (hmask : Admits mask k) :
    offered mask base (rs ++ [r]) (ks ++ [k]) = offered mask base rs ks ++ [entry base (r, k)] := by
  rw [offered, admitted_append mask hlen]
  simp [offered, admitted, hmask]

theorem kept_dropped (hlen : rs.length = ks.length) (hmask : ¬ Admits mask k) :
    kept mask base view (rs ++ [r]) (ks ++ [k]) = kept mask base view rs ks := by
  rw [kept, offered_dropped hlen hmask, kept]

theorem kept_admitted (hlen : rs.length = ks.length) (hmask : Admits mask k) :
    kept mask base view (rs ++ [r]) (ks ++ [k]) = kept mask base view rs ks ++
      if total entrySize (kept mask base view rs ks) + (5 + r.data.length) ≤ view.bytes.length then
        [entry base (r, k)] else [] := by
  rw [kept, offered_admitted hlen hmask, fits_append, Nat.zero_add]
  rfl

variable (flowtab flowtab' : Option FlowTab)

theorem after_dropped (hlen : rs.length = ks.length) (hmask : ¬ Admits mask k) :
    BufferCtx.after cl mask view flowtab' (rs ++ [r]) (ks ++ [k]) =
      let b := BufferCtx.after cl mask view flowtab rs ks
      { b with flowtab := flowtab', cls := tally (ks ++ [k]), dropped := b.dropped + 1 } := by
  simp only [BufferCtx.after, kept_dropped hlen hmask, offered_dropped hlen hmask]
  simp [hmask, List.countP_append, UInt64.ofNat_add]

theorem after_overflow (hlen : rs.length = ks.length) (hmask : Admits mask k)
    (hroom : ¬ total entrySize (kept mask (profileBase cl.cfg) view rs ks) + (5 + r.data.length) ≤
      view.bytes.length) :
    BufferCtx.after cl mask view flowtab' (rs ++ [r]) (ks ++ [k]) =
      let b := BufferCtx.after cl mask view flowtab rs ks
      { b with flowtab := flowtab', cls := tally (ks ++ [k]), overflow := b.overflow + 1 } := by
  have hle := kept_length_le mask (profileBase cl.cfg) view rs ks
  simp only [BufferCtx.after, kept_admitted hlen hmask, if_neg hroom, List.append_nil,
    offered_admitted hlen hmask, List.length_append, List.length_singleton, Nat.sub_add_comm hle]
  simp [hmask, List.countP_append, UInt64.ofNat_add]

theorem after_written (hlen : rs.length = ks.length) (hmask : Admits mask k)
    (hroom : total entrySize (kept mask (profileBase cl.cfg) view rs ks) + (5 + r.data.length) ≤
      view.bytes.length) :
    BufferCtx.after cl mask view flowtab' (rs ++ [r]) (ks ++ [k]) =
      let b := BufferCtx.after cl mask view flowtab rs ks
      { b with
        flowtab := flowtab'
        cls := tally (ks ++ [k])
        buf := splice b.buf (total entrySize (kept mask (profileBase cl.cfg) view rs ks))
          (encodeEntry (entry (profileBase cl.cfg) (r, k)))
        used := b.used + UInt64.ofNat (5 + r.data.length)
        written := b.written + 1 } := by
  have hstep := splice_logged encodeEntry view.bytes
    (kept mask (profileBase cl.cfg) view rs ks) (entry (profileBase cl.cfg) (r, k))
  rw [← total_eq_length] at hstep
  simp only [BufferCtx.after, kept_admitted hlen hmask, if_pos hroom,
    offered_admitted hlen hmask, List.length_append, List.length_singleton, Nat.add_sub_add_right,
    total_append, total_cons, total_nil, hstep]
  simp [hmask, List.countP_append, UInt64.ofNat_add, entrySize, entry]

end Snoc

theorem need_toNat {r : Record} (hsmall : r.hdr.caplen.toNat + 5 < 2 ^ 32) :
    ((5 + r.hdr.caplen).toUInt64).toNat = 5 + r.data.length := by
  rw [UInt32.toNat_toUInt64, UInt32.toNat_add, r.captured]
  exact Nat.mod_eq_of_lt (by simp; omega)

theorem after_used_toNat (flowtab : Option FlowTab) (rs : List Record) (ks : List Nat) :
    (BufferCtx.after cl mask view flowtab rs ks).used.toNat =
      total entrySize (kept mask (profileBase cl.cfg) view rs ks) := by
  have htotal := kept_total_le mask (profileBase cl.cfg) view rs ks
  have hview := view.small
  exact UInt64.toNat_ofNat_of_lt' (by omega : _ < 2 ^ 64)

variable (cl mask view) in
/-- The 64-bit comparison of the callback is that of the sizes. -/
theorem after_full_iff (flowtab : Option FlowTab) (rs : List Record) (ks : List Nat) {r : Record}
    (hsmall : r.hdr.caplen.toNat + 5 < 2 ^ 32) :
    (BufferCtx.after cl mask view flowtab rs ks).used + (5 + r.hdr.caplen).toUInt64 >
        (BufferCtx.after cl mask view flowtab rs ks).cap ↔
      ¬ total entrySize (kept mask (profileBase cl.cfg) view rs ks) + (5 + r.data.length) ≤
        view.bytes.length := by
  have htotal := kept_total_le mask (profileBase cl.cfg) view rs ks
  have hview := view.small
  have hdata := r.captured
  have hcap : (BufferCtx.after cl mask view flowtab rs ks).cap.toNat = view.bytes.length :=
    UInt64.toNat_ofNat_of_lt' (by omega : _ < 2 ^ 64)
  rw [gt_iff_lt, UInt64.lt_iff_toNat_lt, UInt64.toNat_add, after_used_toNat, need_toNat hsmall, hcap,
    Nat.mod_eq_of_lt (by omega), Nat.not_le]

variable (mask view) in
/-- One packet, whether it is dropped, written or does not fit. -/
theorem bufferCallBack_eq {flowtab flowtab' : Option FlowTab} {rs : List Record} {ks : List Nat}
    {r : Record} {k : Nat} (hlen : rs.length = ks.length)
    (hk : cl.classify flowtab r = .ok (k, flowtab')) (hsmall : r.hdr.caplen.toNat + 5 < 2 ^ 32) :
    bufferCallBack (.after cl mask view flowtab rs ks) r =
      .ok (.after cl mask view flowtab' (rs ++ [r]) (ks ++ [k]), false) := by
  have hlt := classify_lt hk
  have hk' : (BufferCtx.after cl mask view flowtab rs ks).classify
      (BufferCtx.after cl mask view flowtab rs ks).flowtab r = .ok (k, flowtab') := hk
  have hcls : bump (BufferCtx.after cl mask view flowtab rs ks).cls k = .ok (tally (ks ++ [k])) :=
    bump_tally hlt
  have hfield : (BufferCtx.after cl mask view flowtab rs ks).admitMask = mask := rfl
  rw [bufferCallBack, hk']
  simp only [bind, Except.bind, hcls, hfield, admit_bit_iff hlt]
  by_cases hmask : Admits mask k
  · have hfull := after_full_iff cl mask view flowtab rs ks hsmall
    rw [if_neg (not_not_intro hmask)]
    by_cases hroom : total entrySize (kept mask (profileBase cl.cfg) view rs ks) +
        (5 + r.data.length) ≤ view.bytes.length
    · rw [after_written flowtab flowtab' hlen hmask hroom]
      have hbuf : (BufferCtx.after cl mask view flowtab rs ks).buf.length = view.bytes.length :=
        logged_length encodeEntry (by rw [← total_eq_length]; exact kept_total_le _ _ _ _ _)
      obtain ⟨mem', hhead, hdata⟩ := store_entry (BufferCtx.after cl mask view flowtab rs ks).buf
        (total entrySize (kept mask (profileBase cl.cfg) view rs ks))
        (entry (profileBase cl.cfg) (r, k)) (by rw [hbuf]; exact hroom)
      have hword : UInt32.ofNat r.data.length = r.hdr.caplen := by
        rw [r.captured, UInt32.ofNat_toNat]
      have hneed : (5 + r.hdr.caplen).toUInt64 = UInt64.ofNat (5 + r.data.length) := by
        rw [← need_toNat hsmall, UInt64.ofNat_toNat]
      have hbase : (BufferCtx.after cl mask view flowtab rs ks).cfg = cl.cfg := rfl
      simp only [entry, hword] at hhead hdata
      simp only [hfull, hroom, not_true_eq_false, if_false, after_used_toNat, hbase, hhead, hdata]
      rw [hneed]
      rfl
    · rw [after_overflow flowtab flowtab' hlen hmask hroom]
      simp only [hfull, hroom, not_false_eq_true, if_true]
      rfl
  · rw [if_pos hmask, after_dropped flowtab flowtab' hlen hmask]
    rfl

variable (mask view) in
/-- The run lemma: the handler never asks for a break and ends in `after`. -/
theorem buffer_feed {flowtab flowtab' : Option FlowTab} {rs rs' : List Record} {ks ks' : List Nat}
    (hlen : rs.length = ks.length) (hks : classifyAll cl.classify flowtab rs' = .ok (ks', flowtab'))
    (hsmall : ∀ r ∈ rs', r.hdr.caplen.toNat + 5 < 2 ^ 32) :
    feed (faultHandler bufferCallBack) (.ok (.after cl mask view flowtab rs ks)) rs' =
        .ok (.after cl mask view flowtab' (rs ++ rs') (ks ++ ks')) ∧
      Quiet (faultHandler bufferCallBack) (.ok (.after cl mask view flowtab rs ks)) rs' := by
  induction rs' generalizing flowtab rs ks ks' with
  | nil =>
    cases hks
    rw [List.append_nil, List.append_nil]
    exact ⟨rfl, trivial⟩
  | cons r rs' ih =>
    obtain ⟨k, f₁, ks₁, hk, hrest, rfl⟩ := classifyAll_cons_ok hks
    have hstep := bufferCallBack_eq mask view hlen hk (hsmall r (by simp))
    have hlen' : (rs ++ [r]).length = (ks ++ [k]).length := by simp [hlen]
    have hnext := ih hlen' hrest
      fun x hx => hsmall x (List.mem_cons_of_mem r hx)
    rw [List.append_assoc, List.append_assoc] at hnext
    rw [feed, Quiet, faultHandler, hstep]
    exact ⟨hnext.1, rfl, hnext.2⟩

end Run

theorem bufferCallBack_ok {b b' : BufferCtx} {r : Record} {brk : Bool}
    (h : bufferCallBack b r = .ok (b', brk)) :
    ∃ k, b.classify b.flowtab r = .ok (k, b'.flowtab) ∧ bump b.cls k = .ok b'.cls ∧
      b'.cfg = b.cfg ∧ b'.ioc = b.ioc ∧ b'.flowCutoff = b.flowCutoff := by
  rw [bufferCallBack] at h
  obtain ⟨⟨k, flowtab⟩, hk, h⟩ := bind_eq_ok.mp h
  obtain ⟨cls, hcls, h⟩ := bind_eq_ok.mp h
  refine ⟨k, ?_⟩
  simp only at h
  split at h
  · cases h
    exact ⟨hk, hcls, rfl, rfl, rfl⟩
  · split at h
    · cases h
      exact ⟨hk, hcls, rfl, rfl, rfl⟩
    · obtain ⟨head, -, h⟩ := bind_eq_ok.mp h
      obtain ⟨whole, -, h⟩ := bind_eq_ok.mp h
      cases h
      exact ⟨hk, hcls, rfl, rfl, rfl⟩

/-- What a run has gone through without a fault, it has classified and counted by class. -/
theorem buffer_feed_classified {b last : BufferCtx} {rs : List Record} {ks : List Nat}
    (hcls : b.cls = tally ks) (h : feed (faultHandler bufferCallBack) (.ok b) rs = .ok last) :
    ∃ ks' flowtab, classifyAll b.classify b.flowtab rs = .ok (ks', flowtab) ∧
      last.cls = tally (ks ++ ks') := by
  induction rs generalizing b ks with
  | nil =>
    cases h
    exact ⟨[], _, rfl, by rw [List.append_nil, hcls]⟩
  | cons r rs ih =>
    rw [feed, faultHandler] at h
    cases hstep : bufferCallBack b r with
    | error e =>
      rw [hstep] at h
      simp only [feed_fault] at h
      cases h
    | ok step =>
      rcases step with ⟨b', brk⟩
      rw [hstep] at h
      obtain ⟨k, hk, hbump, hcfg, hioc, hcut⟩ := bufferCallBack_ok hstep
      rw [hcls, bump_tally (classify_lt hk)] at hbump
      obtain ⟨ks', flowtab, hks, hlast⟩ := ih (Except.ok.inj hbump).symm h
      have hsame : b'.classify = b.classify := by
        unfold Classifier.classify
        rw [hcfg, hioc, hcut]
      rw [hsame] at hks
      refine ⟨k :: ks', flowtab, ?_, ?_⟩
      · rw [classifyAll, hk]
        simp only [bind, Except.bind, hks]
        rfl
      · rw [hlast, List.append_assoc]
        rfl

theorem loopSetup_text {text : String} (text' : String) {alloc : LoopAlloc} {args : LoopArgs}
    {cl : Classifier} (h : loopSetup text alloc args = .ok (.ok cl)) :
    loopSetup text' alloc args = .ok (.ok cl) := by
  have hcfg := loopSetup_cfg h
  have hcfg' : classCfg text' alloc args = .ok cl.cfg :=
    classCfg_eq_ok.mpr (classCfg_eq_ok.mp hcfg)
  rw [loopSetup, hcfg']
  rwa [loopSetup, hcfg] at h

def CallArgs.entry (a : CallArgs) : UInt8 × Bytes := (UInt8.ofNat (a.cls.getD 0).toNat, a.data)

theorem offered_eq (mask : Int32) (base : Nat) (rs : List Record) (ks : List Nat) :
    offered mask base rs ks = (delivered mask base rs ks).map CallArgs.entry := by
  rw [offered, delivered, List.map_map]
  apply List.map_congr_left
  intro x _
  simp only [entry, Function.comp, CallArgs.entry, callArgs, Option.getD_some]
  congr 1

theorem delivered_cls {mask : Int32} {base : Nat} {rs : List Record} {ks : List Nat}
    (hbase : base ≤ 100) (hks : ∀ k ∈ ks, k < 6) :
    ∀ a ∈ delivered mask base rs ks, a.cls = some (a.entry.1.toNat : Int) := by
  intro a ha
  obtain ⟨x, hx, rfl⟩ := List.mem_map.mp ha
  have hk := hks x.2 (List.of_mem_zip (List.mem_filter.mp hx).1).2
  have hcls : ((base : Int) + x.2).toNat = base + x.2 := by omega
  simp only [callArgs, CallArgs.entry, Option.getD_some, hcls, UInt8.toNat_ofNat']
  rw [Nat.mod_eq_of_lt (by omega)]
  push_cast
  rfl

section Method
variable (lib : Libpcap) (alloc : LoopAlloc) (pp : PcapObject) {c : Capture} {args : LoopArgs}
  {cl : Classifier} {ks : List Nat} {flowtab : Option FlowTab} (view : WritableBuf)

theorem loopToBuffer_eq (hpcap : pp.pcap = some c) (hbrk : c.brk = false)
    (hsetup : loopSetup bufferProfileError alloc args = .ok (.ok cl))
    (hks : cl.classes (due args.cnt.toInt c.pending) = .ok (ks, flowtab))
    (hsmall : ∀ r ∈ c.pending, r.hdr.caplen.toNat + 5 < 2 ^ 32) :
    ∃ c', pLoopToBuffer lib alloc pp args view =
      .ok (.ret ((BufferCtx.after cl args.admitMask view flowtab
            (due args.cnt.toInt c.pending) ks).result args.profile),
        { pp with pcap := some c' },
        (BufferCtx.after cl args.admitMask view flowtab (due args.cnt.toInt c.pending) ks).buf) := by
  rcases c with ⟨rs, e, brk⟩
  cases hbrk
  have hdue : ∀ r ∈ due args.cnt.toInt rs, r.hdr.caplen.toNat + 5 < 2 ^ 32 := by
    intro r hr
    apply hsmall
    rw [← due_prefix args.cnt.toInt rs]
    exact List.mem_append_left _ hr
  have hnone : ([] : List Record).length = ([] : List Nat).length := rfl
  obtain ⟨hfeed, hquiet⟩ := buffer_feed args.admitMask view hnone hks hdue
  obtain ⟨ret, c', last, hrun, hloop⟩ := lib.loop_run (faultHandler bufferCallBack) args.cnt.toInt
    ⟨rs, e, false⟩ (.ok (.start cl args.admitMask view))
  obtain ⟨hlast, -⟩ := hloop.quiet hquiet
  obtain rfl : last = _ := hlast.trans hfeed
  refine ⟨c', ?_⟩
  rw [pLoopToBuffer, hpcap]
  simp only [hsetup, bind, Except.bind, hrun]
  rfl

theorem offered_length (mask : Int32) (base : Nat) {rs : List Record} {ks : List Nat}
    (hlen : ks.length = rs.length) :
    (offered mask base rs ks).length = ks.countP fun k => Admits mask k := by
  rw [offered, List.length_map, admitted, ← List.countP_eq_length_filter]
  have hsnd : (rs.zip ks).map Prod.snd = ks := List.map_snd_zip hlen.le
  conv_rhs => rw [← hsnd, List.countP_map]
  rfl

theorem after_decodes (cl : Classifier) (ks : List Nat) (flowtab : Option FlowTab) (mask : Int32)
    (rs : List Record) :
    let b := BufferCtx.after cl mask view flowtab rs ks
    let written := kept mask (profileBase cl.cfg) view rs ks
    decodeMany decodeEntry b.buf b.written.toNat 0 = some (written, b.used.toNat) ∧
      b.used.toNat ≤ view.bytes.length ∧ b.buf.length = view.bytes.length ∧
      ∀ i, b.used.toNat ≤ i → b.buf[i]? = view.bytes[i]? := by
  intro b written
  have htotal : total entrySize written ≤ view.bytes.length := kept_total_le _ _ _ _ _
  have hview := view.small
  have hused : b.used.toNat = (written.flatMap encodeEntry).length := by
    rw [← total_eq_length]
    exact UInt64.toNat_ofNat_of_lt' (by omega : total entrySize written < 2 ^ 64)
  have hcount : written.length ≤ total entrySize written := by
    have hle := List.length_le_sum_of_one_le (written.map entrySize)
      (by simp [entrySize]; omega)
    rwa [List.length_map] at hle
  have hwritten : b.written.toNat = written.length :=
    UInt64.toNat_ofNat_of_lt' (by omega : written.length < 2 ^ 64)
  have hdata : ∀ x ∈ written, x.2.length < 2 ^ 32 := by
    intro x hx
    obtain ⟨y, hy, rfl⟩ := List.mem_map.mp ((fits_sublist entrySize view.bytes.length 0 _).subset hx)
    exact y.1.packet.small
  refine ⟨?_, ?_, ?_, ?_⟩
  · rw [hwritten, hused]
    exact decodeMany_logged fun x hx => decodeEntry_encodeEntry (hdata x hx)
  · rwa [hused, ← total_eq_length]
  · exact logged_length encodeEntry (by rw [← total_eq_length]; exact htotal)
  · rw [hused]
    exact fun i hi => logged_beyond encodeEntry hi

end Method

/-- The counters of `loop_filtered`, in terms of what the buffer got. -/
theorem liveCounts_kept (mask : Int32) (base : Nat) (view : WritableBuf) {rs : List Record}
    {ks : List Nat} (hlen : ks.length = rs.length) :
    liveCounts mask ks =
      (UInt64.ofNat (kept mask base view rs ks).length +
          UInt64.ofNat ((offered mask base rs ks).length - (kept mask base view rs ks).length)) ::
        UInt64.ofNat (ks.countP fun k => ¬ Admits mask k) :: tally ks := by
  rw [← UInt64.ofNat_add, Nat.add_sub_cancel' (kept_length_le _ _ _ _ _), offered_length _ _ hlen]
  rfl

/-- The buffer gets what `loop_filtered` delivers, as far as it fits, with the same counts. -/
theorem loop_to_buffer_refines (lib : Libpcap) (alloc : LoopAlloc) (pp : PcapObject) (c : Capture)
    (hpcap : pp.pcap = some c) (hbrk : c.brk = false) (args : LoopArgs) (cl : Classifier)
    (hsetup : loopSetup bufferProfileError alloc args = .ok (.ok cl)) (ks : List Nat)
    (flowtab : Option FlowTab)
    (hks : cl.classes (due args.cnt.toInt c.pending) = .ok (ks, flowtab))
    (hsmall : ∀ r ∈ c.pending, r.hdr.caplen.toNat + 5 < 2 ^ 32) (view : WritableBuf) (f : PyFunc)
    (hf : ∀ before a, f before a = none) :
    ∃ written dropped overflow used cls c₁ c₂ buf o made,
      pLoopToBuffer lib alloc pp args view =
        .ok (.ret (written :: dropped :: overflow :: used ::
          if args.profile = 1 then cls.take 6 else cls.take 3), { pp with pcap := some c₁ }, buf) ∧
      pLoopFiltered lib alloc pp args f =
        .ok (o, ⟨some c₂, (written + overflow) :: dropped :: cls, args.profile⟩, made) ∧
      (¬ CutShort args.cnt.toInt c →
        o = .ret (reported args.profile ((written + overflow) :: dropped :: cls))) ∧
      (∀ a ∈ made, a.cls = some (a.entry.1.toNat : Int)) ∧
      let all := made.map CallArgs.entry
      let room := fits entrySize view.bytes.length 0 all
      decodeMany decodeEntry buf written.toNat 0 = some (room, used.toNat) ∧
      used.toNat ≤ view.bytes.length ∧
      (total entrySize all ≤ view.bytes.length → overflow = 0 ∧ room = all) ∧
      buf.length = view.bytes.length ∧ ∀ i, used.toNat ≤ i → buf[i]? = view.bytes[i]? := by
  have hsetup' := loopSetup_text filteredProfileError hsetup
  have hbase : profileBase cl.cfg ≤ 100 := by
    rw [loopSetup_base hsetup]
    split <;> omega
  have hlen : ks.length = _ := classifyAll_length hks
  obtain ⟨c₁, hbuffer⟩ := loopToBuffer_eq lib alloc pp view hpcap hbrk hsetup hks hsmall
  obtain ⟨c₂, -, hfiltered⟩ := loopFiltered_quiet lib alloc pp args f hpcap hbrk hsetup' hks
    (firstRaise_of_never hf _ _)
  rw [liveCounts_kept args.admitMask (profileBase cl.cfg) view hlen] at hfiltered
  obtain ⟨hdecode, hused, hlength, hbeyond⟩ :=
    after_decodes view cl ks flowtab args.admitMask
      (due args.cnt.toInt c.pending)
  refine ⟨_, _, _, _, _, c₁, c₂, _, _, _, hbuffer, hfiltered, fun hcut => if_neg hcut,
    delivered_cls hbase fun k hk => ?_, ?_⟩
  · exact classifyAll_mem (P := (· < 6)) (fun _ _ _ _ h => classify_lt h) hks k hk
  · rw [← offered_eq]
    refine ⟨hdecode, hused, fun hroom => ?_, hlength, hbeyond⟩
    have hall : kept args.admitMask (profileBase cl.cfg) view (due args.cnt.toInt c.pending) ks =
        offered args.admitMask (profileBase cl.cfg) (due args.cnt.toInt c.pending) ks :=
      fits_of_room entrySize _ (by rw [Nat.zero_add]; exact hroom)
    refine ⟨?_, hall⟩
    rw [BufferCtx.after]
    simp only [hall, Nat.sub_self]
    rfl

theorem loop_to_buffer_refines_twice :
    ∃ written dropped overflow used cls c₁ buf,
      pLoopToBuffer .offline {} ⟨some ⟨[udpRecord, udpRecord], .eof, false⟩, [], 0⟩ { cnt := -1 }
          ⟨List.replicate 60 0, by decide⟩ =
        .ok (.ret (written :: dropped :: overflow :: used :: cls), ⟨some c₁, [], 0⟩, buf) ∧
      decodeMany decodeEntry buf written.toNat 0 = some ([(0, udpRecord.data)], used.toNat) := by
  obtain ⟨written, dropped, overflow, used, cls, c₁, c₂, buf, o, made, hbuffer, hfiltered, -, -,
    hdecode, -⟩ := loop_to_buffer_refines .offline {}
      ⟨some ⟨[udpRecord, udpRecord], .eof, false⟩, [], 0⟩ _ rfl rfl { cnt := -1 } _ rfl [0, 0] _ rfl
      (by decide) ⟨List.replicate 60 0, by decide⟩ (fun _ _ => none) (fun _ _ => rfl)
  obtain rfl : made = List.replicate 2 ⟨udpRecord.hdr, udpRecord.data, some 0⟩ := by
    have h := congrArg (Except.map fun x => x.2.2) hfiltered
    exact (Except.ok.inj h).symm
  exact ⟨_, _, _, _, _, _, _, hbuffer, hdecode⟩

/-! Read errors. -/

def ReportsReadError {α : Type} (o : PyOutcome α) : Prop := ∃ text, o = .raise (.pcapError text)

/-- Both entry points raise exactly for a capture cut short. -/
def ReportAlike {α β : Type} (cut : Prop) (buffer : PyOutcome α) (filtered : PyOutcome β) : Prop :=
  (ReportsReadError buffer ↔ ReportsReadError filtered) ∧ (ReportsReadError filtered ↔ cut) ∧
    (buffer.value.isSome → ¬ cut)

theorem reportsReadError_ite {α : Type} {cut : Prop} [Decidable cut] (text : String) (a : α) :
    ReportsReadError (if cut then .raise (.pcapError text) else .ret a) ↔ cut := by
  by_cases hcut : cut
  · rw [if_pos hcut]
    exact iff_of_true ⟨text, rfl⟩ hcut
  · rw [if_neg hcut]
    exact iff_of_false nofun hcut

end PcapyNg
