import Mathlib.Data.Rat.Defs
import PcapyNg.GenPcap
import PcapyNg.Library.ProbeCost

/-!
# The probe analysis of the address set

The script that reimplements the table of `ipset_build` in Python, for the index in use and for
the one used before, and counts the slots that a lookup looks at. Its table with the index in use
is the table of the C code, and its counts are the rounds of `ipset_has`.
-/

namespace PcapyNg
open LinearProbing
set_option autoImplicit false

/-- `struct.unpack('<I', struct.pack('!I', ip))[0]` -/
def toWord (ip : UInt32) : UInt32 := wordAt (int2bytes ip) 0

/-- Multiply, then mask. -/
def indexOld (v mask _bits : Nat) : Nat := (v * 2654435761) &&& 0xffffffff &&& mask

/-- Multiply, then take the high bits. -/
def indexNew (v _mask bits : Nat) : Nat := ((v * 2654435761) &&& 0xffffffff) >>> (32 - bits)

/-- `while cap < n * 2 + 1 and bits < 31: cap <<= 1; bits += 1` -/
def growTable (n cap bits : Nat) : Nat × Nat :=
  if cap < n * 2 + 1 ∧ bits < 31 then growTable n (cap <<< 1) (bits + 1) else (cap, bits)
termination_by 31 - bits

def slotAt (slots : List UInt32) (j : Nat) : Except Fault UInt32 :=
  match slots[j]? with
  | some s => .ok s
  | none => .error .outOfBounds

/-- `while slots[j] and slots[j] != v: j = (j + 1) & mask; p += 1` -/
def placeFrom (slots : List UInt32) (mask : Nat) (v : UInt32) :
    Nat → Nat → Nat → Except Fault (Nat × Nat)
  | 0, _, _ => .error .diverges
  | fuel + 1, j, p => do
    let s ← slotAt slots j
    if s ≠ 0 ∧ s ≠ v then placeFrom slots mask v fuel ((j + 1) &&& mask) (p + 1) else return (j, p)

/-- One round of the loop over the addresses, on the slots and `worst_insert`. -/
def addIp (index : Nat → Nat → Nat → Nat) (mask bits : Nat) (st : List UInt32 × Nat) (ip : UInt32) :
    Except Fault (List UInt32 × Nat) := do
  let v := toWord ip
  if v = 0 then return st
  else
    let (j, p) ← placeFrom st.1 mask v (mask + 1) (index v.toNat mask bits) 1
    return (st.1.set j v, max st.2 p)

structure ProbeTable where
  slots : List UInt32
  mask : Nat
  bits : Nat
  worstInsert : Nat

def buildTable (ips : List UInt32) (index : Nat → Nat → Nat → Nat) : Except Fault ProbeTable := do
  let (cap, bits) := growTable ips.length 16 4
  let mask := cap - 1
  let (slots, worst) ← ips.foldlM (addIp index mask bits) (List.replicate cap 0, 0)
  return ⟨slots, mask, bits, worst⟩

/-- The loop of `probe_stats` for one key. -/
def countFrom (slots : List UInt32) (mask : Nat) (v : UInt32) : Nat → Nat → Nat → Except Fault Nat
  | 0, _, _ => .error .diverges
  | fuel + 1, j, p => do
    let s ← slotAt slots j
    if s = 0 then return p
    else if s = v then return p
    else countFrom slots mask v fuel ((j + 1) &&& mask) (p + 1)

def probeCount (t : ProbeTable) (index : Nat → Nat → Nat → Nat) (ip : UInt32) : Except Fault Nat :=
  let v := toWord ip
  countFrom t.slots t.mask v (t.mask + 1) (index v.toNat t.mask t.bits) 1

structure ProbeStats where
  mean : ℚ
  median : Nat
  p99 : Nat
  max : Nat
  deriving DecidableEq

/-- `probe_stats`; without keys the mean is a `ZeroDivisionError`. `cut n` is `int(n * 0.99)`, in
floating point. -/
def probeStats (cut : Nat → Nat) (t : ProbeTable) (index : Nat → Nat → Nat → Nat)
    (keys : List UInt32) : Except Fault (Option ProbeStats) := do
  let counts := (← keys.mapM (probeCount t index)).mergeSort
  let n := counts.length
  match counts.getLast? with
  | none => return none
  | some last =>
    return some ⟨counts.sum / n, counts.getD (n / 2) 0, counts.getD (min (n - 1) (cut n)) 0, last⟩

/-! Sizes and indexes. -/

theorem toWord_eq (ip : UInt32) : toWord ip = swap32 ip := by
  have hbytes : int2bytes ip = bytesLE (swap32 ip) := (bytesLE_swap32 ip).symm
  rw [toWord, hbytes]
  exact wordLE_bytesLE _

theorem toWord_ne_zero {ip : UInt32} (h : ip ≠ 0) : toWord ip ≠ 0 := by
  rw [toWord_eq]
  exact fun h0 => h (swap32_inj (w := 0) h0)

/-- An index below the size of the table. -/
def InTable (index : Nat → Nat → Nat → Nat) : Prop :=
  ∀ v bits, bits ≤ 31 → index v (2 ^ bits - 1) bits < 2 ^ bits

theorem inTable_old : InTable indexOld := by
  intro v bits _
  have hpos := Nat.two_pow_pos bits
  have hle : indexOld v (2 ^ bits - 1) bits ≤ 2 ^ bits - 1 := Nat.and_le_right
  omega

theorem low_32 (n : Nat) : n &&& 0xffffffff = n % 2 ^ 32 := Nat.and_two_pow_sub_one_eq_mod n 32

theorem inTable_new : InTable indexNew := by
  intro v bits hbits
  rw [indexNew, low_32, Nat.shiftRight_eq_div_pow, Nat.div_lt_iff_lt_mul (Nat.two_pow_pos _),
    ← Nat.pow_add, Nat.add_sub_cancel' (by omega : bits ≤ 32)]
  exact Nat.mod_lt _ (Nat.two_pow_pos 32)

/-- The table of `n` addresses has as many slots as that of the C code. -/
theorem growTable_eq {n cap b : UInt32} {fuel : Nat} (hn : n.toNat ≤ 2 ^ 30)
    (hfuel : b.toNat + fuel = 31) (hcap : cap.toNat = 2 ^ b.toNat) :
    growTable n.toNat cap.toNat b.toNat =
      ((ipsetGrow n fuel cap b).1.toNat, (ipsetGrow n fuel cap b).2.toNat) := by
  have htwice : (n * 2 + 1).toNat = n.toNat * 2 + 1 := by
    simp [UInt32.toNat_add, UInt32.toNat_mul]
    omega
  induction fuel generalizing cap b with
  | zero => rw [growTable, if_neg (by omega), ipsetGrow]
  | succ fuel ih =>
    have hpow : 2 ^ (b.toNat + 1) ≤ 2 ^ 31 := Nat.pow_le_pow_right (by decide) (by omega)
    have hcond : (cap < n * 2 + 1 ∧ b < 31) ↔ (cap.toNat < n.toNat * 2 + 1 ∧ b.toNat < 31) := by
      rw [UInt32.lt_iff_toNat_lt, UInt32.lt_iff_toNat_lt, htwice]
      rfl
    have hb : (b + 1).toNat = b.toNat + 1 := by
      rw [UInt32.toNat_add, UInt32.toNat_one]
      omega
    have hdouble : (cap <<< 1).toNat = cap.toNat <<< 1 := by
      rw [UInt32.toNat_shiftLeft, hcap]
      simp [Nat.shiftLeft_eq, Nat.pow_succ] at hpow ⊢
      omega
    rw [growTable, ipsetGrow]
    by_cases h : cap < n * 2 + 1 ∧ b < 31
    · rw [if_pos h, if_pos (hcond.mp h), ← hdouble, ← hb]
      apply ih (by omega)
      rw [hdouble, hcap, hb, Nat.shiftLeft_eq, ← Nat.pow_add]
    · rw [if_neg h, if_neg (fun hc => h (hcond.mpr hc))]

/-- `bits` for a set of `n` addresses -/
def tableBits (n : Nat) : Nat := (growTable n 16 4).2

theorem growTable_spec {n : Nat} (hn : n ≤ 2 ^ 30) :
    growTable n 16 4 = (2 ^ tableBits n, tableBits n) ∧ 4 ≤ tableBits n ∧ tableBits n ≤ 31 ∧
      n < 2 ^ tableBits n ∧
      (ipsetGrow (UInt32.ofNat n) 27 16 4).1.toNat = 2 ^ tableBits n := by
  have hword : (UInt32.ofNat n).toNat = n := UInt32.toNat_ofNat_of_lt' (by omega : n < 2 ^ 32)
  have hgrow := @growTable_eq (UInt32.ofNat n) 16 4 27 (by omega) rfl rfl
  obtain ⟨bits, hlow, hhigh, hcap, hbits, -⟩ :=
    ipsetGrow_spec (UInt32.ofNat n) 27 4 16 4 rfl rfl le_rfl rfl
  have hfits := ipsetGrow_fits (n := UInt32.ofNat n) (by omega)
  have h16 : (16 : UInt32).toNat = 16 := rfl
  have h4 : (4 : UInt32).toNat = 4 := rfl
  rw [hword, h16, h4, hcap, hbits] at hgrow
  have htable : tableBits n = bits := by rw [tableBits, hgrow]
  rw [htable]
  exact ⟨hgrow, hlow, hhigh, by omega, hcap⟩

/-! The list of slots and the table of the library. -/

/-- The slots are those of the table `t`. -/
structure SameSlots (bits : Nat) (slots : List UInt32) (t : UInt32 → UInt32) : Prop where
  length : slots.length = 2 ^ bits
  slot : ∀ j : UInt32, j.toNat < 2 ^ bits → slotAt slots j.toNat = .ok (t j)

section Walk
variable {mask v : UInt32} {bits : Nat} (hmask : mask.toNat = 2 ^ bits - 1) (hhigh : bits ≤ 31)
  {slots : List UInt32} {t : UInt32 → UInt32} (hsame : SameSlots bits slots t)
include hmask hhigh

theorem next_slot {j : UInt32} (hj : j.toNat < 2 ^ bits) :
    (j.toNat + 1) &&& (2 ^ bits - 1) = ((j + 1) &&& mask).toNat ∧
      ((j + 1) &&& mask).toNat < 2 ^ bits := by
  have hpow : 2 ^ bits ≤ 2 ^ 31 := Nat.pow_le_pow_right (by decide) hhigh
  have hsucc : (j + 1).toNat = j.toNat + 1 := by
    rw [UInt32.toNat_add, UInt32.toNat_one]
    omega
  rw [and_mask_toNat hmask, hsucc, Nat.and_two_pow_sub_one_eq_mod]
  exact ⟨rfl, Nat.mod_lt _ (Nat.two_pow_pos bits)⟩

include hsame

theorem placeFrom_of_scan {fuel : Nat} {j r : UInt32} (hj : j.toNat < 2 ^ bits) (p : Nat)
    (h : scan (fun j => (j + 1) &&& mask) (stopsAt 0 t v) fuel j = some r) :
    ∃ q, placeFrom slots (2 ^ bits - 1) v fuel j.toNat p = .ok (r.toNat, q) ∧
      r.toNat < 2 ^ bits := by
  induction fuel generalizing j p with
  | zero => cases h
  | succ fuel ih =>
    obtain ⟨hnext, hlt⟩ := next_slot hmask hhigh hj
    rw [placeFrom, hsame.slot j hj]
    simp only [bind, Except.bind, pure, Except.pure]
    rw [scan] at h
    by_cases hstop : t j = 0 ∨ t j = v
    · have hs : stopsAt 0 t v j = true := by simpa [stopsAt] using hstop
      rw [if_pos hs] at h
      obtain rfl := Option.some.inj h
      rw [if_neg fun hc => hstop.elim hc.1 hc.2]
      exact ⟨p, rfl, hj⟩
    · have hs : ¬ stopsAt 0 t v j = true := by simpa [stopsAt] using hstop
      rw [if_neg hs] at h
      rw [if_pos (not_or.mp hstop), hnext]
      exact ih hlt (p + 1) h

theorem countFrom_eq {fuel : Nat} {j : UInt32} (hj : j.toNat < 2 ^ bits) (p : Nat) :
    countFrom slots (2 ^ bits - 1) v fuel j.toNat (p + 1) =
      orDiverges ((scanCount (fun j => (j + 1) &&& mask) (stopsAt 0 t v) fuel j).map (p + ·)) := by
  induction fuel generalizing j p with
  | zero => rfl
  | succ fuel ih =>
    obtain ⟨hnext, hlt⟩ := next_slot hmask hhigh hj
    rw [countFrom, hsame.slot j hj, scanCount]
    simp only [bind, Except.bind, pure, Except.pure]
    by_cases hzero : t j = 0
    · simp [stopsAt, hzero]
    · by_cases hv : t j = v
      · simp [stopsAt, hv]
      · rw [if_neg hzero, if_neg hv, hnext, ih hlt (p + 1)]
        simp [stopsAt, hzero, hv, Option.map_map, Function.comp_def, Nat.add_comm,
          Nat.add_left_comm]

omit hmask hhigh in
theorem sameSlots_update {r : UInt32} (hr : r.toNat < 2 ^ bits) :
    SameSlots bits (slots.set r.toNat v) (Function.update t r v) := by
  refine ⟨by rw [List.length_set, hsame.length], fun j hj => ?_⟩
  have hslot := hsame.slot j hj
  rw [slotAt] at hslot ⊢
  by_cases hjr : j = r
  · subst hjr
    rw [List.getElem?_set_self (by rw [hsame.length]; exact hr), Function.update_self]
  · have hne : r.toNat ≠ j.toNat := fun h => hjr (UInt32.toNat_inj.mp h).symm
    rw [List.getElem?_set_ne hne, Function.update_of_ne hjr]
    exact hslot

end Walk

/-- The mask of a table with `2 ^ bits` slots, and where an address belongs in it. -/
def tableMask (bits : Nat) : UInt32 := UInt32.ofNat (2 ^ bits - 1)

def tableHome (index : Nat → Nat → Nat → Nat) (bits : Nat) (v : UInt32) : UInt32 :=
  UInt32.ofNat (index v.toNat (2 ^ bits - 1) bits)

section Table
variable {bits : Nat} (hhigh : bits ≤ 31)
include hhigh

theorem tableMask_toNat : (tableMask bits).toNat = 2 ^ bits - 1 := by
  have hpow : 2 ^ bits ≤ 2 ^ 31 := Nat.pow_le_pow_right (by decide) hhigh
  exact UInt32.toNat_ofNat_of_lt' (by omega : 2 ^ bits - 1 < 2 ^ 32)

/-- The cycle of the slots. -/
def tableCycle : ProbeCycle UInt32 :=
  slotCycle (tableMask bits) bits (tableMask_toNat hhigh) hhigh

theorem card_tableCycle : (tableCycle hhigh).slots.card = 2 ^ bits := card_slotsUpTo hhigh

variable {index : Nat → Nat → Nat → Nat} (hindex : InTable index)
include hindex

theorem tableHome_toNat (v : UInt32) :
    (tableHome index bits v).toNat = index v.toNat (2 ^ bits - 1) bits := by
  have hpow : 2 ^ bits ≤ 2 ^ 31 := Nat.pow_le_pow_right (by decide) hhigh
  have hlt := hindex v.toNat bits hhigh
  exact UInt32.toNat_ofNat_of_lt' (by omega : index v.toNat (2 ^ bits - 1) bits < 2 ^ 32)

theorem tableHome_mem (v : UInt32) : tableHome index bits v ∈ (tableCycle hhigh).slots := by
  apply (mem_slotsUpTo hhigh _).mpr
  rw [tableHome_toNat hhigh hindex]
  exact hindex v.toNat bits hhigh

/-- The loop over the addresses inserts their words. -/
theorem foldlM_addIp {ips : List UInt32} {slots : List UInt32} {t t' : UInt32 → UInt32}
    (hsame : SameSlots bits slots t) (worst : Nat)
    (h : insertAll (tableCycle hhigh) (tableHome index bits) 0 (ips.map toWord) t = some t') :
    ∃ slots' worst', ips.foldlM (addIp index (2 ^ bits - 1) bits) (slots, worst) =
      .ok (slots', worst') ∧ SameSlots bits slots' t' := by
  induction ips generalizing slots t worst with
  | nil =>
    cases h
    exact ⟨slots, worst, rfl, hsame⟩
  | cons ip ips ih =>
    rw [List.map_cons, insertAll] at h
    rw [List.foldlM_cons, addIp]
    by_cases hv : toWord ip = 0
    · rw [if_pos hv] at h
      rw [if_pos hv]
      exact ih hsame worst h
    · rw [if_neg hv] at h
      rw [if_neg hv]
      obtain ⟨t₁, hins, hrest⟩ := Option.bind_eq_some_iff.mp h
      obtain ⟨r, hr, rfl⟩ := Option.map_eq_some_iff.mp hins
      have hhome := tableHome_toNat hhigh hindex (toWord ip)
      have hpos := Nat.two_pow_pos bits
      have hfuel : (tableCycle hhigh).slots.card = 2 ^ bits - 1 + 1 := by
        rw [card_tableCycle]
        omega
      rw [locate, hfuel] at hr
      obtain ⟨q, hplace, hslot⟩ := placeFrom_of_scan (tableMask_toNat hhigh) hhigh hsame
        (by rw [hhome]; exact hindex _ bits hhigh) 1 hr
      rw [hhome] at hplace
      simp only [bind, Except.bind, hplace, pure, Except.pure]
      exact ih (sameSlots_update hsame hslot) (max worst q) hrest

end Table

/-- The table of `build_table` as a table of the library. -/
structure Built (index : Nat → Nat → Nat → Nat) (ips : List UInt32) (T : ProbeTable)
    (t : UInt32 → UInt32) : Prop where
  high : T.bits ≤ 31
  bits : T.bits = tableBits ips.length
  mask : T.mask = 2 ^ T.bits - 1
  same : SameSlots T.bits T.slots t
  filled : insertAll (tableCycle high) (tableHome index T.bits) 0 (ips.map toWord) (fun _ => 0) =
    some t
  gap : HasGap (tableCycle high) 0 t

section Build
variable {index : Nat → Nat → Nat → Nat} (hindex : InTable index) {ips : List UInt32}
include hindex

theorem buildTable_built (hmax : ips.length ≤ 2 ^ 30) :
    ∃ T t, buildTable ips index = .ok T ∧ Built index ips T t := by
  obtain ⟨hgrow, -, hhigh, hroom, -⟩ := growTable_spec hmax
  have hfew : ((ips.map toWord).toFinset.erase 0).card < (tableCycle hhigh).slots.card := by
    rw [card_tableCycle]
    calc ((ips.map toWord).toFinset.erase 0).card
        ≤ (ips.map toWord).toFinset.card := Finset.card_erase_le
      _ ≤ (ips.map toWord).length := List.toFinset_card_le _
      _ = ips.length := List.length_map _
      _ < 2 ^ tableBits ips.length := hroom
  obtain ⟨t, ht, hgap⟩ := insertAll_isSome (tableHome_mem hhigh hindex) (ips.map toWord)
    reachable_empty distinct_const (by rwa [stored_const, Finset.empty_union])
  have hempty : SameSlots (tableBits ips.length) (List.replicate (2 ^ tableBits ips.length) 0)
      fun _ => 0 := by
    refine ⟨List.length_replicate, fun j hj => ?_⟩
    rw [slotAt, List.getElem?_replicate_of_lt hj]
  obtain ⟨slots, worst, hfold, hsame⟩ := foldlM_addIp hhigh hindex hempty 0 ht
  refine ⟨⟨slots, 2 ^ tableBits ips.length - 1, tableBits ips.length, worst⟩, t, ?_,
    ⟨hhigh, rfl, rfl, hsame, ht, hgap⟩⟩
  rw [buildTable, hgrow]
  simp only [bind, Except.bind, hfold]
  rfl

/-- What is counted for a key is what the library counts. -/
theorem probeCount_eq {T : ProbeTable} {t : UInt32 → UInt32} (h : Built index ips T t)
    (ip : UInt32) : ∃ p,
      probes (tableCycle h.high) (tableHome index T.bits) 0 t (toWord ip) = some p ∧
        probeCount T index ip = .ok p := by
  have hpos := Nat.two_pow_pos T.bits
  have hhome := tableHome_toNat h.high hindex (toWord ip)
  obtain ⟨j, hj⟩ := Option.isSome_iff_exists.mp
    (locate_isSome (tableHome_mem h.high hindex) h.gap (toWord ip))
  obtain ⟨k, hk, -⟩ := probes_of_locate hj
  refine ⟨k + 1, hk, ?_⟩
  have hcount := @countFrom_eq _ (toWord ip) _ (tableMask_toNat h.high) h.high _ _ h.same
    (tableCycle h.high).slots.card _ (by rw [hhome]; exact hindex _ T.bits h.high) 0
  rw [hhome] at hcount
  have hfuel : (tableCycle h.high).slots.card = 2 ^ T.bits - 1 + 1 := by
    rw [card_tableCycle]
    omega
  rw [probeCount, h.mask, ← hfuel]
  refine hcount.trans ?_
  have hscan : scanCount (fun j => (j + 1) &&& tableMask T.bits) (stopsAt 0 t (toWord ip))
      (tableCycle h.high).slots.card (tableHome index T.bits (toWord ip)) = some (k + 1) := hk
  rw [hscan, Option.map_some, Nat.zero_add]
  rfl

/-- The count as a number. -/
def probeCost (index : Nat → Nat → Nat → Nat) {bits : Nat} (hhigh : bits ≤ 31)
    (t : UInt32 → UInt32) (v : UInt32) : Nat :=
  (probes (tableCycle hhigh) (tableHome index bits) 0 t v).getD 0

theorem probeCount_cost {T : ProbeTable} {t : UInt32 → UInt32} (h : Built index ips T t)
    (ip : UInt32) : probeCount T index ip = .ok (probeCost index h.high t (toWord ip)) := by
  obtain ⟨p, hp, hcount⟩ := probeCount_eq hindex h ip
  rw [hcount, probeCost, hp, Option.getD_some]

end Build

/-! The table of the C code. -/

theorem mem_words {ips : List UInt32} {ip : UInt32} : toWord ip ∈ ips.map toWord ↔ ip ∈ ips := by
  rw [List.mem_map]
  constructor
  · rintro ⟨x, hx, hw⟩
    rw [toWord_eq, toWord_eq] at hw
    rwa [← swap32_inj hw]
  · exact fun h => ⟨ip, h, rfl⟩

theorem tableHome_new {bits : Nat} (hhigh : bits ≤ 31) (hlow : 4 ≤ bits) {shift : UInt32}
    (hshift : shift.toNat = 32 - bits) : tableHome indexNew bits = ipsetSlot shift := by
  funext v
  have hmul : (v * 2654435761).toNat = v.toNat * 2654435761 % 2 ^ 32 := UInt32.toNat_mul _ _
  rw [← UInt32.toNat_inj, tableHome_toNat hhigh inTable_new, indexNew, low_32, ipsetSlot,
    UInt32.toNat_shiftRight, hshift, hmul, Nat.mod_eq_of_lt (by omega : 32 - bits < 32)]

/-- The table that `ipset_build` makes of the packed addresses. -/
theorem ipsetBuild_built {ips : List UInt32} (hmax : ips.length ≤ 2 ^ 30) {T : ProbeTable}
    {t : UInt32 → UInt32} (h : Built indexNew ips T t) :
    ∃ s : AddrSet, ipsetBuild {} (addrBytes ips) = .ok (some s.table) ∧ s.table.slots = t ∧
      s.bits = T.bits := by
  have hlen : (addrBytes ips).length = 4 * ips.length := by
    rw [addrBytes_eq, packed_length, List.length_map]
  have hcount : (addrBytes ips).length / 4 = ips.length := by omega
  obtain ⟨-, hlow, -, -, hsize⟩ := growTable_spec hmax
  obtain ⟨mask, shift, bits, hmask, hhigh, hlow', hshift, hcap, hbuild⟩ :=
    ipsetBuild_eq (addrBytes ips)
  rw [hcount, hsize, ← h.bits] at hcap
  obtain rfl : T.bits = bits := Nat.pow_right_injective le_rfl hcap
  obtain rfl : mask = tableMask T.bits :=
    UInt32.toNat_inj.mp (hmask.trans (tableMask_toNat h.high).symm)
  have hwords : insertedWords (addrBytes ips) = ips.map toWord := by
    have hpacked := packedWords_flatMap (ips.map swap32)
    rw [← addrBytes_eq, packedWords, hcount] at hpacked
    have hn : (UInt32.ofNat ips.length).toNat = ips.length :=
      UInt32.toNat_ofNat_of_lt' (by omega : ips.length < 2 ^ 32)
    rw [insertedWords, hcount, hn, (funext toWord_eq : toWord = swap32), ← hpacked]
    apply List.map_congr_left
    intro i hi
    rw [List.mem_range] at hi
    rw [Nat.mod_eq_of_lt (by omega)]
  have hfilled := h.filled
  rw [tableHome_new hhigh hlow' hshift, ← hwords] at hfilled
  obtain ⟨s, hs, -⟩ := addrSet_of_fill hmask hhigh hlow' hshift hfilled h.gap
  refine ⟨s, ?_, by rw [hs], ?_⟩
  · rw [hbuild, hs]
    exact congrArg (fun o => (orDiverges o).map _) hfilled
  · have hs' : s.table.shift.toNat = 32 - T.bits := by rw [hs, hshift]
    have hshift' := s.shift_eq
    have hhigh' := s.high
    omega

/-- The table of the analysis with the index in use is that of `ipset_build`, and what it counts
for an address are the rounds that the loop of `ipset_has` takes. -/
theorem probes_are_rounds (ips : List UInt32) (hmax : ips.length ≤ 2 ^ 30) :
    ∃ T s, buildTable ips indexNew = .ok T ∧ ipsetBuild {} (addrBytes ips) = .ok (some s) ∧
      s.shift.toNat = 32 - T.bits ∧ SameSlots T.bits T.slots s.slots ∧
      ∀ ip, ip ≠ 0 → ∃ p, probeCount T indexNew ip = .ok p ∧
        p ≤ (ips.toFinset.erase 0).card + 1 ∧
        ∀ rounds, ipsetHasFrom s.slots (0xffffffff >>> s.shift) (toWord ip) rounds
            (ipsetSlot s.shift (toWord ip)) =
          if p ≤ rounds then .ok (decide (ip ∈ ips)) else .error .diverges := by
  obtain ⟨T, t, hT, hbuilt⟩ := buildTable_built inTable_new hmax
  obtain ⟨s, hs, rfl, hbits⟩ := ipsetBuild_built hmax hbuilt
  have hshift := s.shift_eq
  rw [hbits] at hshift
  have hlow := s.low
  rw [hbits] at hlow
  refine ⟨T, s.table, hT, hs, hshift, hbuilt.same, fun ip hip => ?_⟩
  obtain ⟨p, hp, hcount⟩ := probeCount_eq inTable_new hbuilt ip
  have hhome := tableHome_mem hbuilt.high inTable_new
  obtain ⟨hreach, hpresent⟩ := insertAll_present hhome _ reachable_empty hbuilt.filled
  have hd := insertAll_distinct hhome _ reachable_empty distinct_const hbuilt.filled
  refine ⟨p, hcount, ?_, fun rounds => ?_⟩
  · apply (probes_le hhome hp).trans
    rw [← card_stored hd]
    apply Nat.succ_le_succ
    have hsub : stored (tableCycle hbuilt.high) 0 s.table.slots ⊆
        (ips.toFinset.erase 0).image toWord := by
      intro w hw
      obtain ⟨hne, hin⟩ := mem_stored.mp hw
      rw [hpresent w hne, or_iff_left (not_present_const hne)] at hin
      obtain ⟨x, hx, rfl⟩ := List.mem_map.mp hin
      refine Finset.mem_image.mpr ⟨x, Finset.mem_erase.mpr ⟨?_, List.mem_toFinset.mpr hx⟩, rfl⟩
      rintro rfl
      exact hne rfl
    exact (Finset.card_le_card hsub).trans Finset.card_image_le
  · have hw := toWord_ne_zero hip
    have hmask : 0xffffffff >>> s.table.shift = tableMask T.bits := by
      rw [← UInt32.toNat_inj, s.lookup_mask, hbits, tableMask_toNat hbuilt.high]
    obtain ⟨b, hfind, hb⟩ := find_eq hhome hbuilt.gap hreach hw
    rw [find, locate_of_probes hp, Option.map_some, Option.some.injEq] at hfind
    have hanswer : b = decide (ip ∈ ips) := by
      rw [Bool.eq_iff_iff, hb, decide_eq_true_iff, hpresent _ hw, or_iff_left (not_present_const hw),
        mem_words]
    have hrounds : scan (fun j => (j + 1) &&& tableMask T.bits)
        (stopsAt 0 s.table.slots (toWord ip)) rounds (tableHome indexNew T.bits (toWord ip)) = _ :=
      scan_rounds hp rounds
    rw [ipsetHasFrom_eq_scan _ _ hw, hmask, ← tableHome_new hbuilt.high hlow hshift, hrounds]
    by_cases hle : p ≤ rounds
    · rw [if_pos hle, if_pos hle, Option.map_some, hfind, hanswer]
      rfl
    · rw [if_neg hle, if_neg hle]
      rfl

/-- The table of 10.0.0.1 and 10.0.0.14, which have one home slot. -/
def clashTable : ProbeTable where
  slots := ((List.replicate 16 0).set 13 (toWord 0x0a000001)).set 14 (toWord 0x0a00000e)
  mask := 15
  bits := 4
  worstInsert := 2

theorem buildTable_clash : buildTable [0x0a000001, 0x0a00000e] indexNew = .ok clashTable := by
  have hgrow : growTable 2 16 4 = (16, 4) := by
    rw [growTable]
    rfl
  have hlen : [0x0a000001, (0x0a00000e : UInt32)].length = 2 := rfl
  rw [buildTable, hlen, hgrow]
  rfl

/-- Two addresses of one home slot: the second is found in the second round and not before it. -/
theorem probes_are_rounds_two :
    ∃ s, ipsetBuild {} (addrBytes [0x0a000001, 0x0a00000e]) = .ok (some s) ∧
      ipsetSlot s.shift (toWord 0x0a000001) = ipsetSlot s.shift (toWord 0x0a00000e) ∧
      SameSlots 4 clashTable.slots s.slots ∧
      probeCount clashTable indexNew 0x0a00000e = .ok 2 ∧
      ∀ rounds, ipsetHasFrom s.slots (0xffffffff >>> s.shift) (toWord 0x0a00000e) rounds
          (ipsetSlot s.shift (toWord 0x0a00000e)) =
        if 2 ≤ rounds then .ok true else .error .diverges := by
  obtain ⟨T, s, hT, hs, hshift, hsame, hrounds⟩ :=
    probes_are_rounds [0x0a000001, 0x0a00000e] (by decide)
  obtain rfl : clashTable = T := Except.ok.inj (buildTable_clash.symm.trans hT)
  obtain ⟨p, hp, -, hloop⟩ := hrounds 0x0a00000e (by decide)
  have hcount : probeCount clashTable indexNew 0x0a00000e = .ok 2 := by decide
  obtain rfl : 2 = p := Except.ok.inj (hcount.symm.trans hp)
  have hs28 : s.shift = 28 := UInt32.toNat_inj.mp hshift
  refine ⟨s, hs, ?_, hsame, hcount, hloop⟩
  rw [hs28]
  decide

/-! The counts of a table. -/

/-- The figures for a list of counts. -/
def figures (cut : Nat → Nat) (counts : List Nat) : Option ProbeStats :=
  let n := counts.mergeSort.length
  counts.mergeSort.getLast?.map fun last =>
    ⟨counts.mergeSort.sum / n, counts.mergeSort.getD (n / 2) 0,
      counts.mergeSort.getD (min (n - 1) (cut n)) 0, last⟩

section Figures
variable (cut : Nat → Nat)

theorem probeStats_of_counts {T : ProbeTable} {index : Nat → Nat → Nat → Nat} {keys : List UInt32}
    {counts : List Nat} (h : keys.mapM (probeCount T index) = .ok counts) :
    probeStats cut T index keys = .ok (figures cut counts) := by
  rw [probeStats, h, figures]
  simp only [bind, Except.bind]
  cases counts.mergeSort.getLast? <;> rfl

theorem probeStats_eq {T : ProbeTable} {index : Nat → Nat → Nat → Nat} {count : UInt32 → Nat}
    {keys : List UInt32} (h : ∀ ip ∈ keys, probeCount T index ip = .ok (count ip)) :
    probeStats cut T index keys = .ok (figures cut (keys.map count)) :=
  probeStats_of_counts cut (mapM_ok h)

theorem figures_mean (counts : List Nat) :
    (figures cut counts).map ProbeStats.mean =
      if counts.length = 0 then none else some ((counts.sum : ℚ) / counts.length) := by
  have hperm := List.mergeSort_perm counts (· ≤ ·)
  rw [figures, Option.map_map, hperm.sum_eq, hperm.length_eq]
  by_cases hnil : counts = []
  · subst hnil
    rw [List.mergeSort_nil]
    rfl
  · have hsorted : counts.mergeSort ≠ [] := fun h => hnil (h ▸ hperm).symm.eq_nil
    rw [if_neg fun h => hnil (List.length_eq_zero_iff.mp h), List.getLast?_eq_some_getLast hsorted]
    rfl

end Figures

/-- Members in any order: the counts of all of them add up to the cost of the hits. -/
theorem sum_costs {keys ips : List UInt32} (hnodup : keys.Nodup)
    (hkeys : ∀ ip, ip ∈ keys ↔ ip ∈ ips ∧ ip ≠ 0) (cost : UInt32 → Nat) :
    (keys.map fun ip => cost (toWord ip)).sum =
      ∑ w ∈ (ips.map toWord).toFinset.erase 0, cost w := by
  have hinj : Function.Injective toWord := by
    intro x y h
    rw [toWord_eq, toWord_eq] at h
    exact swap32_inj h
  have hset : (ips.map toWord).toFinset.erase 0 = (keys.map toWord).toFinset := by
    ext w
    rw [Finset.mem_erase, List.mem_toFinset, List.mem_toFinset, List.mem_map, List.mem_map]
    constructor
    · rintro ⟨hne, ip, hip, rfl⟩
      refine ⟨ip, (hkeys ip).mpr ⟨hip, ?_⟩, rfl⟩
      rintro rfl
      exact hne rfl
    · rintro ⟨ip, hip, rfl⟩
      obtain ⟨hin, hne⟩ := (hkeys ip).mp hip
      exact ⟨toWord_ne_zero hne, ip, hin, rfl⟩
  rw [hset, List.sum_toFinset _ (hnodup.map hinj), List.map_map]
  rfl

/-- With either index, what a lookup of an absent address costs, and what the lookups of all
members cost on average, does not depend on the order in which the addresses were inserted. -/
theorem probe_stats_order_free (cut : Nat → Nat) {index : Nat → Nat → Nat → Nat}
    (hindex : index = indexOld ∨ index = indexNew) {ips ips' : List UInt32}
    (hmax : ips.length ≤ 2 ^ 30) (hlen : ips'.length = ips.length)
    (hsame : ∀ ip, ip ≠ 0 → (ip ∈ ips ↔ ip ∈ ips')) :
    ∃ T T', buildTable ips index = .ok T ∧ buildTable ips' index = .ok T' ∧
      (∀ keys : List UInt32, (∀ ip ∈ keys, ip ≠ 0 ∧ ip ∉ ips) →
        probeStats cut T index keys = probeStats cut T' index keys) ∧
      ∀ keys keys' : List UInt32, keys.Nodup → (∀ ip, ip ∈ keys ↔ ip ∈ ips ∧ ip ≠ 0) →
        keys'.Perm keys → ∃ s s', probeStats cut T index keys = .ok s ∧
          probeStats cut T' index keys' = .ok s' ∧ s.map ProbeStats.mean = s'.map ProbeStats.mean := by
  have hin : InTable index := by
    rcases hindex with rfl | rfl
    · exact inTable_old
    · exact inTable_new
  obtain ⟨T, t, hT, hbuilt⟩ := buildTable_built hin hmax
  obtain ⟨T', t', hT', hbuilt'⟩ := buildTable_built hin (hlen ▸ hmax)
  refine ⟨T, T', hT, hT', ?_⟩
  clear hT hT'
  rcases T' with ⟨slots', mask', bits', worst'⟩
  have hbits : bits' = T.bits := hbuilt'.bits.trans (hlen ▸ hbuilt.bits.symm)
  subst hbits
  have hcount := probeCount_cost hin hbuilt
  have hcount' := probeCount_cost hin hbuilt'
  have hwords : ∀ w, w ≠ 0 → (w ∈ ips.map toWord ↔ w ∈ ips'.map toWord) := by
    intro w hw
    obtain ⟨ip, rfl⟩ : ∃ ip, toWord ip = w := ⟨swap32 w, by rw [toWord_eq, swap32_swap32]⟩
    rw [mem_words, mem_words]
    apply hsame
    rintro rfl
    exact hw rfl
  obtain ⟨hmiss, hsum⟩ := insertAll_probes (tableHome_mem hbuilt.high hin) hwords hbuilt.filled
    hbuilt.gap hbuilt'.filled hbuilt'.gap
  constructor
  · intro keys hkeys
    rw [probeStats_eq cut fun ip _ => hcount ip, probeStats_eq cut fun ip _ => hcount' ip]
    have hcosts : keys.map (fun ip => probeCost index hbuilt.high t (toWord ip)) =
        keys.map fun ip => probeCost index hbuilt'.high t' (toWord ip) := by
      apply List.map_congr_left
      intro ip hip
      obtain ⟨hne, hout⟩ := hkeys ip hip
      rw [probeCost, hmiss _ (toWord_ne_zero hne) fun h => hout (mem_words.mp h)]
      rfl
    rw [hcosts]
  · intro keys keys' hnodup hkeys hperm
    refine ⟨_, _, probeStats_eq cut fun ip _ => hcount ip, probeStats_eq cut fun ip _ => hcount' ip, ?_⟩
    have hkeys' : ∀ ip, ip ∈ keys' ↔ ip ∈ ips ∧ ip ≠ 0 := fun ip => hperm.mem_iff.trans (hkeys ip)
    have htotal := sum_costs hnodup hkeys (probeCost index hbuilt.high t)
    have htotal' := sum_costs (hperm.nodup_iff.mpr hnodup) hkeys' (probeCost index hbuilt'.high t')
    have heq : (keys.map fun ip => probeCost index hbuilt.high t (toWord ip)).sum =
        (keys'.map fun ip => probeCost index hbuilt'.high t' (toWord ip)).sum :=
      htotal.trans (hsum.trans htotal'.symm)
    simp only [figures_mean, List.length_map, heq, hperm.length_eq]

theorem probe_stats_order_free_two :
    ∃ T T', buildTable [0x0a000001, 0x08080808] indexOld = .ok T ∧
      buildTable [0x08080808, 0x0a000001] indexOld = .ok T' ∧
      probeStats (fun n => n * 99 / 100) T indexOld [0x01010101] = probeStats (fun n => n * 99 / 100) T' indexOld [0x01010101] := by
  obtain ⟨T, T', hT, hT', hmiss, -⟩ := @probe_stats_order_free (fun n => n * 99 / 100)
    indexOld (Or.inl rfl) [0x0a000001, 0x08080808] [0x08080808, 0x0a000001] (by decide) rfl
    (fun ip _ => by rw [List.mem_pair, List.mem_pair, or_comm])
  exact ⟨T, T', hT, hT', hmiss [0x01010101] (by simp)⟩

/-! One block of 256 addresses. -/

/-- `ip2int` of `a.b.c.d` -/
def ip2int (a b c d : UInt8) : UInt32 := wordLE d c b a

theorem toWord_ip2int (a b c d : UInt8) : toWord (ip2int a b c d) = wordLE a b c d := by
  rw [toWord_eq, swap32, ip2int, bytesLE_wordLE]
  rfl

/-- The size is the first power that is large enough. -/
theorem growTable_bounds {n k : Nat} (hk : k ≤ 31) (hsmall : k = 4 ∨ 2 ^ k < 2 * (2 * n + 1)) :
    (2 * n + 1 ≤ 2 ^ (growTable n (2 ^ k) k).2 ∨ (growTable n (2 ^ k) k).2 = 31) ∧
      ((growTable n (2 ^ k) k).2 = 4 ∨ 2 ^ (growTable n (2 ^ k) k).2 < 2 * (2 * n + 1)) := by
  induction hd : 31 - k generalizing k with
  | zero =>
    rw [growTable, if_neg (by omega)]
    exact ⟨Or.inr (by omega), hsmall⟩
  | succ d ih =>
    have hdouble : 2 ^ k <<< 1 = 2 ^ (k + 1) := by rw [Nat.shiftLeft_eq, ← Nat.pow_add]
    rw [growTable, hdouble]
    by_cases h : 2 ^ k < n * 2 + 1 ∧ k < 31
    · rw [if_pos h]
      apply ih (by omega) (Or.inr _) (by omega)
      rw [Nat.pow_succ]
      omega
    · rw [if_neg h]
      refine ⟨Or.inl ?_, hsmall⟩
      simp only
      omega

theorem tableBits_block {n : Nat} (hlow : 64 ≤ n) (hhigh : n ≤ 256) :
    8 ≤ tableBits n ∧ tableBits n ≤ 24 := by
  obtain ⟨hroom, hsmall⟩ := @growTable_bounds n 4 (by decide) (Or.inl rfl)
  have hbits : (growTable n (2 ^ 4) 4).2 = tableBits n := rfl
  rw [hbits] at hroom hsmall
  constructor
  · by_contra hfew
    have hpow : 2 ^ tableBits n ≤ 2 ^ 7 := Nat.pow_le_pow_right (by decide) (by omega)
    omega
  · by_contra hmany
    have hpow : 2 ^ 25 ≤ 2 ^ tableBits n := Nat.pow_le_pow_right (by decide) (by omega)
    omega

section Block
variable (a b c : UInt8)

/-- The old index of an address comes from its first three octets. -/
theorem indexOld_block {bits : Nat} (hbits : bits ≤ 24) (d d' : UInt8) :
    indexOld (wordLE a b c d).toNat (2 ^ bits - 1) bits =
      indexOld (wordLE a b c d').toNat (2 ^ bits - 1) bits := by
  have hdvd : 2 ^ bits ∣ 2 ^ 24 := Nat.pow_dvd_pow 2 hbits
  have hdvd' : 2 ^ bits ∣ 2 ^ 32 := Nat.pow_dvd_pow 2 (by omega)
  have hlow : ∀ d : UInt8, indexOld (wordLE a b c d).toNat (2 ^ bits - 1) bits =
      (a.toNat + 2 ^ 8 * b.toNat + 2 ^ 16 * c.toNat) * 2654435761 % 2 ^ bits := by
    intro d
    obtain ⟨m, hm⟩ := hdvd
    rw [indexOld, low_32, Nat.and_two_pow_sub_one_eq_mod, Nat.mod_mod_of_dvd _ hdvd', wordLE_value, hm]
    have hsum : (a.toNat + 2 ^ 8 * b.toNat + 2 ^ 16 * c.toNat + 2 ^ bits * m * d.toNat) * 2654435761 =
        (a.toNat + 2 ^ 8 * b.toNat + 2 ^ 16 * c.toNat) * 2654435761 +
          2 ^ bits * (m * d.toNat * 2654435761) := by ring
    rw [hsum, Nat.add_mul_mod_self_left]
  rw [hlow, hlow]

/-- The new index tells the addresses of a block apart: the top byte of the product takes the last
octet by an odd factor. -/
theorem indexNew_block {bits : Nat} (hlow : 8 ≤ bits) (hhigh : bits ≤ 31) {mask : Nat} {d d' : UInt8}
    (h : indexNew (wordLE a b c d).toNat mask bits = indexNew (wordLE a b c d').toNat mask bits) :
    d = d' := by
  have htop : ∀ d : UInt8, indexNew (wordLE a b c d).toNat mask bits / 2 ^ (bits - 8) =
      ((a.toNat + 2 ^ 8 * b.toNat + 2 ^ 16 * c.toNat) * 2654435761 / 2 ^ 24 +
        d.toNat * 2654435761) % 2 ^ 8 := by
    intro d
    rw [indexNew, low_32, Nat.shiftRight_eq_div_pow, Nat.div_div_eq_div_mul, ← Nat.pow_add,
      (by omega : 32 - bits + (bits - 8) = 24), wordLE_value]
    have hsum : (a.toNat + 2 ^ 8 * b.toNat + 2 ^ 16 * c.toNat + 2 ^ 24 * d.toNat) * 2654435761 =
        (a.toNat + 2 ^ 8 * b.toNat + 2 ^ 16 * c.toNat) * 2654435761 +
          2 ^ 24 * (d.toNat * 2654435761) := by ring
    rw [hsum, ← Nat.add_mul_div_left _ _ (by decide : 0 < 2 ^ 24)]
    exact Nat.mod_mul_right_div_self _ (2 ^ 24) (2 ^ 8)
  have heq : _ ≡ _ [MOD 2 ^ 8] :=
    (htop d).symm.trans ((congrArg (· / 2 ^ (bits - 8)) h).trans (htop d'))
  have hodd : Nat.gcd (2 ^ 8) 2654435761 = 1 := rfl
  have hlast := (heq.add_left_cancel' _).cancel_right_of_coprime hodd
  exact UInt8.toNat_inj.mp (hlast.eq_of_lt_of_lt d.toNat_lt d'.toNat_lt)

theorem wordLE_host {d d' : UInt8} (h : wordLE a b c d = wordLE a b c d') : d = d' :=
  (wordLE_inj.mp h).2.2.2

theorem block_nonzero (hnet : ¬ (a = 0 ∧ b = 0 ∧ c = 0)) (d : UInt8) : wordLE a b c d ≠ 0 := by
  intro h
  have hzero : wordLE a b c d = wordLE 0 0 0 0 := h
  obtain ⟨ha, hb, hc, -⟩ := wordLE_inj.mp hzero
  exact hnet ⟨ha, hb, hc⟩

end Block

theorem hosts_le {hosts : List UInt8} (hnodup : hosts.Nodup) : hosts.length ≤ 256 := by
  have hinj : Function.Injective UInt8.toNat := fun x y h => UInt8.toNat_inj.mp h
  have hsub : (hosts.map UInt8.toNat).toFinset ⊆ Finset.range 256 := by
    intro n hn
    obtain ⟨d, -, rfl⟩ := List.mem_map.mp (List.mem_toFinset.mp hn)
    exact Finset.mem_range.mpr d.toNat_lt
  have hcard := Finset.card_le_card hsub
  rwa [List.toFinset_card_of_nodup (hnodup.map hinj), List.length_map, Finset.card_range] at hcard

section Rows
variable (cut : Nat → Nat) {n : Nat} (hn : 0 < n)
include hn

theorem figures_row : figures cut (List.range' 1 n) =
    some ⟨(n + 1) / 2, n / 2 + 1, min (n - 1) (cut n) + 1, n⟩ := by
  have hsorted : (List.range' 1 n).mergeSort = List.range' 1 n := by
    apply List.mergeSort_of_pairwise
    exact (List.pairwise_le_range' 1).imp fun h => decide_eq_true h
  have hsum : (List.range' 1 n).sum * 2 = n * (n + 1) := by
    clear hn hsorted
    induction n with
    | zero => rfl
    | succ n ih =>
      rw [List.range'_concat, List.sum_append, Nat.add_mul, ih, List.sum_singleton]
      ring
  have hlast : (List.range' 1 n).getLast? = some n := by
    obtain ⟨m, rfl⟩ : ∃ m, n = m + 1 := ⟨n - 1, by omega⟩
    rw [List.range'_concat, List.getLast?_concat]
    congr 1
    omega
  have hat : ∀ i < n, (List.range' 1 n).getD i 0 = i + 1 := by
    intro i hi
    rw [List.getD_eq_getElem?_getD, List.getElem?_eq_getElem (by rwa [List.length_range']),
      Option.getD_some, List.getElem_range']
    omega
  have hmean : ((List.range' 1 n).sum : ℚ) / n = (n + 1) / 2 := by
    have hq : ((List.range' 1 n).sum : ℚ) * 2 = n * (n + 1) := by exact_mod_cast hsum
    have hn' : (n : ℚ) ≠ 0 := by exact_mod_cast hn.ne'
    rw [div_eq_div_iff hn' two_ne_zero, hq]
    ring
  simp only [figures, hsorted, hlast, Option.map_some, List.length_range']
  rw [hat _ (by omega), hat _ (by omega), hmean]

theorem figures_ones : figures cut (List.replicate n 1) = some ⟨1, 1, 1, 1⟩ := by
  have hsorted : (List.replicate n 1).mergeSort = List.replicate n 1 :=
    List.eq_replicate_iff.mpr ⟨by rw [List.length_mergeSort, List.length_replicate],
      fun x hx => List.eq_of_mem_replicate ((List.mergeSort_perm _ _).mem_iff.mp hx)⟩
  have hat : ∀ i < n, (List.replicate n 1).getD i 0 = 1 := by
    intro i hi
    rw [List.getD_eq_getElem?_getD, List.getElem?_replicate_of_lt hi, Option.getD_some]
  have hn' : (n : ℚ) ≠ 0 := by exact_mod_cast hn.ne'
  simp only [figures, hsorted, List.getLast?_replicate, if_neg hn.ne', Option.map_some,
    List.length_replicate]
  rw [hat _ (by omega), hat _ (by omega), List.sum_replicate_nat, mul_one, div_self hn']

end Rows

section Hosts
variable (a b c : UInt8) (hnet : ¬ (a = 0 ∧ b = 0 ∧ c = 0)) {hosts : List UInt8}

theorem words_of_hosts :
    (hosts.map (ip2int a b c)).map toWord = hosts.map (wordLE a b c) := by
  rw [List.map_map]
  exact List.map_congr_left fun d _ => toWord_ip2int a b c d

include hnet in
theorem hosts_nonzero : ∀ w ∈ hosts.map (wordLE a b c), w ≠ 0 := by
  intro w hw
  obtain ⟨d, -, rfl⟩ := List.mem_map.mp hw
  exact block_nonzero a b c hnet d

variable (hnodup : hosts.Nodup) (hmany : 64 ≤ hosts.length)
include hnet hnodup hmany

/-- With the old index the hosts share a slot, so the lookups cost one more each, in the order of
insertion. -/
theorem block_old : ∃ old, buildTable (hosts.map (ip2int a b c)) indexOld = .ok old ∧
    (∀ d d', indexOld (toWord (ip2int a b c d)).toNat old.mask old.bits =
      indexOld (toWord (ip2int a b c d')).toNat old.mask old.bits) ∧
    (hosts.map (ip2int a b c)).mapM (probeCount old indexOld) =
      .ok (List.range' 1 hosts.length) := by
  have hfew := hosts_le hnodup
  have hlen : (hosts.map (ip2int a b c)).length = hosts.length := List.length_map _
  obtain ⟨-, -, -, hroom, -⟩ := growTable_spec (n := hosts.length) (by omega)
  have hhigh := (tableBits_block hmany hfew).2
  have hdistinct : (hosts.map (wordLE a b c)).Nodup := hnodup.map fun d d' => wordLE_host a b c
  obtain ⟨old, t, hold, hbuilt⟩ := buildTable_built inTable_old
    (by omega : (hosts.map (ip2int a b c)).length ≤ 2 ^ 30)
  have hbits := hbuilt.bits
  have hfilled := hbuilt.filled
  rw [hlen] at hbits
  rw [words_of_hosts] at hfilled
  have hslot : ∀ d d', indexOld (wordLE a b c d).toNat (2 ^ old.bits - 1) old.bits =
      indexOld (wordLE a b c d').toNat (2 ^ old.bits - 1) old.bits :=
    indexOld_block a b c (hbits ▸ hhigh)
  have hone : ∀ w ∈ hosts.map (wordLE a b c), tableHome indexOld old.bits w =
      tableHome indexOld old.bits (wordLE a b c 0) := by
    intro w hw
    obtain ⟨d, -, rfl⟩ := List.mem_map.mp hw
    exact congrArg UInt32.ofNat (hslot d 0)
  refine ⟨old, hold, fun d d' => ?_, ?_⟩
  · rw [toWord_ip2int, toWord_ip2int, hbuilt.mask]
    exact hslot d d'
  rw [mapM_ok fun ip _ => probeCount_cost inTable_old hbuilt ip]
  congr 1
  apply List.ext_getElem
  · simp
  · intro i hi hi'
    simp only [List.length_map] at hi
    have hprobes := probes_of_one_home (tableHome_mem hbuilt.high inTable_old) hone hdistinct
      (hosts_nonzero a b c hnet) (by rw [List.length_map, card_tableCycle, hbits]; exact hroom.le)
      hfilled (i := i) (by rwa [List.length_map])
    simp only [List.getElem_map, List.getElem_range', toWord_ip2int, probeCost] at hprobes ⊢
    rw [hprobes, Option.getD_some]
    omega

/-- With the new index no two hosts share a slot. -/
theorem block_new : ∃ new, buildTable (hosts.map (ip2int a b c)) indexNew = .ok new ∧
    (hosts.map (ip2int a b c)).mapM (probeCount new indexNew) =
      .ok (List.replicate hosts.length 1) := by
  have hfew := hosts_le hnodup
  have hlen : (hosts.map (ip2int a b c)).length = hosts.length := List.length_map _
  have hlow := (tableBits_block hmany hfew).1
  obtain ⟨new, t, hnew, hbuilt⟩ := buildTable_built inTable_new
    (by omega : (hosts.map (ip2int a b c)).length ≤ 2 ^ 30)
  have hbits := hbuilt.bits
  have hfilled := hbuilt.filled
  rw [hlen] at hbits
  rw [words_of_hosts] at hfilled
  have hapart : ∀ v ∈ hosts.map (wordLE a b c), ∀ w ∈ hosts.map (wordLE a b c),
      tableHome indexNew new.bits v = tableHome indexNew new.bits w → v = w := by
    intro v hv w hw h
    obtain ⟨d, -, rfl⟩ := List.mem_map.mp hv
    obtain ⟨d', -, rfl⟩ := List.mem_map.mp hw
    have hnat := congrArg UInt32.toNat h
    rw [tableHome_toNat hbuilt.high inTable_new, tableHome_toNat hbuilt.high inTable_new] at hnat
    rw [indexNew_block a b c (hbits ▸ hlow) hbuilt.high hnat]
  refine ⟨new, hnew, ?_⟩
  rw [mapM_ok fun ip _ => probeCount_cost inTable_new hbuilt ip]
  congr 1
  rw [List.eq_replicate_iff]
  refine ⟨by simp, fun n hn => ?_⟩
  obtain ⟨ip, hip, rfl⟩ := List.mem_map.mp hn
  obtain ⟨d, hd, rfl⟩ := List.mem_map.mp hip
  have hw : wordLE a b c d ∈ hosts.map (wordLE a b c) := List.mem_map_of_mem hd
  rw [toWord_ip2int, probeCost, probes_of_homes_apart (tableHome_mem hbuilt.high inTable_new)
    hapart hfilled hw (hosts_nonzero a b c hnet _ hw), Option.getD_some]

end Hosts

/-- On hosts of one /24 the old index scans: all of them have one slot, and the lookups take from
one probe to as many as there are hosts. With the new one every lookup takes a single probe. -/
theorem block_probes (a b c : UInt8) (hnet : ¬ (a = 0 ∧ b = 0 ∧ c = 0)) (hosts : List UInt8)
    (hnodup : hosts.Nodup) (hmany : 64 ≤ hosts.length) :
    ∃ old new, buildTable (hosts.map (ip2int a b c)) indexOld = .ok old ∧
      buildTable (hosts.map (ip2int a b c)) indexNew = .ok new ∧
      (∀ d d', indexOld (toWord (ip2int a b c d)).toNat old.mask old.bits =
        indexOld (toWord (ip2int a b c d')).toNat old.mask old.bits) ∧
      (hosts.map (ip2int a b c)).mapM (probeCount old indexOld) =
        .ok (List.range' 1 hosts.length) ∧
      (hosts.map (ip2int a b c)).mapM (probeCount new indexNew) =
        .ok (List.replicate hosts.length 1) ∧
      ∀ cut : Nat → Nat,
        probeStats cut old indexOld (hosts.map (ip2int a b c)) =
          .ok (some ⟨(hosts.length + 1) / 2, hosts.length / 2 + 1,
            min (hosts.length - 1) (cut hosts.length) + 1, hosts.length⟩) ∧
        probeStats cut new indexNew (hosts.map (ip2int a b c)) = .ok (some ⟨1, 1, 1, 1⟩) := by
  obtain ⟨old, hold, hslot, hcosts⟩ := block_old a b c hnet hnodup hmany
  obtain ⟨new, hnew, hcosts'⟩ := block_new a b c hnet hnodup hmany
  refine ⟨old, new, hold, hnew, hslot, hcosts, hcosts', fun cut => ⟨?_, ?_⟩⟩
  · rw [probeStats_of_counts cut hcosts, figures_row cut (by omega)]
  · rw [probeStats_of_counts cut hcosts', figures_ones cut (by omega)]

/-- The first 64 addresses of 198.18.0.0/24. -/
theorem block_probes_sequential :
    ∃ old new, buildTable ((List.range 64).map fun d => ip2int 198 18 0 (UInt8.ofNat d)) indexOld =
        .ok old ∧
      buildTable ((List.range 64).map fun d => ip2int 198 18 0 (UInt8.ofNat d)) indexNew = .ok new ∧
      probeStats (fun n => n * 99 / 100) old indexOld
          ((List.range 64).map fun d => ip2int 198 18 0 (UInt8.ofNat d)) =
        .ok (some ⟨65 / 2, 33, 64, 64⟩) ∧
      probeStats (fun n => n * 99 / 100) new indexNew
          ((List.range 64).map fun d => ip2int 198 18 0 (UInt8.ofNat d)) =
        .ok (some ⟨1, 1, 1, 1⟩) := by
  obtain ⟨old, new, hold, hnew, -, -, -, hstats⟩ :=
    block_probes 198 18 0 (by decide) ((List.range 64).map UInt8.ofNat) (by decide) (by decide)
  obtain ⟨hscan, hone⟩ := hstats fun n => n * 99 / 100
  have hmean : ((64 : Nat) + 1 : ℚ) / 2 = 65 / 2 := by norm_num
  rw [List.map_map] at hold hnew hscan hone
  refine ⟨old, new, hold, hnew, hscan.trans ?_, hone⟩
  rw [List.length_map, List.length_range, hmean]
  rfl

end PcapyNg
