import PcapyNg.Library.LinearProbing
import PcapyNg.Machine

/-!
# The address set: `ipset_slot`, `ipset_build`, `ipset_has`

A small open-addressing table of network-order words with 0.0.0.0 reserved as the
empty mark. The two probe loops carry fuel for every slot once; a walk that has seen
them all repeats, so running out of fuel is an endless loop of the source.
-/

namespace PcapyNg
open LinearProbing
set_option autoImplicit false

structure IpSet where
  slots : UInt32 → UInt32
  shift : UInt32

/-- Fibonacci hashing: multiply, then take the high bits. -/
def ipsetSlot (shift ip : UInt32) : UInt32 := (ip * 2654435761) >>> shift

/-- `while (cap < n * 2 + 1 && bits < 31) { cap <<= 1; bits++; }` -/
def ipsetGrow (n : UInt32) : Nat → UInt32 → UInt32 → UInt32 × UInt32
  | 0, cap, bits => (cap, bits)
  | fuel + 1, cap, bits =>
    if cap < n * 2 + 1 ∧ bits < 31 then ipsetGrow n fuel (cap <<< 1) (bits + 1) else (cap, bits)

/-- `while (s->slots[j] && s->slots[j] != ip) j = (j + 1) & mask;` -/
def ipsetProbe (slots : UInt32 → UInt32) (mask ip : UInt32) : Nat → UInt32 → Except Fault UInt32
  | 0, _ => .error .diverges
  | fuel + 1, j =>
    if slots j ≠ 0 ∧ slots j ≠ ip then ipsetProbe slots mask ip fuel ((j + 1) &&& mask) else .ok j

/-- The body of the insertion loop for word `i`; both `i * 4` and the loop counter are 32-bit. -/
def ipsetAdd (data : Bytes) (shift mask : UInt32) (slots : UInt32 → UInt32) (i : UInt32) :
    Except Fault (UInt32 → UInt32) := do
  let ip ← readWord data (i * 4)
  if ip = 0 then return slots
  let j ← ipsetProbe slots mask ip (mask.toNat + 1) (ipsetSlot shift ip)
  return Function.update slots j ip

/-- Which of the two allocations of `ipset_build` succeed. -/
structure IpSetAlloc where
  set : Bool := true
  slots : Bool := true
  deriving DecidableEq

def ipsetBuild (alloc : IpSetAlloc) (data : Bytes) : Except Fault (Option IpSet) := do
  let n := UInt32.ofNat (data.length / 4)
  let (cap, bits) := ipsetGrow n 27 16 4
  if !alloc.set then return none
  if !alloc.slots then return none
  let shift := 32 - bits
  let mask := cap - 1
  let slots ← (List.range n.toNat).foldlM
    (fun slots i => ipsetAdd data shift mask slots (UInt32.ofNat i)) (fun _ => 0)
  return some ⟨slots, shift⟩

/-- `while (s->slots[j]) { if (s->slots[j] == ip) return 1; j = (j + 1) & mask; } return 0;` -/
def ipsetHasFrom (slots : UInt32 → UInt32) (mask ip : UInt32) : Nat → UInt32 → Except Fault Bool
  | 0, _ => .error .diverges
  | fuel + 1, j =>
    if slots j = 0 then .ok false
    else if slots j = ip then .ok true
    else ipsetHasFrom slots mask ip fuel ((j + 1) &&& mask)

def ipsetHas (s : Option IpSet) (ip : UInt32) : Except Fault Bool :=
  match s with
  | none => .ok false
  | some s =>
    if ip = 0 then .ok false
    else
      let mask := 0xffffffff >>> s.shift
      ipsetHasFrom s.slots mask ip (mask.toNat + 1) (ipsetSlot s.shift ip)

/-! The table size chosen from the number of words, and the walk over its slots. -/

theorem ipsetGrow_spec (n : UInt32) (fuel bits : Nat) (cap b : UInt32) (hb : b.toNat = bits)
    (hcap : cap.toNat = 2 ^ bits) (hlow : 4 ≤ bits) (hfuel : fuel + bits = 31) :
    ∃ k, 4 ≤ k ∧ k ≤ 31 ∧ (ipsetGrow n fuel cap b).1.toNat = 2 ^ k ∧
      (ipsetGrow n fuel cap b).2.toNat = k ∧ ((n * 2 + 1).toNat ≤ 2 ^ k ∨ k = 31) := by
  induction fuel generalizing bits cap b with
  | zero => exact ⟨bits, hlow, by omega, hcap, hb, Or.inr (by omega)⟩
  | succ fuel ih =>
    rw [ipsetGrow]
    split
    · rename_i h
      have hbits : bits < 31 := by omega
      have hpow : 2 ^ (bits + 1) ≤ 2 ^ 31 := Nat.pow_le_pow_right (by decide) (by omega)
      refine ih (bits + 1) _ _ ?_ ?_ (by omega) (by omega)
      · simp [UInt32.toNat_add, hb]
        omega
      · rw [UInt32.toNat_shiftLeft, hcap]
        simp [Nat.shiftLeft_eq, Nat.pow_succ] at hpow ⊢
        omega
    · rename_i h
      refine ⟨bits, hlow, by omega, hcap, hb, ?_⟩
      by_cases hlt : cap < n * 2 + 1
      · right
        by_contra hne
        exact h ⟨hlt, by rw [UInt32.lt_iff_toNat_lt, hb]; simp; omega⟩
      · left
        rw [UInt32.lt_iff_toNat_lt, hcap] at hlt
        omega

/-- The mask and the shift of a table with `2 ^ bits` slots. -/
theorem ipsetGrow_table {n : UInt32} {bits : Nat}
    (hcap : (ipsetGrow n 27 16 4).1.toNat = 2 ^ bits) (hbits : (ipsetGrow n 27 16 4).2.toNat = bits)
    (hlow : 4 ≤ bits) (hhigh : bits ≤ 31) :
    ((ipsetGrow n 27 16 4).1 - 1).toNat = 2 ^ bits - 1 ∧
      (32 - (ipsetGrow n 27 16 4).2).toNat = 32 - bits := by
  have hpow : 2 ^ 4 ≤ 2 ^ bits := Nat.pow_le_pow_right (by decide) hlow
  constructor
  · rw [UInt32.toNat_sub_of_le _ _ (by rw [UInt32.le_iff_toNat_le, hcap]; simp; omega), hcap]
    rfl
  · rw [UInt32.toNat_sub_of_le _ _ (by rw [UInt32.le_iff_toNat_le, hbits]; simp; omega), hbits]
    rfl

/-- Up to 2^30 words are fewer than the slots of their table. -/
theorem ipsetGrow_fits {n : UInt32} (hn : n.toNat ≤ 2 ^ 30) :
    n.toNat < (ipsetGrow n 27 16 4).1.toNat := by
  obtain ⟨bits, hlow, hhigh, hcap, -, hroom⟩ :=
    ipsetGrow_spec n 27 4 16 4 rfl rfl (le_refl 4) rfl
  have htwice : (n * 2 + 1).toNat = n.toNat * 2 + 1 := by
    simp [UInt32.toNat_add, UInt32.toNat_mul]
    omega
  rw [hcap]
  rcases hroom with h | h
  · omega
  · subst h
    omega

theorem and_mask_toNat {mask : UInt32} {bits : Nat} (hmask : mask.toNat = 2 ^ bits - 1)
    (x : UInt32) : (x &&& mask).toNat = x.toNat % 2 ^ bits := by
  rw [UInt32.toNat_and, hmask, Nat.and_two_pow_sub_one_eq_mod]

def slotsUpTo (bits : Nat) : Finset UInt32 := (Finset.range (2 ^ bits)).image UInt32.ofNat

theorem mem_slotsUpTo {bits : Nat} (hbits : bits ≤ 31) (j : UInt32) :
    j ∈ slotsUpTo bits ↔ j.toNat < 2 ^ bits := by
  have hpow : 2 ^ bits ≤ 2 ^ 31 := Nat.pow_le_pow_right (by decide) hbits
  constructor
  · intro hj
    obtain ⟨i, hi, rfl⟩ := Finset.mem_image.mp hj
    rw [Finset.mem_range] at hi
    rw [UInt32.toNat_ofNat']
    omega
  · intro hj
    exact Finset.mem_image.mpr ⟨j.toNat, Finset.mem_range.mpr hj, by simp⟩

theorem card_slotsUpTo {bits : Nat} (hbits : bits ≤ 31) : (slotsUpTo bits).card = 2 ^ bits := by
  have hpow : 2 ^ bits ≤ 2 ^ 31 := Nat.pow_le_pow_right (by decide) hbits
  have hinj : Set.InjOn UInt32.ofNat (Finset.range (2 ^ bits)) := by
    intro i hi j hj hij
    have hi' := Finset.mem_range.mp (Finset.mem_coe.mp hi)
    have hj' := Finset.mem_range.mp (Finset.mem_coe.mp hj)
    have hnat := congrArg UInt32.toNat hij
    simp only [UInt32.toNat_ofNat'] at hnat
    omega
  rw [slotsUpTo, Finset.card_image_of_injOn hinj, Finset.card_range]

theorem next_iterate {mask : UInt32} {bits : Nat} (hmask : mask.toNat = 2 ^ bits - 1)
    (hbits : bits ≤ 31) {j : UInt32} (hj : j.toNat < 2 ^ bits) (k : Nat) :
    ((fun j => (j + 1) &&& mask)^[k] j).toNat = (j.toNat + k) % 2 ^ bits := by
  have hpow : 2 ^ bits ≤ 2 ^ 31 := Nat.pow_le_pow_right (by decide) hbits
  induction k with
  | zero => simpa using (Nat.mod_eq_of_lt hj).symm
  | succ k ih =>
    have hlt := Nat.mod_lt (j.toNat + k) (Nat.two_pow_pos bits)
    rw [Function.iterate_succ_apply', and_mask_toNat hmask, UInt32.toNat_add, ih, UInt32.toNat_one,
      Nat.mod_eq_of_lt (by omega : (j.toNat + k) % 2 ^ bits + 1 < 2 ^ 32), Nat.mod_add_mod,
      Nat.add_assoc]

/-- `j = (j + 1) & mask` visits every slot of a power-of-two table. -/
def slotCycle (mask : UInt32) (bits : Nat) (hmask : mask.toNat = 2 ^ bits - 1)
    (hbits : bits ≤ 31) : ProbeCycle UInt32 where
  next j := (j + 1) &&& mask
  slots := slotsUpTo bits
  next_mem := by
    intro j _
    rw [mem_slotsUpTo hbits, and_mask_toNat hmask]
    exact Nat.mod_lt _ (Nat.two_pow_pos bits)
  reach := by
    intro i hi j hj
    rw [mem_slotsUpTo hbits] at hi hj
    rw [card_slotsUpTo hbits]
    refine ⟨(j.toNat + 2 ^ bits - i.toNat) % 2 ^ bits, Nat.mod_lt _ (Nat.two_pow_pos bits), ?_⟩
    rw [← UInt32.toNat_inj, next_iterate hmask hbits hi, Nat.add_mod_mod]
    have hsum : i.toNat + (j.toNat + 2 ^ bits - i.toNat) = j.toNat + 2 ^ bits := by omega
    rw [hsum, Nat.add_mod_right, Nat.mod_eq_of_lt hj]

theorem ipsetSlot_lt {shift : UInt32} {bits : Nat} (hshift : shift.toNat = 32 - bits)
    (hlow : 4 ≤ bits) (hbits : bits ≤ 31) (ip : UInt32) : (ipsetSlot shift ip).toNat < 2 ^ bits := by
  rw [ipsetSlot, UInt32.toNat_shiftRight, hshift, Nat.mod_eq_of_lt (by omega),
    Nat.shiftRight_eq_div_pow, Nat.div_lt_iff_lt_mul (Nat.two_pow_pos _), ← Nat.pow_add]
  have hw : bits + (32 - bits) = 32 := by omega
  rw [hw]
  exact UInt32.toNat_lt _

theorem ipsetSlot_mem {mask shift : UInt32} {bits : Nat} (hmask : mask.toNat = 2 ^ bits - 1)
    (hhigh : bits ≤ 31) (hlow : 4 ≤ bits) (hshift : shift.toNat = 32 - bits) (ip : UInt32) :
    ipsetSlot shift ip ∈ (slotCycle mask bits hmask hhigh).slots :=
  (mem_slotsUpTo hhigh _).mpr (ipsetSlot_lt hshift hlow hhigh ip)

/-! The probe loops are the library's walk. -/

theorem probe_fuel {mask : UInt32} {bits : Nat} (hmask : mask.toNat = 2 ^ bits - 1)
    (hhigh : bits ≤ 31) : mask.toNat + 1 = (slotsUpTo bits).card := by
  have := Nat.two_pow_pos bits
  rw [hmask, card_slotsUpTo hhigh]
  omega

theorem ipsetProbe_eq_scan (slots : UInt32 → UInt32) (mask ip : UInt32) (fuel : Nat) (j : UInt32) :
    ipsetProbe slots mask ip fuel j =
      orDiverges (scan (fun j => (j + 1) &&& mask) (stopsAt 0 slots ip) fuel j) := by
  induction fuel generalizing j with
  | zero => rfl
  | succ fuel ih =>
    rw [ipsetProbe, scan]
    by_cases h0 : slots j = 0
    · simp [stopsAt, h0]
    · by_cases hip : slots j = ip
      · simp [stopsAt, hip]
      · simp [stopsAt, h0, hip, ih]

theorem ipsetHasFrom_eq_scan (slots : UInt32 → UInt32) (mask : UInt32) {ip : UInt32} (hip : ip ≠ 0)
    (fuel : Nat) (j : UInt32) :
    ipsetHasFrom slots mask ip fuel j =
      orDiverges ((scan (fun j => (j + 1) &&& mask) (stopsAt 0 slots ip) fuel j).map
        fun r => decide (slots r = ip)) := by
  induction fuel generalizing j with
  | zero => rfl
  | succ fuel ih =>
    rw [ipsetHasFrom, scan]
    by_cases h0 : slots j = 0
    · simp [stopsAt, h0, hip.symm]
    · by_cases hj : slots j = ip
      · simp [stopsAt, hj, hip]
      · simp [stopsAt, h0, hj, ih]

theorem ipsetHasFrom_eq_find {slots : UInt32 → UInt32} {mask shift ip : UInt32} {bits : Nat}
    (hmask : mask.toNat = 2 ^ bits - 1) (hhigh : bits ≤ 31) (hip : ip ≠ 0) :
    ipsetHasFrom slots mask ip (mask.toNat + 1) (ipsetSlot shift ip) =
      orDiverges (find (slotCycle mask bits hmask hhigh) (ipsetSlot shift) 0 slots ip) := by
  rw [ipsetHasFrom_eq_scan _ _ hip, probe_fuel hmask hhigh]
  rfl

/-- A table as `ipset_build` leaves it: sized by `shift`, a free slot left, every stored address
reachable from its home slot. -/
structure AddrSet where
  table : IpSet
  bits : Nat
  low : 4 ≤ bits
  high : bits ≤ 31
  shift_eq : table.shift.toNat = 32 - bits
  gap : ∃ j ∈ slotsUpTo bits, table.slots j = 0
  reachable : ∀ mask, ∀ hmask : mask.toNat = 2 ^ bits - 1,
    Reachable (slotCycle mask bits hmask high) (ipsetSlot table.shift) 0 table.slots

namespace AddrSet

def Mem (s : AddrSet) (ip : UInt32) : Prop := ip ≠ 0 ∧ ∃ j ∈ slotsUpTo s.bits, s.table.slots j = ip

instance (s : AddrSet) (ip : UInt32) : Decidable (s.Mem ip) := by
  unfold Mem
  infer_instance

theorem lookup_mask (s : AddrSet) : (0xffffffff >>> s.table.shift).toNat = 2 ^ s.bits - 1 := by
  have hlow := s.low
  have hhigh := s.high
  rw [UInt32.toNat_shiftRight, s.shift_eq, Nat.mod_eq_of_lt (by omega), Nat.shiftRight_eq_div_pow]
  have hsplit : 2 ^ 32 = 2 ^ s.bits * 2 ^ (32 - s.bits) := by rw [← Nat.pow_add]; congr 1; omega
  have hpos := Nat.two_pow_pos (32 - s.bits)
  have hbits := Nat.two_pow_pos s.bits
  have hall : (0xffffffff : UInt32).toNat = 2 ^ s.bits * 2 ^ (32 - s.bits) - 1 := by
    rw [← hsplit]
    rfl
  rw [hall]
  refine Nat.div_eq_of_lt_le ?_ ?_
  · rw [Nat.sub_mul]
    omega
  · rw [Nat.sub_add_cancel hbits]
    exact Nat.sub_lt (Nat.mul_pos hbits hpos) Nat.one_pos

end AddrSet

/-- The pointer handed to the classifiers: NULL or a built table. -/
def setPtr (s : Option AddrSet) : Option IpSet := s.map AddrSet.table

def SetMem (s : Option AddrSet) (ip : UInt32) : Prop := ∃ t, s = some t ∧ t.Mem ip

instance (s : Option AddrSet) (ip : UInt32) : Decidable (SetMem s ip) :=
  match s with
  | none => isFalse (by rintro ⟨_, h, _⟩; cases h)
  | some t => decidable_of_iff (t.Mem ip) ⟨fun h => ⟨t, rfl, h⟩, fun ⟨_, h, hm⟩ => by cases h; exact hm⟩

theorem setMem_some (t : AddrSet) (ip : UInt32) : SetMem (some t) ip ↔ t.Mem ip :=
  ⟨fun ⟨_, h, hm⟩ => by cases h; exact hm, fun h => ⟨t, rfl, h⟩⟩

theorem ipsetHas_eq (s : Option AddrSet) (ip : UInt32) :
    ipsetHas (setPtr s) ip = .ok (decide (SetMem s ip)) := by
  cases s with
  | none => simp [ipsetHas, setPtr, SetMem]
  | some t =>
    simp only [setPtr, Option.map_some, setMem_some]
    by_cases hip : ip = 0
    · simp [ipsetHas, hip, AddrSet.Mem]
    · obtain ⟨b, hfind, hb⟩ := find_eq (c := slotCycle _ t.bits t.lookup_mask t.high)
        (ipsetSlot_mem _ t.high t.low t.shift_eq) t.gap (t.reachable _ t.lookup_mask) hip
      have hmem : t.Mem ip ↔ b = true := by
        rw [hb]
        exact ⟨fun h => h.2, fun h => ⟨hip, h⟩⟩
      simp only [ipsetHas, hip, if_false, ipsetHasFrom_eq_find t.lookup_mask t.high hip, hfind]
      simp [hmem]

/-! What the insertion loop reads and stores. -/

/-- The whole 4-byte addresses of a packed list, trailing bytes ignored. -/
def packedWords (data : Bytes) : List UInt32 :=
  (List.range (data.length / 4)).map fun i => wordAt data (4 * i)

/-- The words that the insertion loop of `ipset_build` comes to: the count is an `unsigned int`,
and so is `i * 4`, which starts over behind 2^30 words. -/
def insertedWords (data : Bytes) : List UInt32 :=
  (List.range (UInt32.ofNat (data.length / 4)).toNat).map fun i => wordAt data (4 * (i % 2 ^ 30))

/-- `i * 4` in 32 bits -/
theorem wordOffset_toNat (i : Nat) : (UInt32.ofNat i * 4).toNat = 4 * (i % 2 ^ 30) := by
  simp only [UInt32.toNat_mul, UInt32.toNat_ofNat']
  simp
  omega

theorem ipsetAdd_eq {data : Bytes} {mask shift : UInt32} {bits i : Nat} {slots : UInt32 → UInt32}
    (hmask : mask.toNat = 2 ^ bits - 1) (hhigh : bits ≤ 31) (hin : 4 * i + 4 ≤ data.length)
    (hsmall : i < 2 ^ 32) :
    ipsetAdd data shift mask slots (UInt32.ofNat i) =
      if wordAt data (4 * (i % 2 ^ 30)) = 0 then .ok slots
      else orDiverges (LinearProbing.insert (slotCycle mask bits hmask hhigh) (ipsetSlot shift) 0
        slots (wordAt data (4 * (i % 2 ^ 30)))) := by
  have hread : readWord data (UInt32.ofNat i * 4) = .ok (wordAt data (4 * (i % 2 ^ 30))) :=
    readWord_eq (wordOffset_toNat i) (by omega) (by omega)
  by_cases h0 : wordAt data (4 * (i % 2 ^ 30)) = 0
  · rw [ipsetAdd, hread, if_pos h0]
    simp only [bind, Except.bind, pure, Except.pure, if_pos h0]
  · rw [ipsetAdd, hread, if_neg h0]
    simp only [bind, Except.bind, pure, Except.pure, if_neg h0, ipsetProbe_eq_scan,
      probe_fuel hmask hhigh]
    change _ = orDiverges (Option.map _ (scan (fun j : UInt32 => (j + 1) &&& mask) _
      (slotsUpTo bits).card _))
    cases scan (fun j : UInt32 => (j + 1) &&& mask)
      (stopsAt 0 slots (wordAt data (4 * (i % 2 ^ 30)))) (slotsUpTo bits).card
      (ipsetSlot shift (wordAt data (4 * (i % 2 ^ 30)))) <;> rfl

theorem ipset_fill_eq {data : Bytes} {mask : UInt32} {bits : Nat} (shift : UInt32)
    (hmask : mask.toNat = 2 ^ bits - 1) (hhigh : bits ≤ 31) (is : List Nat)
    (hin : ∀ i ∈ is, 4 * i + 4 ≤ data.length ∧ i < 2 ^ 32) (slots : UInt32 → UInt32) :
    is.foldlM (fun slots i => ipsetAdd data shift mask slots (UInt32.ofNat i)) slots =
      orDiverges (insertAll (slotCycle mask bits hmask hhigh) (ipsetSlot shift) 0
        (is.map fun i => wordAt data (4 * (i % 2 ^ 30))) slots) := by
  induction is generalizing slots with
  | nil => rfl
  | cons i is ih =>
    have hhead := hin i (by simp)
    have htail := fun k hk => hin k (List.mem_cons_of_mem i hk)
    rw [List.foldlM_cons, ipsetAdd_eq hmask hhigh hhead.1 hhead.2, List.map_cons, insertAll]
    by_cases h0 : wordAt data (4 * (i % 2 ^ 30)) = 0
    · rw [if_pos h0, if_pos h0]
      exact ih htail slots
    · rw [if_neg h0, if_neg h0]
      cases LinearProbing.insert (slotCycle mask bits hmask hhigh) (ipsetSlot shift) 0 slots
        (wordAt data (4 * (i % 2 ^ 30))) with
      | none => rfl
      | some slots' => exact ih htail slots'

theorem insertedWords_subset {data : Bytes} {ip : UInt32} (h : ip ∈ insertedWords data) :
    ip ∈ packedWords data := by
  obtain ⟨i, hi, rfl⟩ := List.mem_map.mp h
  rw [List.mem_range, UInt32.toNat_ofNat'] at hi
  have hwrap := Nat.mod_le i (2 ^ 30)
  have hcount := Nat.mod_le (data.length / 4) (2 ^ 32)
  exact List.mem_map.mpr ⟨i % 2 ^ 30, List.mem_range.mpr (by omega), rfl⟩

theorem reachable_const {mask : UInt32} (shift : UInt32) {bits : Nat}
    (hmask : mask.toNat = 2 ^ bits - 1) (hhigh : bits ≤ 31) : Reachable (slotCycle mask bits hmask hhigh) (ipsetSlot shift) 0
      fun _ => 0 :=
  fun _ hx hp => absurd hp (not_present_const hx)

/-- What `ipset_build` does given its memory, and the size of the table it does it in. -/
theorem ipsetBuild_eq (data : Bytes) :
    ∃ mask shift bits, ∃ hmask : mask.toNat = 2 ^ bits - 1, ∃ hhigh : bits ≤ 31,
      4 ≤ bits ∧ shift.toNat = 32 - bits ∧
      (ipsetGrow (UInt32.ofNat (data.length / 4)) 27 16 4).1.toNat = 2 ^ bits ∧
      ipsetBuild {} data = (orDiverges (insertAll (slotCycle mask bits hmask hhigh)
        (ipsetSlot shift) 0 (insertedWords data) fun _ => 0)).map fun slots =>
          some ⟨slots, shift⟩ := by
  obtain ⟨bits, hlow, hhigh, hcap, hbits, -⟩ :=
    ipsetGrow_spec (UInt32.ofNat (data.length / 4)) 27 4 16 4 rfl rfl (le_refl 4) rfl
  obtain ⟨hmask, hshift⟩ := ipsetGrow_table hcap hbits hlow hhigh
  refine ⟨_, _, bits, hmask, hhigh, hlow, hshift, hcap, ?_⟩
  have hin : ∀ i ∈ List.range (UInt32.ofNat (data.length / 4)).toNat,
      4 * i + 4 ≤ data.length ∧ i < 2 ^ 32 := by
    intro i hi
    rw [List.mem_range, UInt32.toNat_ofNat'] at hi
    omega
  have hfill := ipset_fill_eq (32 - (ipsetGrow (UInt32.ofNat (data.length / 4)) 27 16 4).2)
    hmask hhigh _ hin (fun _ => 0)
  rw [insertedWords, ← hfill, ipsetBuild]
  simp only [Bool.not_true, Bool.false_eq_true, if_false]
  rfl

/-- Every word is come to, and the table has a slot more than there are addresses. -/
structure SetFits (data : Bytes) : Prop where
  whole : ∀ ip ∈ packedWords data, ip ≠ 0 → ip ∈ insertedWords data
  room : ((insertedWords data).toFinset.erase 0).card <
    (ipsetGrow (UInt32.ofNat (data.length / 4)) 27 16 4).1.toNat

section Fill
variable {mask shift : UInt32} {bits : Nat} (hmask : mask.toNat = 2 ^ bits - 1) (hhigh : bits ≤ 31)
  (hlow : 4 ≤ bits) (hshift : shift.toNat = 32 - bits) {xs : List UInt32} {slots : UInt32 → UInt32}
  (hfill : insertAll (slotCycle mask bits hmask hhigh) (ipsetSlot shift) 0 xs (fun _ => 0) =
    some slots)
include hlow hshift hfill

theorem present_of_fill {ip : UInt32} (hip : ip ≠ 0) :
    Present (slotCycle mask bits hmask hhigh) slots ip ↔ ip ∈ xs := by
  obtain ⟨-, hpresent⟩ := insertAll_present (ipsetSlot_mem hmask hhigh hlow hshift) xs
    (reachable_const shift hmask hhigh) hfill
  rw [hpresent ip hip, or_iff_left (not_present_const hip)]

/-- A filled table with a free slot left is the set of what was put in. -/
theorem addrSet_of_fill (hgap : HasGap (slotCycle mask bits hmask hhigh) 0 slots) :
    ∃ s : AddrSet, s.table = ⟨slots, shift⟩ ∧ ∀ ip, s.Mem ip ↔ ip ≠ 0 ∧ ip ∈ xs := by
  refine ⟨⟨⟨slots, shift⟩, bits, hlow, hhigh, hshift, hgap, ?_⟩, rfl, ?_⟩
  · intro mask' hmask'
    obtain rfl : mask' = mask := UInt32.toNat_inj.mp (hmask'.trans hmask.symm)
    exact (insertAll_present (ipsetSlot_mem hmask hhigh hlow hshift) xs
      (reachable_const shift hmask hhigh) hfill).1
  · intro ip
    apply and_congr_right
    intro hip
    exact present_of_fill hmask hhigh hlow hshift hfill hip

/-- A free slot is left only where there are fewer addresses than slots. -/
theorem card_lt_of_fill (hgap : HasGap (slotCycle mask bits hmask hhigh) 0 slots) :
    (xs.toFinset.erase 0).card < 2 ^ bits := by
  rw [← card_slotsUpTo hhigh]
  apply lt_of_le_of_lt (Finset.card_le_card ?_) (card_stored_lt hgap)
  intro ip hip
  obtain ⟨hne, hin⟩ := Finset.mem_erase.mp hip
  have hpresent := (present_of_fill hmask hhigh hlow hshift hfill hne).mpr
    (List.mem_toFinset.mp hin)
  exact mem_stored.mpr ⟨hne, hpresent⟩

end Fill

/-- With the allocations made, an address list is built into a set of exactly its non-zero words
if and only if it fits. -/
theorem ipsetBuild_iff (data : Bytes) :
    (∃ s : AddrSet, ipsetBuild {} data = .ok (some s.table) ∧
      ∀ ip, s.Mem ip ↔ ip ≠ 0 ∧ ip ∈ packedWords data) ↔ SetFits data := by
  obtain ⟨mask, shift, bits, hmask, hhigh, hlow, hshift, hcap, hbuild⟩ := ipsetBuild_eq data
  constructor
  · rintro ⟨⟨table, bits', hlow', hhigh', hshift', hgap, hreach⟩, hs, hmem⟩
    rw [hbuild] at hs
    cases hfill : insertAll (slotCycle mask bits hmask hhigh) (ipsetSlot shift) 0
        (insertedWords data) (fun _ => 0) with
    | none =>
      rw [hfill] at hs
      cases hs
    | some slots =>
      rw [hfill] at hs
      cases hs
      obtain rfl : bits' = bits := by
        rw [hshift] at hshift'
        omega
      refine ⟨fun ip hip hne => ?_, ?_⟩
      · exact (present_of_fill hmask hhigh hlow hshift hfill hne).mp ((hmem ip).mpr ⟨hne, hip⟩).2
      · rw [hcap]
        exact card_lt_of_fill hmask hhigh hlow hshift hfill hgap
  · intro hfits
    have hroom := hfits.room
    obtain ⟨slots, hfill, hgap⟩ := insertAll_isSome (ipsetSlot_mem hmask hhigh hlow hshift)
      (insertedWords data) (reachable_const shift hmask hhigh) distinct_const (by
        rw [stored_const, Finset.empty_union]
        exact lt_of_lt_of_eq hroom (hcap.trans (card_slotsUpTo hhigh).symm))
    obtain ⟨s, hs, hmem⟩ := addrSet_of_fill hmask hhigh hlow hshift hfill hgap
    refine ⟨s, ?_, fun ip => ?_⟩
    · rw [hbuild, hfill, hs]
      rfl
    · rw [hmem]
      apply and_congr_right
      intro hne
      exact ⟨insertedWords_subset, fun hin => hfits.whole ip hin hne⟩

theorem setFits_of_small {data : Bytes} (hmax : data.length / 4 ≤ 2 ^ 30) : SetFits data := by
  have hn : (UInt32.ofNat (data.length / 4)).toNat = data.length / 4 := by
    rw [UInt32.toNat_ofNat']
    omega
  have hall : insertedWords data = packedWords data := by
    rw [insertedWords, packedWords, hn]
    apply List.map_congr_left
    intro i hi
    rw [List.mem_range] at hi
    rw [Nat.mod_eq_of_lt (by omega)]
  refine ⟨fun ip hip _ => ?_, ?_⟩
  · rw [hall]
    exact hip
  · apply lt_of_le_of_lt _ (ipsetGrow_fits (by omega))
    calc ((insertedWords data).toFinset.erase 0).card
        ≤ (insertedWords data).toFinset.card := Finset.card_erase_le
      _ ≤ (insertedWords data).length := List.toFinset_card_le _
      _ = (UInt32.ofNat (data.length / 4)).toNat := by
        rw [insertedWords, List.length_map, List.length_range]

/-- With the allocations made, every address list of up to 2^30 entries is built into a set of
exactly its non-zero words. -/
theorem ipsetBuild_spec (data : Bytes) (hmax : data.length / 4 ≤ 2 ^ 30) :
    ∃ s : AddrSet, ipsetBuild {} data = .ok (some s.table) ∧
      ∀ ip, s.Mem ip ↔ ip ≠ 0 ∧ ip ∈ packedWords data :=
  (ipsetBuild_iff data).mpr (setFits_of_small hmax)

theorem ipsetHas_of_mem {s : AddrSet} {xs : List UInt32}
    (hmem : ∀ ip, s.Mem ip ↔ ip ≠ 0 ∧ ip ∈ xs) (ip : UInt32) :
    ipsetHas (some s.table) ip = .ok (decide (ip ≠ 0 ∧ ip ∈ xs)) := by
  have h := ipsetHas_eq (some s) ip
  simp only [setMem_some, hmem] at h
  exact h

/-- Membership in a built set is membership in the packed list, 0.0.0.0 excepted; hence order,
multiplicity and zero words of the list do not matter. -/
theorem ipset_membership_exact (data data' : Bytes)
    (hmax : data.length / 4 ≤ 2 ^ 30) (hmax' : data'.length / 4 ≤ 2 ^ 30) :
    ∃ s s', ipsetBuild {} data = .ok (some s) ∧ ipsetBuild {} data' = .ok (some s') ∧
      (∀ ip, ipsetHas (some s) ip = .ok (decide (ip ≠ 0 ∧ ip ∈ packedWords data))) ∧
      ((∀ ip, ip ≠ 0 → (ip ∈ packedWords data ↔ ip ∈ packedWords data')) →
        ∀ ip, ipsetHas (some s) ip = ipsetHas (some s') ip) := by
  obtain ⟨s, hs, hmem⟩ := ipsetBuild_spec data hmax
  obtain ⟨s', hs', hmem'⟩ := ipsetBuild_spec data' hmax'
  refine ⟨s.table, s'.table, hs, hs', ipsetHas_of_mem hmem, ?_⟩
  intro hsame ip
  rw [ipsetHas_of_mem hmem, ipsetHas_of_mem hmem']
  congr 2
  exact propext (and_congr_right (hsame ip))

theorem ipset_membership_exact_two :
    ∃ s s', ipsetBuild {} [10, 0, 0, 1] = .ok (some s) ∧
      ipsetBuild {} [10, 0, 0, 1, 0, 0, 0, 0, 10, 0, 0, 1, 7, 7, 7] = .ok (some s') ∧
      ipsetHas (some s) 0x0100000a = .ok true ∧
      ∀ ip, ipsetHas (some s) ip = ipsetHas (some s') ip := by
  obtain ⟨s, s', hs, hs', hhas, hsame⟩ := ipset_membership_exact [10, 0, 0, 1]
    [10, 0, 0, 1, 0, 0, 0, 0, 10, 0, 0, 1, 7, 7, 7] (by decide) (by decide)
  refine ⟨s, s', hs, hs', (hhas _).trans (by decide), hsame ?_⟩
  intro ip hip
  have h1 : packedWords [10, 0, 0, 1] = [0x0100000a] := by decide
  have h2 : packedWords [10, 0, 0, 1, 0, 0, 0, 0, 10, 0, 0, 1, 7, 7, 7] =
      [0x0100000a, 0, 0x0100000a] := by decide
  simp [h1, h2, hip]

end PcapyNg
