import Mathlib.Data.UInt
import Mathlib.Data.List.Basic
import Mathlib.Tactic.Common

/-!
# Bytes, words and faults

The C functions are embedded as functions that either return or fault. A fault is
whatever the language does not define or never finishes: a read at or past the
captured length, a read of a field no path has written, a loop without an exit.
-/

namespace PcapyNg
set_option autoImplicit false

abbrev Bytes := List UInt8

inductive Fault where
  | outOfBounds
  | uninitialised
  | diverges
  deriving DecidableEq, Repr

instance decidableEqExcept {ε α : Type} [DecidableEq ε] [DecidableEq α] : DecidableEq (Except ε α)
  | .ok a, .ok b => decidable_of_iff (a = b) (by simp)
  | .error a, .error b => decidable_of_iff (a = b) (by simp)
  | .ok _, .error _ => isFalse (by simp)
  | .error _, .ok _ => isFalse (by simp)

theorem bind_eq_ok {ε α β : Type} {x : Except ε α} {f : α → Except ε β} {b : β} :
    x >>= f = .ok b ↔ ∃ a, x = .ok a ∧ f a = .ok b := by
  cases x <;> simp [bind, Except.bind]

theorem mapM_ok {ε α β : Type} {f : α → Except ε β} {g : α → β} {as : List α}
    (h : ∀ a ∈ as, f a = .ok (g a)) : as.mapM f = .ok (as.map g) := by
  induction as with
  | nil => rfl
  | cons a as ih =>
    rw [List.mapM_cons, h a (by simp), ih fun b hb => h b (List.mem_cons_of_mem a hb)]
    rfl

def orDiverges {α : Type} : Option α → Except Fault α
  | some a => .ok a
  | none => .error .diverges

@[simp] theorem orDiverges_some {α : Type} (a : α) : orDiverges (some a) = .ok a := rfl

def readByte (p : Bytes) (i : UInt32) : Except Fault UInt8 :=
  match p[i.toNat]? with
  | some b => .ok b
  | none => .error .outOfBounds

/-- Four bytes in memory as a little-endian host reads them into an `unsigned int`. -/
def wordLE (a b c d : UInt8) : UInt32 :=
  a.toUInt32 ||| b.toUInt32 <<< 8 ||| c.toUInt32 <<< 16 ||| d.toUInt32 <<< 24

/-- The bytes of a word, lowest first: what a little-endian host stores, and what
`p[0] = w & 0xff; p[1] = (w >> 8) & 0xff; ...` stores on any host. -/
def bytesLE (w : UInt32) : Bytes :=
  [(w &&& 0xff).toUInt8, (w >>> 8 &&& 0xff).toUInt8, (w >>> 16 &&& 0xff).toUInt8,
    (w >>> 24 &&& 0xff).toUInt8]

/-- `memcpy(&word, p + i, 4)` -/
def readWord (p : Bytes) (i : UInt32) : Except Fault UInt32 := do
  let a ← readByte p i
  let b ← readByte p (i + 1)
  let c ← readByte p (i + 2)
  let d ← readByte p (i + 3)
  return wordLE a b c d

/-- The byte at `i`, or 0 beyond the end: what `readByte` gives wherever it does not fault. -/
def byteAt (p : Bytes) (i : Nat) : UInt8 := p.getD i 0

def wordAt (p : Bytes) (i : Nat) : UInt32 :=
  wordLE (byteAt p i) (byteAt p (i + 1)) (byteAt p (i + 2)) (byteAt p (i + 3))

theorem readByte_eq {p : Bytes} {i : UInt32} {n : Nat} (hi : i.toNat = n) (h : n < p.length) :
    readByte p i = .ok (byteAt p n) := by
  simp [readByte, byteAt, hi, List.getElem?_eq_getElem h, List.getD_eq_getElem?_getD]

theorem readWord_eq {p : Bytes} {i : UInt32} {n : Nat} (hi : i.toNat = n)
    (hn : n + 4 ≤ p.length) (hsmall : n + 4 ≤ 2 ^ 32) :
    readWord p i = .ok (wordAt p n) := by
  have h1 : (i + 1).toNat = n + 1 := by simp [UInt32.toNat_add]; omega
  have h2 : (i + 2).toNat = n + 2 := by simp [UInt32.toNat_add]; omega
  have h3 : (i + 3).toNat = n + 3 := by simp [UInt32.toNat_add]; omega
  have r0 : readByte p i = _ := readByte_eq hi (by omega)
  have r1 : readByte p (i + 1) = _ := readByte_eq h1 (by omega)
  have r2 : readByte p (i + 2) = _ := readByte_eq h2 (by omega)
  have r3 : readByte p (i + 3) = _ := readByte_eq h3 (by omega)
  rw [readWord, r0, r1, r2, r3]
  rfl

theorem byteAt_append_left {p q : Bytes} {i : Nat} (h : i < p.length) :
    byteAt (p ++ q) i = byteAt p i := by
  simp [byteAt, List.getElem?_append_left h, List.getD_eq_getElem?_getD]

theorem byteAt_append_right (p q : Bytes) (i : Nat) :
    byteAt (p ++ q) (p.length + i) = byteAt q i := by
  simp [byteAt, List.getElem?_append_right, List.getD_eq_getElem?_getD]

@[simp] theorem bytesLE_length (w : UInt32) : (bytesLE w).length = 4 := rfl

theorem low_byte_bit (j : Nat) : (255#32).getLsbD j = decide (j < 8) := by
  have hmask : 255#32 = BitVec.ofNat 32 (2 ^ 8 - 1) := rfl
  rw [hmask, BitVec.getLsbD_ofNat,
    Nat.testBit_two_pow_sub_one]
  by_cases hj : j < 8
  · simp [hj, show j < 32 by omega]
  · simp [hj]

theorem wordLE_bytesLE (w : UInt32) :
    wordLE (w &&& 0xff).toUInt8 (w >>> 8 &&& 0xff).toUInt8 (w >>> 16 &&& 0xff).toUInt8
      (w >>> 24 &&& 0xff).toUInt8 = w := by
  apply UInt32.toBitVec_inj.mp
  apply BitVec.eq_of_getLsbD_eq
  intro i hi
  simp only [wordLE, UInt32.toBitVec_or, UInt32.toBitVec_shiftLeft, UInt8.toBitVec_toUInt32,
    UInt32.toBitVec_toUInt8, UInt32.toBitVec_and, UInt32.toBitVec_shiftRight, BitVec.getLsbD_or,
    BitVec.getLsbD_and, BitVec.shiftLeft_eq', BitVec.getLsbD_shiftLeft, BitVec.getLsbD_setWidth,
    BitVec.ushiftRight_eq', BitVec.getLsbD_ushiftRight, UInt32.toBitVec_ofNat, low_byte_bit]
  -- bit `i` comes from the byte it lies in
  have hbyte : i < 8 ∨ 8 ≤ i ∧ i < 16 ∨ 16 ≤ i ∧ i < 24 ∨ 24 ≤ i := by omega
  rcases hbyte with h | ⟨h, h'⟩ | ⟨h, h'⟩ | h
  · simp [hi, h, show i < 16 by omega, show i < 24 by omega]
  · simp [hi, h', show ¬ i < 8 by omega, show i < 24 by omega, show i - 8 < 8 by omega,
      show 8 + (i - 8) = i by omega, show i - 8 < 32 by omega]
  · simp [hi, h', show ¬ i < 8 by omega, show ¬ i < 16 by omega, show ¬ i - 8 < 8 by omega,
      show i - 16 < 8 by omega, show 16 + (i - 16) = i by omega, show i - 16 < 32 by omega]
  · simp [hi, show ¬ i < 8 by omega, show ¬ i < 16 by omega, show ¬ i < 24 by omega,
      show ¬ i - 8 < 8 by omega, show ¬ i - 16 < 8 by omega, show i - 24 < 8 by omega,
      show 24 + (i - 24) = i by omega, show i - 24 < 32 by omega]

/-- A word stored reads back wherever it stands. -/
theorem wordAt_bytesLE (pre : Bytes) (w : UInt32) (post : Bytes) :
    wordAt (pre ++ (bytesLE w ++ post)) pre.length = w := by
  have hbyte : ∀ i, byteAt (pre ++ (bytesLE w ++ post)) (pre.length + i) =
      byteAt (bytesLE w ++ post) i := fun i => byteAt_append_right pre _ i
  have h0 := hbyte 0
  rw [Nat.add_zero] at h0
  rw [wordAt, h0, hbyte 1, hbyte 2, hbyte 3]
  exact wordLE_bytesLE w

end PcapyNg
