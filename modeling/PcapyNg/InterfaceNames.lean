import Mathlib.Data.Vector.Basic
import Mathlib.Tactic.Positivity
import Mathlib.Tactic.Ring
import PcapyNg.Library.TextScan
import PcapyNg.FilteredStats

/-!
# Interface names on Windows

A capture device there is called after a GUID, and users know it by a friendly name. The GUID
parser walks a C string with one pointer; `findalldevs` lists friendly names, and `open_live`
looks the device of a friendly name up again.
-/

namespace PcapyNg
open TextScan
set_option autoImplicit false

abbrev Scan (α : Type) : Type := Scanner Fault UInt8 α

def gethexdigit (c : UInt8) : Int :=
  if 48 ≤ c.toNat ∧ c.toNat ≤ 57 then c.toNat - 48
  else if 65 ≤ c.toNat ∧ c.toNat ≤ 70 then c.toNat - 65 + 0xA
  else if 97 ≤ c.toNat ∧ c.toNat ≤ 102 then c.toNat - 97 + 0xa
  else -1

/-- `digit = gethexdigit(p++); if (digit == -1) return FALSE;` -/
def hexDigit : Scan Nat :=
  item .outOfBounds fun c => if gethexdigit c = -1 then none else some (gethexdigit c).toNat

/-- `if (*guid_text != c) return FALSE; guid_text++;` -/
def expect (c : UInt8) : Scan Unit := item .outOfBounds fun b => if b = c then some () else none

/-- The loop of `get8hexdigits` and `get4hexdigits` on a word of `w` bits. -/
def hexDigits (w : Nat) : Nat → BitVec w → Scan (BitVec w)
  | 0, val => pure val
  | n + 1, val => do
    let digit ← hexDigit
    hexDigits w n ((val <<< 4) ||| BitVec.ofNat w digit)

def get8hexdigits : Scan (BitVec 32) := hexDigits 32 8 0
def get4hexdigits : Scan (BitVec 16) := hexDigits 16 4 0

/-- `guid->Data4[i] = (digit1 << 4)|(digit2)` -/
def hexByte : Scan (BitVec 8) := do
  let digit1 ← hexDigit
  let digit2 ← hexDigit
  return BitVec.ofNat 8 ((digit1 <<< 4) ||| digit2)

def hexBytes : (n : Nat) → Scan (List.Vector (BitVec 8) n)
  | 0 => pure .nil
  | n + 1 => do
    let byte ← hexByte
    let bytes ← hexBytes n
    return .cons byte bytes

/-- `GUID` -/
structure Guid where
  data1 : BitVec 32
  data2 : BitVec 16
  data3 : BitVec 16
  data4 : List.Vector (BitVec 8) 8
  deriving DecidableEq

/-- `{` 8 digits `-` 4 digits `-` 4 digits `-` 2 bytes `-` 6 bytes `}` -/
def guidFields : Scan Guid := do
  expect 0x7b
  let data1 ← get8hexdigits
  expect 0x2d
  let data2 ← get4hexdigits
  expect 0x2d
  let data3 ← get4hexdigits
  expect 0x2d
  let front ← hexBytes 2
  expect 0x2d
  let back ← hexBytes 6
  expect 0x7d
  return ⟨data1, data2, data3, front ++ back⟩

/-- `parse_as_guid`; `none` is FALSE. -/
def parseAsGuid (guidText : Bytes) : Except Fault (Option Guid) :=
  scanAll .outOfBounds 0 guidFields guidText

/-! How a GUID is written: lower-case digits, the highest first. -/

def hexChar (d : Nat) : UInt8 := if d < 10 then UInt8.ofNat (48 + d) else UInt8.ofNat (87 + d)

def hexText : Nat → Nat → Bytes
  | 0, _ => []
  | n + 1, v => hexText n (v / 16) ++ [hexChar (v % 16)]

def bytesText (bs : List (BitVec 8)) : Bytes := bs.flatMap fun b => hexText 2 b.toNat

def Guid.text (g : Guid) : Bytes :=
  [0x7b] ++ (hexText 8 g.data1.toNat ++ ([0x2d] ++ (hexText 4 g.data2.toNat ++ ([0x2d] ++
    (hexText 4 g.data3.toNat ++ ([0x2d] ++ (bytesText (g.data4.toList.take 2) ++ ([0x2d] ++
      (bytesText (g.data4.toList.drop 2) ++ [0x7d])))))))))

/-- The lower case of a letter. -/
def lower (c : UInt8) : UInt8 :=
  if 65 ≤ c.toNat ∧ c.toNat ≤ 90 then UInt8.ofNat (c.toNat + 32) else c

/-! Digits. -/

theorem hexChar_toNat {d : Nat} (hd : d < 16) :
    (hexChar d).toNat = if d < 10 then 48 + d else 87 + d := by
  unfold hexChar
  split
  · exact UInt8.toNat_ofNat_of_lt' (by simp only [UInt8.size]; omega)
  · exact UInt8.toNat_ofNat_of_lt' (by simp only [UInt8.size]; omega)

theorem lower_toNat (c : UInt8) :
    (lower c).toNat = if 65 ≤ c.toNat ∧ c.toNat ≤ 90 then c.toNat + 32 else c.toNat := by
  unfold lower
  split
  · exact UInt8.toNat_ofNat_of_lt' (by simp only [UInt8.size]; omega)
  · rfl

/-- A character has the value `d` when it is the digit `d` in either case. -/
theorem gethexdigit_iff {c : UInt8} {d : Nat} :
    gethexdigit c = d ↔ d < 16 ∧ lower c = hexChar d := by
  constructor
  · intro h
    have hd : d < 16 := by
      unfold gethexdigit at h
      split at h
      · omega
      · split at h
        · omega
        · split at h <;> omega
    refine ⟨hd, UInt8.toNat_inj.mp ?_⟩
    rw [lower_toNat, hexChar_toNat hd]
    unfold gethexdigit at h
    split at h
    · split <;> split <;> omega
    · split at h
      · split <;> split <;> omega
      · split at h
        · split <;> split <;> omega
        · omega
  · rintro ⟨hd, h⟩
    have hnat := congrArg UInt8.toNat h
    rw [lower_toNat, hexChar_toNat hd] at hnat
    have hc := c.toNat_lt
    unfold gethexdigit
    split at hnat
    · split at hnat
      · omega
      · rw [if_neg (by omega), if_pos (by omega)]
        omega
    · split at hnat
      · rw [if_pos (by omega)]
        omega
      · rw [if_neg (by omega), if_neg (by omega), if_pos (by omega)]
        omega

theorem gethexdigit_stop : gethexdigit 0 = -1 := by decide

theorem hexText_succ {n v : Nat} (hv : v < 16 ^ (n + 1)) :
    hexText (n + 1) v = hexChar (v / 16 ^ n) :: hexText n (v % 16 ^ n) := by
  induction n generalizing v with
  | zero =>
    have hmod : v % 16 = v := Nat.mod_eq_of_lt hv
    simp only [hexText, hmod, Nat.pow_zero, Nat.div_one, List.nil_append]
  | succ n ih =>
    have hdiv : v / 16 < 16 ^ (n + 1) := by
      apply (Nat.div_lt_iff_lt_mul (by omega)).mpr
      rwa [← Nat.pow_succ]
    have hhigh : v / 16 / 16 ^ n = v / 16 ^ (n + 1) := by
      rw [Nat.div_div_eq_div_mul, ← Nat.pow_succ']
    have hmid : v / 16 % 16 ^ n = v % 16 ^ (n + 1) / 16 := by
      rw [Nat.pow_succ', Nat.mod_mul_right_div_self]
    have hlow : v % 16 = v % 16 ^ (n + 1) % 16 :=
      (Nat.mod_mod_of_dvd v ⟨16 ^ n, Nat.pow_succ'⟩).symm
    rw [hexText, ih hdiv, hhigh, hmid, hlow]
    rfl

theorem shift_or {a d : Nat} (hd : d < 16) : (a <<< 4) ||| d = a * 16 + d := by
  rw [← Nat.shiftLeft_add_eq_or_of_lt (by omega), Nat.shiftLeft_eq]

/-- One more digit, while the word has room for it. -/
theorem push_digit {w d : Nat} {val : BitVec w} (hd : d < 16)
    (hroom : (val.toNat + 1) * 16 ≤ 2 ^ w) :
    ((val <<< 4) ||| BitVec.ofNat w d).toNat = val.toNat * 16 + d := by
  have hshift : (val <<< 4).toNat = val.toNat <<< 4 := by
    rw [BitVec.toNat_shiftLeft, Nat.mod_eq_of_lt]
    rw [Nat.shiftLeft_eq]
    omega
  have hdigit : (BitVec.ofNat w d).toNat = d := by
    rw [BitVec.toNat_ofNat]
    apply Nat.mod_eq_of_lt
    omega
  rw [BitVec.toNat_or, hshift, hdigit, shift_or hd]

/-! What the scanners read. -/

theorem scans_expect {c : UInt8} (hc : c ≠ 0) (halone : ∀ b, lower b = c ↔ b = c) :
    ScansUpTo lower 0 (expect c) fun _ text => text = [c] := by
  unfold expect
  refine Scans.congr (Scans.item Fault.outOfBounds ?_) fun u word => ?_
  · exact if_neg hc.symm
  constructor
  · rintro ⟨b, hb, rfl⟩
    split at hb
    · next hbc => exact congrArg (· :: []) ((halone b).mpr hbc)
    · cases hb
  · intro hword
    obtain ⟨b, rfl, hb⟩ := List.map_eq_singleton_iff.mp hword
    exact ⟨b, if_pos ((halone b).mp hb), rfl⟩

theorem scans_hexDigit :
    ScansUpTo lower 0 hexDigit fun d text => d < 16 ∧ text = [hexChar d] := by
  unfold hexDigit
  refine Scans.congr (Scans.item Fault.outOfBounds ?_) fun d word => ?_
  · exact if_pos gethexdigit_stop
  constructor
  · rintro ⟨c, hc, rfl⟩
    split at hc
    · cases hc
    · next hne =>
      have hvalue : gethexdigit c = d := by
        have hpos : 0 ≤ gethexdigit c := by
          unfold gethexdigit at hne ⊢
          split <;> omega
        rw [← Option.some.inj hc]
        omega
      obtain ⟨hd, hlower⟩ := gethexdigit_iff.mp hvalue
      exact ⟨hd, congrArg (· :: []) hlower⟩
  · rintro ⟨hd, hword⟩
    obtain ⟨c, rfl, hc⟩ := List.map_eq_singleton_iff.mp hword
    have hvalue := gethexdigit_iff.mpr ⟨hd, hc⟩
    refine ⟨c, ?_, rfl⟩
    rw [if_neg (by omega), hvalue]
    rfl

/-- `n` digits behind the value `val` make `out`. -/
def DigitsRead {w : Nat} (n : Nat) (val out : BitVec w) (text : Bytes) : Prop :=
  ∃ v < 16 ^ n, out.toNat = val.toNat * 16 ^ n + v ∧ text = hexText n v

theorem digitsRead_succ {w n : Nat} {val out : BitVec w}
    (hpush : ∀ d < 16, ((val <<< 4) ||| BitVec.ofNat w d).toNat = val.toNat * 16 + d)
    (text : Bytes) :
    (∃ d front back, (d < 16 ∧ front = [hexChar d]) ∧
        DigitsRead n ((val <<< 4) ||| BitVec.ofNat w d) out back ∧ text = front ++ back) ↔
      DigitsRead (n + 1) val out text := by
  constructor
  · rintro ⟨d, front, back, ⟨hd, rfl⟩, ⟨v, hv, hout, rfl⟩, rfl⟩
    have hlt : d * 16 ^ n + v < 16 ^ (n + 1) := by
      have hle : d * 16 ^ n ≤ 15 * 16 ^ n := Nat.mul_le_mul_right _ (by omega)
      rw [Nat.pow_succ]
      omega
    refine ⟨d * 16 ^ n + v, hlt, ?_, ?_⟩
    · rw [hout, hpush d hd]
      ring
    · rw [hexText_succ hlt, Nat.add_comm, Nat.add_mul_div_right _ _ (by positivity),
        Nat.div_eq_of_lt hv, Nat.zero_add, Nat.add_mul_mod_self_right, Nat.mod_eq_of_lt hv]
      rfl
  · rintro ⟨v, hv, hout, rfl⟩
    have hd : v / 16 ^ n < 16 := by
      apply (Nat.div_lt_iff_lt_mul (by positivity)).mpr
      rwa [← Nat.pow_succ']
    refine ⟨v / 16 ^ n, _, hexText n (v % 16 ^ n), ⟨hd, rfl⟩,
      ⟨v % 16 ^ n, Nat.mod_lt _ (by positivity), ?_, rfl⟩, hexText_succ hv⟩
    have hsplit := Nat.div_add_mod v (16 ^ n)
    rw [hout, hpush _ hd]
    conv_lhs => rw [← hsplit]
    ring

theorem scans_hexDigits {w : Nat} (n : Nat) {val : BitVec w}
    (hroom : (val.toNat + 1) * 16 ^ n ≤ 2 ^ w) :
    ScansUpTo lower 0 (hexDigits w n val) (DigitsRead n val) := by
  induction n generalizing val with
  | zero =>
    apply (ScansUpTo.pure val).congr
    intro out text
    constructor
    · rintro ⟨rfl, rfl⟩
      exact ⟨0, by omega, by omega, rfl⟩
    · rintro ⟨v, hv, hout, rfl⟩
      exact ⟨BitVec.eq_of_toNat_eq (by omega), rfl⟩
  | succ n ih =>
    have hroom' : (val.toNat + 1) * 16 * 16 ^ n ≤ 2 ^ w := by
      rwa [Nat.mul_assoc, ← Nat.pow_succ']
    have hpush : ∀ d < 16, ((val <<< 4) ||| BitVec.ofNat w d).toNat = val.toNat * 16 + d := by
      intro d hd
      exact push_digit hd ((Nat.le_mul_of_pos_right _ (by positivity)).trans hroom')
    have hnext : ∀ d < 16, ScansUpTo lower 0 (hexDigits w n ((val <<< 4) ||| BitVec.ofNat w d))
        (DigitsRead n ((val <<< 4) ||| BitVec.ofNat w d)) := by
      intro d hd
      apply ih
      rw [hpush d hd]
      apply le_trans ?_ hroom'
      apply Nat.mul_le_mul_right
      omega
    apply (scans_hexDigit.bind fun d _ hd => hnext d hd.1).congr
    intro out text
    exact digitsRead_succ hpush text

/-- A word of `4 * n` bits is read from its `n` digits. -/
theorem scans_word {w n : Nat} (hw : 16 ^ n = 2 ^ w) :
    ScansUpTo lower 0 (hexDigits w n 0) fun out text => text = hexText n out.toNat := by
  apply (@scans_hexDigits w n 0 (by simp [hw])).congr
  intro out text
  constructor
  · rintro ⟨v, hv, hout, rfl⟩
    rw [hout]
    simp
  · rintro rfl
    exact ⟨out.toNat, by rw [hw]; exact out.isLt, by simp, rfl⟩

theorem scans_hexByte : ScansUpTo lower 0 hexByte fun b text => text = hexText 2 b.toNat := by
  unfold hexByte
  apply (scans_hexDigit.bind fun d₁ _ _ => scans_hexDigit.bind fun d₂ _ _ => ScansUpTo.pure _).congr
  intro b text
  constructor
  · rintro ⟨d₁, _, _, ⟨hd₁, rfl⟩, ⟨d₂, _, _, ⟨hd₂, rfl⟩, ⟨rfl, rfl⟩, rfl⟩, rfl⟩
    have hbyte : (BitVec.ofNat 8 (d₁ <<< 4 ||| d₂)).toNat = d₁ * 16 + d₂ := by
      rw [BitVec.toNat_ofNat, shift_or hd₂]
      omega
    have hdiv : (d₁ * 16 + d₂) / 16 % 16 = d₁ := by omega
    have hmod : (d₁ * 16 + d₂) % 16 = d₂ := by omega
    simp only [hexText, hbyte, hdiv, hmod]
    rfl
  · rintro rfl
    have hlt := b.isLt
    have hlow : b.toNat % 16 < 16 := Nat.mod_lt _ (by omega)
    have hhigh : b.toNat / 16 < 16 := by omega
    have hsame : b = BitVec.ofNat 8 ((b.toNat / 16) <<< 4 ||| b.toNat % 16) := by
      apply BitVec.eq_of_toNat_eq
      rw [BitVec.toNat_ofNat, shift_or hlow]
      omega
    refine ⟨b.toNat / 16, _, _, ⟨hhigh, rfl⟩,
      ⟨b.toNat % 16, _, _, ⟨hlow, rfl⟩, ⟨hsame, rfl⟩, rfl⟩, ?_⟩
    simp only [hexText, Nat.mod_eq_of_lt hhigh]
    rfl

theorem scans_hexBytes (n : Nat) :
    ScansUpTo lower 0 (hexBytes n) fun v text => text = bytesText v.toList := by
  induction n with
  | zero =>
    apply (ScansUpTo.pure _).congr
    intro v text
    rw [List.Vector.eq_nil v]
    exact and_iff_right rfl
  | succ n ih =>
    apply (scans_hexByte.field fun b => ih.field fun v => ScansUpTo.pure _).congr
    intro v text
    constructor
    · rintro ⟨b, _, ⟨bs, _, ⟨rfl, rfl⟩, rfl⟩, rfl⟩
      rw [List.append_nil]
      rfl
    · rintro rfl
      obtain ⟨b, bs, rfl⟩ := List.Vector.exists_eq_cons v
      refine ⟨b, _, ⟨bs, [], ⟨rfl, rfl⟩, rfl⟩, ?_⟩
      rw [List.append_nil]
      rfl

/-! The whole text. -/

theorem lower_of_mark {c : UInt8} (hc : c = 0x7b ∨ c = 0x2d ∨ c = 0x7d) (b : UInt8) :
    lower b = c ↔ b = c := by
  rw [← UInt8.toNat_inj, ← UInt8.toNat_inj, lower_toNat]
  have hmark : c.toNat = 123 ∨ c.toNat = 45 ∨ c.toNat = 125 := by
    rcases hc with rfl | rfl | rfl
    · exact Or.inl rfl
    · exact Or.inr (Or.inl rfl)
    · exact Or.inr (Or.inr rfl)
  split <;> omega

theorem Guid.data4_split (g : Guid) :
    ∃ (front : List.Vector (BitVec 8) 2) (back : List.Vector (BitVec 8) 6),
      g.data4 = front ++ back := by
  have hlen := g.data4.toList_length
  refine ⟨⟨g.data4.toList.take 2, by simp [hlen]⟩, ⟨g.data4.toList.drop 2, by simp [hlen]⟩, ?_⟩
  apply List.Vector.toList_injective
  exact (List.take_append_drop 2 g.data4.toList).symm

theorem scans_guidFields : ScansUpTo lower 0 guidFields fun g text => text = g.text := by
  have hopen := scans_expect (by decide) (lower_of_mark (Or.inl rfl))
  have hhyphen := scans_expect (by decide) (lower_of_mark (Or.inr (Or.inl rfl)))
  have hclose := scans_expect (by decide) (lower_of_mark (Or.inr (Or.inr rfl)))
  have h8 : ScansUpTo lower 0 get8hexdigits fun out text => text = hexText 8 out.toNat :=
    scans_word (by decide)
  have h4 : ScansUpTo lower 0 get4hexdigits fun out text => text = hexText 4 out.toNat :=
    scans_word (by decide)
  unfold guidFields
  apply (hopen.field fun _ => h8.field fun d₁ => hhyphen.field fun _ => h4.field fun d₂ =>
    hhyphen.field fun _ => h4.field fun d₃ => hhyphen.field fun _ =>
    (scans_hexBytes 2).field fun front => hhyphen.field fun _ =>
    (scans_hexBytes 6).field fun back => hclose.field fun _ => ScansUpTo.pure _).congr
  intro g text
  constructor
  · rintro ⟨_, _, ⟨d₁, _, ⟨_, _, ⟨d₂, _, ⟨_, _, ⟨d₃, _, ⟨_, _, ⟨front, _, ⟨_, _, ⟨back, _,
      ⟨_, _, ⟨rfl, rfl⟩, rfl⟩, rfl⟩, rfl⟩, rfl⟩, rfl⟩, rfl⟩, rfl⟩, rfl⟩, rfl⟩, rfl⟩, rfl⟩
    have hlen := front.toList_length
    simp only [Guid.text, List.Vector.toList_append, List.take_left' hlen, List.drop_left' hlen]
    rfl
  · rintro rfl
    obtain ⟨front, back, hsplit⟩ := g.data4_split
    have hlen := front.toList_length
    refine ⟨(), _, ⟨g.data1, _, ⟨(), _, ⟨g.data2, _, ⟨(), _, ⟨g.data3, _, ⟨(), _, ⟨front, _,
      ⟨(), _, ⟨back, _, ⟨(), [], ⟨?_, rfl⟩, rfl⟩, rfl⟩, rfl⟩, rfl⟩, rfl⟩, rfl⟩, rfl⟩, rfl⟩, rfl⟩,
      rfl⟩, ?_⟩
    · rw [← hsplit]
    · simp only [Guid.text, hsplit, List.Vector.toList_append, List.take_left' hlen,
        List.drop_left' hlen]
      rfl

/-- `parse_as_guid` reads no byte behind the NUL, and accepts exactly the texts of a GUID with
digits in either case. -/
theorem parseAsGuid_iff {text : Bytes} (hnul : 0 ∉ text) (rest : Bytes) :
    ∃ o, parseAsGuid (text ++ 0 :: rest) = .ok o ∧ ∀ g, o = some g ↔ text.map lower = g.text :=
  scanAll_iff Fault.outOfBounds 0 scans_guidFields hnul rest

/-! Writing and reading back. -/

/-- What a lower-case text consists of: no letter changes, no byte ends the string. -/
def Plain (text : Bytes) : Prop := ∀ c ∈ text, lower c = c ∧ c ≠ 0

theorem Plain.append {a b : Bytes} (ha : Plain a) (hb : Plain b) : Plain (a ++ b) := by
  intro c hc
  rcases List.mem_append.mp hc with hc | hc
  · exact ha c hc
  · exact hb c hc

theorem plain_hexText (n v : Nat) : Plain (hexText n v) := by
  induction n generalizing v with
  | zero =>
    intro c hc
    cases hc
  | succ n ih =>
    apply (ih (v / 16)).append
    intro c hc
    obtain rfl := List.mem_singleton.mp hc
    have hd : v % 16 < 16 := Nat.mod_lt v (by omega)
    have hnat := hexChar_toNat hd
    constructor
    · apply UInt8.toNat_inj.mp
      rw [lower_toNat, hnat]
      split <;> split <;> omega
    · intro hzero
      rw [hzero] at hnat
      change 0 = _ at hnat
      split at hnat <;> omega

theorem plain_bytesText (bs : List (BitVec 8)) : Plain (bytesText bs) := by
  intro c hc
  obtain ⟨b, -, hb⟩ := List.mem_flatMap.mp hc
  exact plain_hexText 2 b.toNat c hb

theorem plain_mark {c : UInt8} (hc : c = 0x7b ∨ c = 0x2d ∨ c = 0x7d) : Plain [c] := by
  intro b hb
  obtain rfl := List.mem_singleton.mp hb
  refine ⟨(lower_of_mark hc b).mpr rfl, ?_⟩
  rcases hc with rfl | rfl | rfl <;> decide

theorem Guid.text_plain (g : Guid) : Plain g.text := by
  have hopen := plain_mark (Or.inl rfl)
  have hhyphen := plain_mark (Or.inr (Or.inl rfl))
  have hclose := plain_mark (Or.inr (Or.inr rfl))
  unfold Guid.text
  exact hopen.append ((plain_hexText 8 _).append (hhyphen.append ((plain_hexText 4 _).append
    (hhyphen.append ((plain_hexText 4 _).append (hhyphen.append ((plain_bytesText _).append
      (hhyphen.append ((plain_bytesText _).append hclose)))))))))

theorem parseAsGuid_text (g : Guid) (rest : Bytes) :
    parseAsGuid (g.text ++ 0 :: rest) = .ok (some g) := by
  have hnul : 0 ∉ g.text := fun h => (g.text_plain 0 h).2 rfl
  obtain ⟨o, ho, hiff⟩ := parseAsGuid_iff hnul rest
  have hlower : g.text.map lower = g.text :=
    (List.map_congr_left fun c hc => (g.text_plain c hc).1).trans (List.map_id' _)
  rw [ho, (hiff g).mpr hlower]

/-- `parse_as_guid` reads no byte behind the NUL, accepts exactly the texts of a GUID, with digits
in either case, and reads every GUID back as it is written. -/
theorem parse_as_guid_exact :
    (∀ text rest : Bytes, 0 ∉ text → ∃ o, parseAsGuid (text ++ 0 :: rest) = .ok o ∧
      ∀ g, o = some g ↔ text.map lower = g.text) ∧
    ∀ (g : Guid) (rest : Bytes), parseAsGuid (g.text ++ 0 :: rest) = .ok (some g) :=
  ⟨fun _ rest hnul => parseAsGuid_iff hnul rest, parseAsGuid_text⟩

/-- `{1A2B3C4D-5e6f-7081-92A3-b4c5d6e7f809}` -/
def mixedText : Bytes :=
  [0x7b, 49, 65, 50, 66, 51, 67, 52, 68, 0x2d, 53, 101, 54, 102, 0x2d, 55, 48, 56, 49, 0x2d,
    57, 50, 65, 51, 0x2d, 98, 52, 99, 53, 100, 54, 101, 55, 102, 56, 48, 57, 0x7d]

def mixedGuid : Guid :=
  ⟨0x1a2b3c4d, 0x5e6f, 0x7081, ⟨[0x92, 0xa3, 0xb4, 0xc5, 0xd6, 0xe7, 0xf8, 0x09], rfl⟩⟩

theorem mixedText_lower : mixedText.map lower = mixedGuid.text := by decide

theorem parse_as_guid_exact_mixed : parseAsGuid (mixedText ++ [0]) = .ok (some mixedGuid) := by
  obtain ⟨o, ho, hiff⟩ := parse_as_guid_exact.1 mixedText [] (by decide)
  rw [ho, (hiff mixedGuid).mpr mixedText_lower]

/-! Friendly names. -/

/-- `\Device\NPF_` -/
def devicePath : Bytes := [92, 68, 101, 118, 105, 99, 101, 92, 78, 80, 70, 95]

/-- Behind `\Device\NPF_`, else the name itself. -/
def guidTextOf (name : Bytes) : Bytes :=
  if devicePath.isPrefixOf name then name.drop 12 else name

section Names
variable (guidToLuid : Guid → Option Bytes)

/-- `get_windows_interface_friendly_name`; `none` is NULL from `guid_to_luid`, and `strdup` is
taken to succeed. -/
def friendlyName (name : Bytes) : Except Fault (Option Bytes) := do
  match ← parseAsGuid (guidTextOf name ++ [0]) with
  | none => return some name
  | some guid => return guidToLuid guid

/-- `findalldevs`; `found` is what `pcap_findalldevs` reports. -/
def findalldevs (found : Except String (List Bytes)) :
    Except Fault (PyOutcome (List (Option Bytes))) :=
  match found with
  | .error errbuff => .ok (.raise (.pcapError errbuff))
  | .ok [] => .ok (.raise (.pcapError "No valid interfaces to open"))
  | .ok devs => do return .ret (← devs.mapM (friendlyName guidToLuid))

/-- The loop of `luid_to_guid`; `strcmp` of NULL reads outside of every object. -/
def luidLoop (luid : Bytes) : List Bytes → Except Fault (Option Bytes)
  | [] => return none
  | name :: devs => do
    match ← friendlyName guidToLuid name with
    | none => throw .outOfBounds
    | some cursorLuid => if cursorLuid = luid then return some name else luidLoop luid devs

/-- `luid_to_guid`, and the exception it leaves set. -/
def luidToGuid (found : Except String (List Bytes)) (luid : Bytes) :
    Except Fault (Option Bytes × Option PyExc) :=
  match found with
  | .error errbuff => .ok (none, some (.pcapError errbuff))
  | .ok [] => .ok (none, some (.pcapError "No valid interfaces to open"))
  | .ok devs => do return (← luidLoop guidToLuid luid devs, none)

/-- `open_live`; a device that is no friendly name is used as it is, also when the devices
could not be listed and an exception is set. -/
def openLive (found : Except String (List Bytes))
    (pcapOpenLive : Bytes → Int32 → Bool → Int32 → Except String Capture) (mem : ObjectMem)
    (device : Bytes) (snaplen promisc toMs : Int32) : Except Fault (PyOutcome PcapObject) := do
  let (guid, err) ← luidToGuid guidToLuid found device
  match pcapOpenLive (guid.getD device) snaplen (promisc ≠ 0) toMs with
  | .error errbuff => return .raise (.pcapError errbuff)
  | .ok pt => return ⟨some (newPcapobject mem pt), err⟩

/-- What users see of a device: the friendly name of its GUID, which the system may not know, or
the device name where it holds no GUID. -/
def ShownAs (name : Bytes) (shown : Option Bytes) : Prop :=
  (∃ g : Guid, (guidTextOf name).map lower = g.text ∧ shown = guidToLuid g) ∨
    (∀ g : Guid, (guidTextOf name).map lower ≠ g.text) ∧ shown = some name

variable {guidToLuid}

theorem friendlyName_shown {name : Bytes} (hnul : 0 ∉ name) :
    ∃ shown, friendlyName guidToLuid name = .ok shown ∧
      ∀ other, ShownAs guidToLuid name other ↔ other = shown := by
  have hnul' : 0 ∉ guidTextOf name := by
    unfold guidTextOf
    split
    · exact fun h => hnul (List.mem_of_mem_drop h)
    · exact hnul
  obtain ⟨o, ho, hiff⟩ := parseAsGuid_iff hnul' []
  unfold friendlyName
  rw [ho]
  cases o with
  | none =>
    have hnone : ∀ g : Guid, (guidTextOf name).map lower ≠ g.text := by
      intro g hg
      cases (hiff g).mpr hg
    refine ⟨some name, rfl, fun other => ?_⟩
    constructor
    · rintro (⟨g, hg, -⟩ | ⟨-, rfl⟩)
      · exact absurd hg (hnone g)
      · rfl
    · rintro rfl
      exact Or.inr ⟨hnone, rfl⟩
  | some g =>
    have hg := (hiff g).mp rfl
    refine ⟨guidToLuid g, rfl, fun other => ?_⟩
    constructor
    · rintro (⟨g', hg', rfl⟩ | ⟨hnone, -⟩)
      · obtain rfl := Option.some.inj ((hiff g').mpr hg')
        rfl
      · exact absurd hg (hnone g)
    · rintro rfl
      exact Or.inl ⟨g, hg, rfl⟩

variable (guidToLuid) in
def shownName (name : Bytes) : Option Bytes :=
  match friendlyName guidToLuid name with
  | .ok shown => shown
  | .error _ => none

theorem friendlyName_eq {name : Bytes} (hnul : 0 ∉ name) :
    friendlyName guidToLuid name = .ok (shownName guidToLuid name) ∧
      ∀ other, ShownAs guidToLuid name other ↔ other = shownName guidToLuid name := by
  obtain ⟨shown, hok, hshown⟩ := friendlyName_shown hnul
  unfold shownName
  rw [hok]
  exact ⟨rfl, hshown⟩

section Lookup
variable {luid : Bytes} {devs : List Bytes} (hnul : ∀ d ∈ devs, 0 ∉ d)
include hnul

/-- Devices with other names are passed over. -/
theorem luidLoop_skip (hother : ∀ d ∈ devs, ∃ m, shownName guidToLuid d = some m ∧ m ≠ luid)
    (rest : List Bytes) :
    luidLoop guidToLuid luid (devs ++ rest) = luidLoop guidToLuid luid rest := by
  induction devs with
  | nil => rfl
  | cons d devs ih =>
    obtain ⟨m, hm, hne⟩ := hother d (by simp)
    have hok := (@friendlyName_eq guidToLuid d (hnul d (by simp))).1
    rw [hm] at hok
    rw [List.cons_append, luidLoop, hok]
    simp only [bind, Except.bind, if_neg hne]
    exact ih (fun x hx => hnul x (List.mem_cons_of_mem d hx))
      fun x hx => hother x (List.mem_cons_of_mem d hx)

/-- `strcmp` is called with NULL where a nameless device stands in front of the one looked for. -/
theorem luidLoop_fault_iff :
    luidLoop guidToLuid luid devs = .error .outOfBounds ↔
      ∃ pre post, devs.map (shownName guidToLuid) = pre ++ none :: post ∧ some luid ∉ pre := by
  induction devs with
  | nil =>
    constructor
    · intro h
      cases h
    · rintro ⟨pre, post, h, -⟩
      simp at h
  | cons d devs ih =>
    have hok := (@friendlyName_eq guidToLuid d (hnul d (by simp))).1
    have hrest := ih fun x hx => hnul x (List.mem_cons_of_mem d hx)
    rw [luidLoop, hok, List.map_cons]
    simp only [bind, Except.bind]
    cases hshown : shownName guidToLuid d with
    | none => exact iff_of_true rfl ⟨[], _, rfl, by simp⟩
    | some m =>
      by_cases hm : m = luid
      · simp only [if_pos hm]
        constructor
        · intro h
          cases h
        · rintro ⟨pre, post, h, hpre⟩
          cases pre with
          | nil => cases h
          | cons x pre =>
            obtain ⟨rfl, -⟩ := List.cons.inj h
            exact absurd (by simp [hm]) hpre
      · simp only [if_neg hm]
        rw [hrest]
        constructor
        · rintro ⟨pre, post, h, hpre⟩
          refine ⟨some m :: pre, post, by rw [h]; rfl, ?_⟩
          rw [List.mem_cons, not_or]
          exact ⟨fun he => hm (Option.some.inj he).symm, hpre⟩
        · rintro ⟨pre, post, h, hpre⟩
          cases pre with
          | nil => cases h
          | cons x pre =>
            obtain ⟨-, h⟩ := List.cons.inj h
            exact ⟨pre, post, h, fun hmem => hpre (List.mem_cons_of_mem x hmem)⟩

end Lookup

theorem luidToGuid_listed {devs : List Bytes} (hdevs : devs ≠ []) (luid : Bytes) :
    luidToGuid guidToLuid (.ok devs) luid =
      (luidLoop guidToLuid luid devs).map fun guid => (guid, none) := by
  cases devs with
  | nil => exact absurd rfl hdevs
  | cons d devs => rfl

end Names

/-- What `open_live` returns for a device that libpcap has been asked to open. -/
def openResult (mem : ObjectMem) : Except String Capture → PyOutcome PcapObject
  | .error errbuff => .raise (.pcapError errbuff)
  | .ok pt => .ret (newPcapobject mem pt)

def lanDevice : Bytes := devicePath ++ mixedText

end PcapyNg
