import PcapyNg.AddressSet

/-!
# Address lists of any length

The length of a list is 64 bits wide, and everything `ipset_build` computes from it 32: the
count, `n * 2 + 1`, `i * 4` and the capacity. Up to 2^30 addresses none of them wraps. Behind
that `i * 4` does, and the loop reads the front of the list again in place of its end.
-/

namespace PcapyNg
open LinearProbing
set_option autoImplicit false

/-- The byte offsets that the insertion loop reads at, word by word. -/
def ipsetReads (data : Bytes) : List Nat :=
  (List.range (UInt32.ofNat (data.length / 4)).toNat).map fun i => (UInt32.ofNat i * 4).toNat

theorem ipsetReads_at {data : Bytes} {i : Nat} (hi : i < (UInt32.ofNat (data.length / 4)).toNat) :
    (ipsetReads data)[i]? = some (4 * (i % 2 ^ 30)) := by
  rw [ipsetReads, List.getElem?_map, List.getElem?_range hi, Option.map_some, wordOffset_toNat]

/-- What is inserted are the words at these offsets. -/
theorem insertedWords_eq_reads (data : Bytes) :
    insertedWords data = (ipsetReads data).map (wordAt data) := by
  rw [insertedWords, ipsetReads, List.map_map]
  apply List.map_congr_left
  intro i _
  rw [Function.comp_apply, wordOffset_toNat]

/-- `ipset_build` reads word `i` at `4 * i`, chooses more slots than there are addresses, and
builds a set that answers for every address of the list. -/
structure BuildExact (data : Bytes) : Prop where
  reads : ∀ i : Nat, i < data.length / 4 → (ipsetReads data)[i]? = some (4 * i)
  room : ((packedWords data).toFinset.erase 0).card <
    (ipsetGrow (UInt32.ofNat (data.length / 4)) 27 16 4).1.toNat
  built : ∃ s, ipsetBuild {} data = .ok (some s) ∧
    ∀ ip, ipsetHas (some s) ip = .ok (decide (ip ≠ 0 ∧ ip ∈ packedWords data))

theorem BuildExact.length_le {data : Bytes} (h : BuildExact data) : data.length / 4 ≤ 2 ^ 30 := by
  by_contra hlarge
  -- word 2^30 is not read at 2^32, which no 32-bit offset is
  have hread := h.reads (2 ^ 30) (by omega)
  rw [ipsetReads, List.getElem?_map, Option.map_eq_some_iff] at hread
  obtain ⟨i, -, hoff⟩ := hread
  have hlt := (UInt32.ofNat i * 4).toNat_lt
  omega

theorem buildExact_of_length_le {data : Bytes} (hsmall : data.length / 4 ≤ 2 ^ 30) :
    BuildExact data := by
  have hn : (UInt32.ofNat (data.length / 4)).toNat = data.length / 4 := by
    rw [UInt32.toNat_ofNat']
    omega
  refine ⟨?_, ?_, ?_⟩
  · intro i hi
    rw [ipsetReads_at (by omega), Nat.mod_eq_of_lt (by omega)]
  · apply lt_of_le_of_lt _ (ipsetGrow_fits (by omega))
    calc ((packedWords data).toFinset.erase 0).card
        ≤ (packedWords data).toFinset.card := Finset.card_erase_le
      _ ≤ (packedWords data).length := List.toFinset_card_le _
      _ = (UInt32.ofNat (data.length / 4)).toNat := by
        rw [packedWords, List.length_map, List.length_range, hn]
  · obtain ⟨s, hs, hmem⟩ := ipsetBuild_spec data hsmall
    exact ⟨s.table, hs, ipsetHas_of_mem hmem⟩

/-- The arithmetic of `ipset_build` holds exactly up to 2^30 addresses. -/
theorem ipset_build_exact_iff (data : Bytes) : BuildExact data ↔ data.length / 4 ≤ 2 ^ 30 := by
  constructor
  · exact BuildExact.length_le
  · exact buildExact_of_length_le

/-! An address that is missed. -/

/-- A list of which only zero words are come to is built into an empty set. -/
theorem ipsetBuild_zeros {data : Bytes} (hzero : ∀ ip ∈ insertedWords data, ip = 0) :
    ∃ s, ipsetBuild {} data = .ok (some s) ∧ ∀ ip, ipsetHas (some s) ip = .ok false := by
  obtain ⟨mask, shift, bits, hmask, hhigh, -, -, -, hbuild⟩ := ipsetBuild_eq data
  refine ⟨⟨fun _ => 0, shift⟩, ?_, ?_⟩
  · rw [hbuild, insertAll_empty _ hzero]
    rfl
  · intro ip
    rw [ipsetHas]
    by_cases hip : ip = 0
    · rw [if_pos hip]
    · rw [if_neg hip, ipsetHasFrom, if_pos rfl]

/-- `n` words of 0.0.0.0 and one address behind them. -/
def behindZeros (n : Nat) (ip : UInt32) : Bytes := List.replicate (4 * n) 0 ++ (bytesLE ip ++ [])

theorem behindZeros_words (n : Nat) (ip : UInt32) : (behindZeros n ip).length / 4 = n + 1 := by
  rw [behindZeros, List.length_append, List.length_replicate, List.append_nil, bytesLE_length]
  omega

theorem behindZeros_mem (n : Nat) (ip : UInt32) : ip ∈ packedWords (behindZeros n ip) := by
  refine List.mem_map.mpr ⟨n, List.mem_range.mpr (by rw [behindZeros_words]; omega), ?_⟩
  have hword := wordAt_bytesLE (List.replicate (4 * n) 0) ip []
  rwa [List.length_replicate] at hword

theorem behindZeros_zero {n : Nat} (ip : UInt32) {i : Nat} (hi : i < n) :
    wordAt (behindZeros n ip) (4 * i) = 0 := by
  have hbyte : ∀ k, k < 4 * n → byteAt (behindZeros n ip) k = 0 := by
    intro k hk
    rw [behindZeros, byteAt_append_left (by rwa [List.length_replicate]), byteAt,
      List.getD_eq_getElem?_getD, List.getElem?_replicate, if_pos hk]
    rfl
  rw [wordAt, hbyte _ (by omega), hbyte _ (by omega), hbyte _ (by omega), hbyte _ (by omega)]
  rfl

/-- 10.0.0.1 behind 2^30 words of 0.0.0.0: the set is built, and does not have it. -/
theorem ipset_build_misses_address :
    0x0100000a ∈ packedWords (behindZeros (2 ^ 30) 0x0100000a) ∧
      (∃ s, ipsetBuild {} (behindZeros (2 ^ 30) 0x0100000a) = .ok (some s) ∧
        ipsetHas (some s) 0x0100000a = .ok false) ∧
      ¬ BuildExact (behindZeros (2 ^ 30) 0x0100000a) := by
  refine ⟨behindZeros_mem _ _, ?_, ?_⟩
  · have hzero : ∀ ip ∈ insertedWords (behindZeros (2 ^ 30) 0x0100000a), ip = 0 := by
      intro ip hip
      obtain ⟨i, -, rfl⟩ := List.mem_map.mp hip
      exact behindZeros_zero _ (Nat.mod_lt i (by decide))
    obtain ⟨s, hs, hhas⟩ := ipsetBuild_zeros hzero
    exact ⟨s, hs, hhas _⟩
  · intro h
    have hle := h.length_le
    rw [behindZeros_words] at hle
    omega

end PcapyNg
