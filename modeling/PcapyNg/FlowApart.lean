import PcapyNg.FlowKey
import PcapyNg.PacketView

/-!
# Flows that never share a key

The fold xors the addresses with a product that is a bijection of ports and protocol, and the low
half of the product depends on the protocol alone. So a difference in the addresses alone, in
the ports alone, or in the destination under one protocol always reaches the key.
-/

namespace PcapyNg
open WordMixing
set_option autoImplicit false

/-- The same connection seen from the other end. -/
def Flow.reverse (t : Flow) : Flow where
  src := t.dst
  dst := t.src
  sport := t.dport
  dport := t.sport
  proto := t.proto

/-- `b` of `flow_key` for this flow. -/
def Flow.packed (t : Flow) : UInt64 :=
  packPorts t.sport.toUInt32 t.dport.toUInt32 t.proto.toUInt32

/-- The word that the finaliser is given, as a number. -/
def Flow.fold (t : Flow) : Nat :=
  (t.src.toNat * 2 ^ 32 + t.dst.toNat) ^^^ (t.packed.toNat * 0x9E3779B97F4A7C15 % 2 ^ 64)

theorem Flow.proto_lt (t : Flow) : t.proto.toUInt32.toNat < 256 := by
  rw [UInt8.toNat_toUInt32]
  exact t.proto.toNat_lt

theorem Flow.key_eq_iff (t t' : Flow) :
    t.key = t'.key ↔ packAddrs t.src t.dst ^^^ t.packed * 0x9E3779B97F4A7C15 =
      packAddrs t'.src t'.dst ^^^ t'.packed * 0x9E3779B97F4A7C15 := flowKey_eq_iff _ _ _ _ _ _ _ _ _ _

/-- Two keys are equal exactly when the folds are. -/
theorem Flow.key_eq_iff_fold (t t' : Flow) : t.key = t'.key ↔ t.fold = t'.fold := by
  have hfold : ∀ t : Flow,
      (packAddrs t.src t.dst ^^^ t.packed * 0x9E3779B97F4A7C15).toNat = t.fold := by
    intro t
    rw [UInt64.toNat_xor, packAddrs_toNat, UInt64.toNat_mul]
    rfl
  rw [key_eq_iff, ← UInt64.toNat_inj, hfold, hfold]

/-- Ports and protocol are read back from their packed word. -/
theorem Flow.packed_inj {t t' : Flow} (h : t.packed = t'.packed) :
    t.sport = t'.sport ∧ t.dport = t'.dport ∧ t.proto = t'.proto := by
  have hnat := congrArg UInt64.toNat h
  rw [packed, packed, packPorts_toNat t.sport t.dport t.proto_lt,
    packPorts_toNat t'.sport t'.dport t'.proto_lt] at hnat
  have hp := t.proto_lt
  have hp' := t'.proto_lt
  have hd := t.dport.toNat_lt
  have hd' := t'.dport.toNat_lt
  rw [UInt8.toNat_toUInt32] at hp hp' hnat
  rw [UInt8.toNat_toUInt32] at hnat
  refine ⟨?_, ?_, ?_⟩
  · apply UInt16.toNat_inj.mp
    omega
  · apply UInt16.toNat_inj.mp
    omega
  · apply UInt8.toNat_inj.mp
    omega

theorem packAddrs_inj {src dst src' dst' : UInt32} (h : packAddrs src dst = packAddrs src' dst') :
    src = src' ∧ dst = dst' := by
  have hnat := congrArg UInt64.toNat h
  rw [packAddrs_toNat, packAddrs_toNat] at hnat
  have hd := dst.toNat_lt
  have hd' := dst'.toNat_lt
  constructor
  · apply UInt32.toNat_inj.mp
    omega
  · apply UInt32.toNat_inj.mp
    omega

section Apart
variable {t t' : Flow} (hkey : t.key = t'.key)
include hkey

/-- Between one pair of addresses the key tells ports and protocol. -/
theorem Flow.eq_of_same_addresses (hsrc : t.src = t'.src) (hdst : t.dst = t'.dst) : t = t' := by
  rw [key_eq_iff, hsrc, hdst, UInt64.xor_right_inj] at hkey
  have hinv : (0x9E3779B97F4A7C15 : UInt64) * 0xf1de83e19937733d = 1 := by decide
  obtain ⟨hsport, hdport, hproto⟩ := packed_inj (mul_word_injective hinv hkey)
  cases t
  cases t'
  simp_all

/-- Under the same ports and protocol the key tells the addresses. -/
theorem Flow.eq_of_same_ports (hsport : t.sport = t'.sport) (hdport : t.dport = t'.dport)
    (hproto : t.proto = t'.proto) : t = t' := by
  have hpacked : t.packed = t'.packed := by rw [packed, packed, hsport, hdport, hproto]
  rw [key_eq_iff, hpacked, UInt64.xor_left_inj] at hkey
  obtain ⟨hsrc, hdst⟩ := packAddrs_inj hkey
  cases t
  cases t'
  simp_all

/-- Under one protocol the low half of the fold is the destination, xored with a constant. -/
theorem Flow.dst_eq_of_same_proto (hproto : t.proto = t'.proto) : t.dst = t'.dst := by
  have hhalves : ∀ t : Flow, (packAddrs t.src t.dst ^^^ t.packed * 0x9E3779B97F4A7C15).toBitVec =
      (t.src.toBitVec ^^^ (portWord t.sport t.dport t.proto.toUInt32).toBitVec) ++
        (t.dst.toBitVec ^^^ (t.proto.toUInt32.toUInt64 * 0x9E3779B97F4A7C15).toUInt32.toBitVec) := by
    intro t
    rw [UInt64.toBitVec_xor, toBitVec_halves (packAddrs_toNat t.src t.dst),
      Flow.packed, toBitVec_halves (portProduct_toNat t.sport t.dport t.proto_lt), BitVec.xor_append]
  rw [key_eq_iff, ← UInt64.toBitVec_inj, hhalves, hhalves, hproto] at hkey
  have hlow := (append_inj hkey).2
  rw [BitVec.xor_left_inj] at hlow
  exact UInt32.toBitVec_inj.mp hlow

end Apart

/-- Where `flow_key` cannot merge two flows, and when it merges them at all. -/
theorem flow_key_apart (t t' : Flow) :
    (t ≠ t' →
      (t.src = t'.src ∧ t.dst = t'.dst → t.key ≠ t'.key) ∧
      (t.sport = t'.sport ∧ t.dport = t'.dport ∧ t.proto = t'.proto → t.key ≠ t'.key) ∧
      (t.proto = t'.proto ∧ t.dst ≠ t'.dst → t.key ≠ t'.key) ∧
      (t' = t.reverse → t.key ≠ t'.key)) ∧
    (t.key = t'.key ↔ t.fold = t'.fold) := by
  refine ⟨?_, Flow.key_eq_iff_fold t t'⟩
  intro hne
  refine ⟨?_, ?_, ?_, ?_⟩
  · intro haddrs hkey
    exact hne (Flow.eq_of_same_addresses hkey haddrs.1 haddrs.2)
  · intro hports hkey
    exact hne (Flow.eq_of_same_ports hkey hports.1 hports.2.1 hports.2.2)
  · intro hdst hkey
    exact hdst.2 (Flow.dst_eq_of_same_proto hkey hdst.1)
  · intro hrev hkey
    subst hrev
    -- the two ends agree on the destination only if they have one address
    have hdst : t.dst = t.src := Flow.dst_eq_of_same_proto hkey rfl
    exact hne (Flow.eq_of_same_addresses hkey hdst.symm hdst)

end PcapyNg
