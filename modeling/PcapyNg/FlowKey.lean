import PcapyNg.Library.WordMixing
import PcapyNg.ClassifyRun
import Mathlib.Tactic.Ring

/-!
# Which flows share a key

The finaliser is a bijection, so two flows share a counter exactly when their folds
agree. The product of the packed ports only reaches the high half of the fold: for one
server endpoint the low half is constant, and the 48 bits of a client meet in 32.
-/

namespace PcapyNg
open WordMixing
set_option autoImplicit false

theorem xorShift_word_injective {s : UInt64} (hs : 0 < s.toNat % 64) :
    Function.Injective fun a : UInt64 => a ^^^ a >>> s := by
  intro a b hab
  apply UInt64.toBitVec_inj.mp
  have hb := congrArg UInt64.toBitVec hab
  simp only [UInt64.toBitVec_xor, UInt64.toBitVec_shiftRight, BitVec.ushiftRight_eq'] at hb
  exact xorShift_injective (s := (s.toBitVec % 64).toNat) (by simpa using hs) hb

theorem mul_word_injective {m inv : UInt64} (h : m * inv = 1) :
    Function.Injective fun a : UInt64 => a * m := by
  intro a b hab
  apply UInt64.toBitVec_inj.mp
  have hb := congrArg UInt64.toBitVec hab
  have hinv := congrArg UInt64.toBitVec h
  exact mul_injective (by simpa using hinv) (by simpa using hb)

theorem flowMix_injective : Function.Injective flowMix := by
  have h30 := xorShift_word_injective (s := 30) (by decide)
  have h27 := xorShift_word_injective (s := 27) (by decide)
  have h31 := xorShift_word_injective (s := 31) (by decide)
  have m1 := mul_word_injective (by decide : 0xBF58476D1CE4E5B9 * 0x96de1b173f119089 = (1 : UInt64))
  have m2 := mul_word_injective (by decide : 0x94D049BB133111EB * 0x319642b2d24d8ec3 = (1 : UInt64))
  exact h31.comp (m2.comp (h27.comp (m1.comp h30)))

theorem flowKey_eq_iff (sip dip sport dport proto sip' dip' sport' dport' proto' : UInt32) :
    flowKey sip dip sport dport proto = flowKey sip' dip' sport' dport' proto' ↔
      packAddrs sip dip ^^^ packPorts sport dport proto * 0x9E3779B97F4A7C15 =
        packAddrs sip' dip' ^^^ packPorts sport' dport' proto' * 0x9E3779B97F4A7C15 :=
  flowMix_injective.eq_iff

/-! The two halves of the packed addresses and of the port product. -/

theorem toBitVec_halves {x : UInt64} {hi lo : UInt32}
    (h : x.toNat = hi.toNat * 2 ^ 32 + lo.toNat) : x.toBitVec = hi.toBitVec ++ lo.toBitVec := by
  apply BitVec.eq_of_toNat_eq
  rw [BitVec.toNat_append, Nat.shiftLeft_eq, Nat.mul_comm,
    ← Nat.two_pow_add_eq_or_of_lt lo.toBitVec.isLt]
  simp only [UInt64.toNat_toBitVec, UInt32.toNat_toBitVec]
  omega

theorem packAddrs_toNat (sip dip : UInt32) :
    (packAddrs sip dip).toNat = sip.toNat * 2 ^ 32 + dip.toNat := by
  have hs := sip.toNat_lt
  have hd := dip.toNat_lt
  have hshift : (sip.toUInt64 <<< 32).toNat = sip.toNat <<< 32 := by
    simp [UInt64.toNat_shiftLeft, Nat.shiftLeft_eq]
    omega
  rw [packAddrs, UInt64.toNat_or, hshift, UInt32.toNat_toUInt64,
    ← Nat.shiftLeft_add_eq_or_of_lt hd, Nat.shiftLeft_eq]

theorem packPorts_toNat (sport dport : UInt16) {proto : UInt32} (hproto : proto.toNat < 256) :
    (packPorts sport.toUInt32 dport.toUInt32 proto).toNat =
      (sport.toNat * 2 ^ 16 + dport.toNat) * 2 ^ 32 + proto.toNat := by
  have hs := sport.toNat_lt
  have hd := dport.toNat_lt
  have ms : (sport.toUInt32 &&& 0xffff).toNat = sport.toNat := by
    rw [UInt32.toNat_and, UInt16.toNat_toUInt32]
    exact (Nat.and_two_pow_sub_one_eq_mod _ 16).trans (Nat.mod_eq_of_lt hs)
  have md : (dport.toUInt32 &&& 0xffff).toNat = dport.toNat := by
    rw [UInt32.toNat_and, UInt16.toNat_toUInt32]
    exact (Nat.and_two_pow_sub_one_eq_mod _ 16).trans (Nat.mod_eq_of_lt hd)
  have mp : (proto &&& 0xff).toNat = proto.toNat := by
    rw [UInt32.toNat_and]
    exact (Nat.and_two_pow_sub_one_eq_mod _ 8).trans (Nat.mod_eq_of_lt hproto)
  have h48 : ((sport.toUInt32 &&& 0xffff).toUInt64 <<< 48).toNat = sport.toNat <<< 48 := by
    rw [UInt64.toNat_shiftLeft, UInt32.toNat_toUInt64, ms]
    simp [Nat.shiftLeft_eq]
    omega
  have h32 : ((dport.toUInt32 &&& 0xffff).toUInt64 <<< 32).toNat = dport.toNat <<< 32 := by
    rw [UInt64.toNat_shiftLeft, UInt32.toNat_toUInt64, md]
    simp [Nat.shiftLeft_eq]
    omega
  rw [packPorts, UInt64.toNat_or, UInt64.toNat_or, h48, h32, UInt32.toNat_toUInt64, mp,
    Nat.or_assoc, ← Nat.shiftLeft_add_eq_or_of_lt (by omega : proto.toNat < 2 ^ 32),
    ← Nat.shiftLeft_add_eq_or_of_lt (by rw [Nat.shiftLeft_eq]; omega)]
  simp only [Nat.shiftLeft_eq]
  omega

/-- The high half of the port product; the low half does not see the ports. -/
def portWord (sport dport : UInt16) (proto : UInt32) : UInt32 :=
  let ports : UInt32 := sport.toUInt32 <<< 16 ||| dport.toUInt32
  let carry : UInt64 := (proto.toUInt64 * 0x9E3779B97F4A7C15) >>> 32
  ports * 0x7F4A7C15 + carry.toUInt32

theorem portWord_toNat (sport dport : UInt16) (proto : UInt32) :
    (portWord sport dport proto).toNat =
      ((sport.toNat * 2 ^ 16 + dport.toNat) * 0x7F4A7C15
        + (proto.toUInt64 * 0x9E3779B97F4A7C15).toNat / 2 ^ 32) % 2 ^ 32 := by
  have hs := sport.toNat_lt
  have hd := dport.toNat_lt
  have hports : (sport.toUInt32 <<< 16 ||| dport.toUInt32).toNat =
      sport.toNat * 2 ^ 16 + dport.toNat := by
    have hshift : (sport.toUInt32 <<< 16).toNat = sport.toNat <<< 16 := by
      rw [UInt32.toNat_shiftLeft, UInt16.toNat_toUInt32]
      simp [Nat.shiftLeft_eq]
      omega
    rw [UInt32.toNat_or, hshift, UInt16.toNat_toUInt32, ← Nat.shiftLeft_add_eq_or_of_lt hd,
      Nat.shiftLeft_eq]
  rw [portWord, UInt32.toNat_add, UInt32.toNat_mul, hports, UInt64.toNat_toUInt32,
    UInt64.toNat_shiftRight]
  simp [Nat.shiftRight_eq_div_pow, Nat.add_mod]

/-- Schoolbook multiplication modulo 2^64, for a factor whose low half is `p` below 32 free bits. -/
theorem mul_halves (P p Kh Kl : Nat) :
    (P * 2 ^ 32 + p) * (Kh * 2 ^ 32 + Kl) % 2 ^ 64 =
      ((P * Kl + p * (Kh * 2 ^ 32 + Kl) % 2 ^ 64 / 2 ^ 32) % 2 ^ 32) * 2 ^ 32
        + p * (Kh * 2 ^ 32 + Kl) % 2 ^ 64 % 2 ^ 32 := by
  have hsplit : (P * 2 ^ 32 + p) * (Kh * 2 ^ 32 + Kl) =
      P * Kh * 2 ^ 64 + P * Kl * 2 ^ 32 + p * (Kh * 2 ^ 32 + Kl) := by ring
  rw [hsplit]
  generalize P * Kh = a
  generalize P * Kl = b
  generalize p * (Kh * 2 ^ 32 + Kl) = q
  omega

theorem portProduct_toNat (sport dport : UInt16) {proto : UInt32} (hproto : proto.toNat < 256) :
    (packPorts sport.toUInt32 dport.toUInt32 proto * 0x9E3779B97F4A7C15).toNat =
      (portWord sport dport proto).toNat * 2 ^ 32
        + ((proto.toUInt64 * 0x9E3779B97F4A7C15).toUInt32).toNat := by
  have hfactor : (0x9E3779B97F4A7C15 : UInt64).toNat = 0x9E3779B9 * 2 ^ 32 + 0x7F4A7C15 := rfl
  have hprod : (proto.toUInt64 * 0x9E3779B97F4A7C15).toNat =
      proto.toNat * (0x9E3779B9 * 2 ^ 32 + 0x7F4A7C15) % 2 ^ 64 := by
    rw [UInt64.toNat_mul, UInt32.toNat_toUInt64, hfactor]
  rw [portWord_toNat, UInt64.toNat_mul, packPorts_toNat sport dport hproto, UInt64.toNat_toUInt32,
    hprod, hfactor]
  exact mul_halves _ _ _ _

/-- One server endpoint: the keys of two clients meet exactly when the difference of their
addresses is the difference of their port words. -/
theorem flowKey_same_server_eq_iff (dip : UInt32) (dport : UInt16) {proto : UInt32}
    (hproto : proto.toNat < 256) (sip sip' : UInt32) (sport sport' : UInt16) :
    flowKey sip dip sport.toUInt32 dport.toUInt32 proto =
        flowKey sip' dip sport'.toUInt32 dport.toUInt32 proto ↔
      sip ^^^ sip' = portWord sport dport proto ^^^ portWord sport' dport proto := by
  rw [flowKey_eq_iff, ← UInt64.toBitVec_inj, UInt64.toBitVec_xor, UInt64.toBitVec_xor,
    toBitVec_halves (packAddrs_toNat sip dip), toBitVec_halves (packAddrs_toNat sip' dip),
    toBitVec_halves (portProduct_toNat sport dport hproto),
    toBitVec_halves (portProduct_toNat sport' dport hproto), xor_eq_xor_iff, append_xor_eq_iff,
    ← UInt32.toBitVec_inj, UInt32.toBitVec_xor, UInt32.toBitVec_xor]

/-- Merging is a property of the fold: whatever the endpoint and the two source ports, every
client has a partner with its key. -/
theorem exists_colliding_client (dip : UInt32) (dport : UInt16) {proto : UInt32}
    (hproto : proto.toNat < 256) (sip : UInt32) (sport sport' : UInt16) :
    ∃ sip', flowKey sip dip sport.toUInt32 dport.toUInt32 proto =
      flowKey sip' dip sport'.toUInt32 dport.toUInt32 proto := by
  refine ⟨sip ^^^ (portWord sport dport proto ^^^ portWord sport' dport proto), ?_⟩
  rw [flowKey_same_server_eq_iff dip dport hproto, ← UInt32.xor_assoc, UInt32.xor_self,
    UInt32.zero_xor]

/-- Two clients of one TCP or UDP endpoint get different keys exactly when they use one source
port, or when their addresses do not differ by the very word their port words differ by. -/
theorem flowKey_clients_apart_iff (dip : UInt32) (dport : UInt16) (proto : UInt32)
    (hproto : proto = 6 ∨ proto = 17) (sip sip' : UInt32) (sport sport' : UInt16) :
    ((sip, sport) ≠ (sip', sport') →
        flowKey sip dip sport.toUInt32 dport.toUInt32 proto ≠
          flowKey sip' dip sport'.toUInt32 dport.toUInt32 proto) ↔
      sport = sport' ∨
        sip ^^^ sip' ≠ portWord sport dport proto ^^^ portWord sport' dport proto := by
  have hsmall : proto.toNat < 256 := by rcases hproto with rfl | rfl <;> decide
  have hkey := flowKey_same_server_eq_iff dip dport hsmall sip sip' sport sport'
  constructor
  · intro h
    by_cases hport : sport = sport'
    · exact Or.inl hport
    · exact Or.inr fun hx => h (fun hpair => hport (congrArg Prod.snd hpair)) (hkey.mpr hx)
  · rintro (rfl | hx) hpair heq
    · -- equal ports leave nothing to cancel a difference of the addresses
      have hzero := hkey.mp heq
      rw [UInt32.xor_self, UInt32.xor_eq_zero_iff] at hzero
      exact hpair (by rw [hzero])
    · exact hx (hkey.mp heq)

theorem flowKey_clients_apart_iff_https :
    flowKey 0x0a000001 0x08080808 40000 443 6 ≠ flowKey 0x0a000002 0x08080808 40001 443 6 :=
  (flowKey_clients_apart_iff 0x08080808 443 6 (Or.inl rfl) 0x0a000001 0x0a000002 40000 40001).mpr
    (Or.inr (by decide)) (by decide)

/-- A bare ACK of 1.0.0.10 port 40000 to 8.8.8.8 port 443. -/
def firstClient : Packet where
  bytes := [0, 0, 0, 0, 0, 2, 0, 0, 0, 0, 0, 1, 0x08, 0x00,
    0x45, 0, 0, 40, 0, 0, 0, 0, 64, 6, 0, 0, 1, 0, 0, 10, 8, 8, 8, 8,
    0x9c, 0x40, 0x01, 0xbb, 0, 0, 0, 1, 0, 0, 0, 1, 0x50, 0x10, 0, 64, 0, 0, 0, 0]
  small := by decide

/-- A bare ACK of 1.0.247.142 port 40001 to the same server. -/
def secondClient : Packet where
  bytes := [0, 0, 0, 0, 0, 2, 0, 0, 0, 0, 0, 1, 0x08, 0x00,
    0x45, 0, 0, 40, 0, 0, 0, 0, 64, 6, 0, 0, 1, 0, 247, 142, 8, 8, 8, 8,
    0x9c, 0x41, 0x01, 0xbb, 0, 0, 0, 1, 0, 0, 0, 1, 0x50, 0x10, 0, 64, 0, 0, 0, 0]
  small := by decide

/-- The classes that the generic profile gives packets one after the other, with cutoff 1. -/
def clientClasses (ps : List Packet) : Except Fault (List Nat) :=
  (classifyAll (fun flowtab p =>
    classifyGeneric ⟨53, [], [], 14, 0⟩ none flowtab 1 p.bytes p.caplen) (flowtabBuild {} 20) ps).map
    Prod.fst

/-- Two clients of one server port with one key. The first packet of either is the head of its
flow; behind the other client's it is none. -/
theorem flowKey_clients_collide :
    ¬ ((0x0a000001, 40000) ≠ ((0x8ef70001, 40001) : UInt32 × UInt16) →
        flowKey 0x0a000001 0x08080808 40000 443 6 ≠ flowKey 0x8ef70001 0x08080808 40001 443 6) ∧
      flowAt firstClient.bytes 14 = ⟨0x0a000001, 0x08080808, 40000, 443, 6⟩ ∧
      flowAt secondClient.bytes 14 = ⟨0x8ef70001, 0x08080808, 40001, 443, 6⟩ ∧
      clientClasses [firstClient] = .ok [1] ∧ clientClasses [secondClient] = .ok [1] ∧
      clientClasses [firstClient, secondClient] = .ok [1, 0] := by
  refine ⟨?_, by decide, by decide, by decide, by decide, by decide⟩
  intro h
  exact h (by decide) (by decide)

end PcapyNg
