import Mathlib.Tactic.IntervalCases
import PcapyNg.VlanTags

/-!
# Well-formed IPv4 packets

Headers as structures with their options, and the bytes they are sent as. Whatever the
classifiers read behind the IP header's position is shown to be the field that was put
there.
-/

namespace PcapyNg
set_option autoImplicit false

/-- An `unsigned short` in network order. -/
def bytesBE (w : UInt16) : Bytes := [(w >>> 8).toUInt8, w.toUInt8]

@[simp] theorem bytesBE_length (w : UInt16) : (bytesBE w).length = 2 := rfl

theorem or_bytesBE (w : UInt16) :
    (w >>> 8).toUInt8.toUInt16 <<< 8 ||| w.toUInt8.toUInt16 = w := by
  have hlt := w.toNat_lt
  have hlow : w.toNat % 2 ^ 8 < 2 ^ 8 := Nat.mod_lt _ (by decide)
  apply UInt16.toNat_inj.mp
  simp only [UInt16.toNat_or, UInt16.toNat_shiftLeft, UInt8.toNat_toUInt16, UInt16.toNat_toUInt8,
    UInt16.toNat_shiftRight]
  have h8 : (8 : UInt16).toNat % 16 = 8 := rfl
  rw [h8, Nat.shiftRight_eq_div_pow, Nat.shiftLeft_eq]
  have hhigh : w.toNat / 2 ^ 8 % 2 ^ 8 * 2 ^ 8 % 2 ^ 16 = w.toNat / 2 ^ 8 * 2 ^ 8 := by omega
  rw [hhigh, ← Nat.shiftLeft_eq, ← Nat.shiftLeft_add_eq_or_of_lt hlow, Nat.shiftLeft_eq]
  omega

theorem portAt_bytesBE (pre : Bytes) (w : UInt16) (post : Bytes) :
    portAt (pre ++ (bytesBE w ++ post)) pre.length = w := by
  have hbyte : ∀ i, byteAt (pre ++ (bytesBE w ++ post)) (pre.length + i) =
      byteAt (bytesBE w ++ post) i := fun i => byteAt_append_right pre _ i
  have h0 := hbyte 0
  rw [Nat.add_zero] at h0
  rw [portAt, h0, hbyte 1]
  exact or_bytesBE w

/-- Header options: whole words, ten at most. -/
structure Options where
  bytes : Bytes
  words : Nat
  length_eq : bytes.length = 4 * words
  fits : words ≤ 10
  deriving DecidableEq

structure TcpHeader where
  sport : UInt16
  dport : UInt16
  seq : UInt32
  ack : UInt32
  reserved : Fin 16
  flags : UInt8
  window : UInt16
  checksum : UInt16
  urgent : UInt16
  options : Options
  deriving DecidableEq

structure UdpHeader where
  sport : UInt16
  dport : UInt16
  checksum : UInt16
  deriving DecidableEq

inductive Transport where
  | tcp (hdr : TcpHeader) (payload : Bytes)
  | udp (hdr : UdpHeader) (payload : Bytes)
  | other (proto : UInt8) (hproto : proto ≠ 6 ∧ proto ≠ 17) (payload : Bytes)
  deriving DecidableEq

/-- `5 + words` in the high nibble, as a TCP data offset. -/
def TcpHeader.offsetByte (h : TcpHeader) : UInt8 :=
  UInt8.ofNat (16 * (5 + h.options.words) + h.reserved)

def TcpHeader.bytes (h : TcpHeader) : Bytes :=
  bytesBE h.sport ++ (bytesBE h.dport ++ (bytesLE h.seq ++ (bytesLE h.ack ++
    (h.offsetByte :: h.flags :: (bytesBE h.window ++ (bytesBE h.checksum ++ (bytesBE h.urgent ++
      h.options.bytes)))))))

def Transport.proto : Transport → UInt8
  | .tcp .. => 6
  | .udp .. => 17
  | .other proto .. => proto

def Transport.bytes : Transport → Bytes
  | .tcp h payload => h.bytes ++ payload
  | .udp h payload =>
    bytesBE h.sport ++ (bytesBE h.dport ++ (bytesBE (UInt16.ofNat (8 + payload.length)) ++
      (bytesBE h.checksum ++ payload)))
  | .other _ _ payload => payload

/-- The fields of an unfragmented IPv4 header that the packet leaves open; addresses are words as
they lie in memory. -/
structure Ipv4Header where
  tos : UInt8
  ident : UInt16
  dontFragment : Bool
  ttl : UInt8
  checksum : UInt16
  src : UInt32
  dst : UInt32
  options : Options
  deriving DecidableEq

/-- Version 4 and the header length in words. -/
def Ipv4Header.firstByte (h : Ipv4Header) : UInt8 := UInt8.ofNat (64 + 5 + h.options.words)

def Ipv4Header.bytes (h : Ipv4Header) (proto : UInt8) (bodyLength : Nat) : Bytes :=
  h.firstByte :: h.tos ::
    (bytesBE (UInt16.ofNat (20 + h.options.bytes.length + bodyLength)) ++ (bytesBE h.ident ++
      ((if h.dontFragment then 0x40 else 0) :: 0 :: h.ttl :: proto :: (bytesBE h.checksum ++
        (bytesLE h.src ++ (bytesLE h.dst ++ h.options.bytes))))))

def ipv4Bytes (h : Ipv4Header) (t : Transport) : Bytes :=
  h.bytes t.proto t.bytes.length ++ t.bytes

/-! The bytes of a packet that its IP header begins. -/

theorem first_nibbles {words : Nat} (hw : words ≤ 10) :
    UInt8.ofNat (64 + 5 + words) >>> 4 = 4 ∧
      (UInt8.ofNat (64 + 5 + words) &&& 0x0f).toNat = 5 + words := by
  interval_cases words <;> decide

theorem offset_nibble {words : Nat} (hw : words ≤ 10) (reserved : Fin 16) :
    ((UInt8.ofNat (16 * (5 + words) + reserved) >>> 4) &&& 0x0f).toNat = 5 + words := by
  interval_cases words <;> revert reserved <;> decide

section Ipv4
variable (h : Ipv4Header) (t : Transport)

theorem Ipv4Header.bytes_length (proto : UInt8) (bodyLength : Nat) :
    (h.bytes proto bodyLength).length = 20 + h.options.bytes.length := by
  simp [Ipv4Header.bytes]
  omega

theorem ipv4_length :
    (ipv4Bytes h t).length = 20 + h.options.bytes.length + t.bytes.length := by
  rw [ipv4Bytes, List.length_append, h.bytes_length]

theorem ipv4_version : byteAt (ipv4Bytes h t) 0 >>> 4 = 4 := (first_nibbles h.options.fits).1

theorem ipv4_ihl : ihlAt (ipv4Bytes h t) 0 = 20 + h.options.bytes.length := by
  have hfirst : byteAt (ipv4Bytes h t) 0 = h.firstByte := rfl
  rw [ihlAt, hfirst, Ipv4Header.firstByte, (first_nibbles h.options.fits).2, h.options.length_eq]
  omega

theorem ipv4_proto : protoAt (ipv4Bytes h t) 0 = t.proto := rfl

theorem ipv4_src : srcAt (ipv4Bytes h t) 0 = h.src :=
  wordAt_bytesLE ((h.bytes t.proto t.bytes.length).take 12) h.src
    (bytesLE h.dst ++ h.options.bytes ++ t.bytes)

theorem ipv4_dst : dstAt (ipv4Bytes h t) 0 = h.dst :=
  wordAt_bytesLE ((h.bytes t.proto t.bytes.length).take 16) h.dst (h.options.bytes ++ t.bytes)

theorem ipv4_l4 : l4At (ipv4Bytes h t) 0 = (h.bytes t.proto t.bytes.length).length := by
  rw [l4At, ipv4_ihl, h.bytes_length, Nat.zero_add]

/-- Behind the IP header stands the transport layer. -/
theorem ipv4_transport (i : Nat) :
    byteAt (ipv4Bytes h t) (l4At (ipv4Bytes h t) 0 + i) = byteAt t.bytes i := by
  rw [ipv4_l4, ipv4Bytes, byteAt_append_right]

theorem ipv4_captured (i : Nat) :
    l4At (ipv4Bytes h t) 0 + i ≤ (ipv4Bytes h t).length ↔ i ≤ t.bytes.length := by
  rw [ipv4_l4, ipv4Bytes, List.length_append]
  omega

theorem ipv4_port (i : Nat) :
    portAt (ipv4Bytes h t) (l4At (ipv4Bytes h t) 0 + i) = portAt t.bytes i := by
  rw [portAt, portAt, Nat.add_assoc, ipv4_transport, ipv4_transport]

theorem ipv4_ports : sportAt (ipv4Bytes h t) 0 = portAt t.bytes 0 ∧
    dportAt (ipv4Bytes h t) 0 = portAt t.bytes 2 :=
  ⟨ipv4_port h t 0, ipv4_port h t 2⟩

end Ipv4

section Transport
variable (h : TcpHeader) (u : UdpHeader) (payload : Bytes)

theorem tcp_ports : portAt (Transport.tcp h payload).bytes 0 = h.sport ∧
    portAt (Transport.tcp h payload).bytes 2 = h.dport :=
  ⟨portAt_bytesBE [] h.sport _, portAt_bytesBE (bytesBE h.sport) h.dport _⟩

theorem udp_ports : portAt (Transport.udp u payload).bytes 0 = u.sport ∧
    portAt (Transport.udp u payload).bytes 2 = u.dport :=
  ⟨portAt_bytesBE [] u.sport _, portAt_bytesBE (bytesBE u.sport) u.dport _⟩

theorem tcp_length :
    (Transport.tcp h payload).bytes.length = 20 + h.options.bytes.length + payload.length := by
  simp [Transport.bytes, TcpHeader.bytes]
  omega

theorem udp_length : (Transport.udp u payload).bytes.length = 8 + payload.length := by
  simp [Transport.bytes]
  omega

theorem tcp_flags : byteAt (Transport.tcp h payload).bytes 13 = h.flags := rfl

/-- The header length a TCP data offset states. -/
theorem tcp_offset :
    ((byteAt (Transport.tcp h payload).bytes 12 >>> 4) &&& 0x0f).toNat * 4 =
      20 + h.options.bytes.length := by
  have hbyte : byteAt (Transport.tcp h payload).bytes 12 = h.offsetByte := rfl
  rw [hbyte, TcpHeader.offsetByte, offset_nibble h.options.fits, h.options.length_eq]
  omega

end Transport
end PcapyNg
