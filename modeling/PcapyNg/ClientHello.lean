import PcapyNg.Datagram
import PcapyNg.SecurityClasses
import PcapyNg.TlsServerName

/-!
# ClientHello records and the name read from them

A ClientHello as the fields it is sent with, its extensions in any number and order. In a packet
that carries the whole record the walk of `tls_server_name` stops at the first `server_name`
extension, whatever lies before it.
-/

namespace PcapyNg
set_option autoImplicit false

structure Extension where
  kind : UInt16
  data : Bytes
  small : data.length < 2 ^ 16

def Extension.bytes (e : Extension) : Bytes :=
  bytesBE e.kind ++ (bytesBE (UInt16.ofNat e.data.length) ++ e.data)

/-- The `server_name` extension with one host name. -/
def Extension.serverName (name : Bytes) (hname : name.length + 5 < 2 ^ 16) : Extension where
  kind := 0
  data := bytesBE (UInt16.ofNat (name.length + 3)) ++
    (0 :: (bytesBE (UInt16.ofNat name.length) ++ name))
  small := by
    simp
    omega

structure ClientHello where
  recordVersion : UInt16
  version : UInt16
  random : Bytes
  sessionId : Bytes
  suites : Bytes
  compression : Bytes
  extensions : List Extension
  random_length : random.length = 32
  sessionId_small : sessionId.length < 2 ^ 8
  suites_small : suites.length < 2 ^ 16
  compression_small : compression.length < 2 ^ 8
  extensions_small : (extensions.flatMap Extension.bytes).length < 2 ^ 16

namespace ClientHello
variable (h : ClientHello)

/-- Everything behind the random bytes. -/
def tail : Bytes :=
  UInt8.ofNat h.sessionId.length :: (h.sessionId ++ (bytesBE (UInt16.ofNat h.suites.length) ++
    (h.suites ++ (UInt8.ofNat h.compression.length :: (h.compression ++
      (bytesBE (UInt16.ofNat (h.extensions.flatMap Extension.bytes).length) ++
        h.extensions.flatMap Extension.bytes))))))

def bodyLength : Nat := 34 + h.tail.length

/-- The record header, the handshake header, version and random bytes. -/
def head : Bytes :=
  0x16 :: (bytesBE h.recordVersion ++ (bytesBE (UInt16.ofNat (4 + h.bodyLength)) ++
    (0x01 :: UInt8.ofNat (h.bodyLength / 2 ^ 16) :: (bytesBE (UInt16.ofNat h.bodyLength) ++
      (bytesBE h.version ++ h.random)))))

/-- The TLS record with the ClientHello. -/
def record : Bytes := h.head ++ h.tail

theorem head_length : h.head.length = 43 := by
  simp [head, h.random_length]

end ClientHello

/-! Reading where a field stands. -/

theorem mvAt_at (pre post : Bytes) {b : Bytes} {x : UInt8} {i : Nat} (hb : b = pre ++ x :: post)
    (hi : i = pre.length) : mvAt b i = .ok x := by
  subst hb hi
  simp [mvAt]

theorem toNat_or_bytesBE (w : UInt16) :
    (w >>> 8).toUInt8.toNat <<< 8 ||| w.toUInt8.toNat = w.toNat := by
  have hlt : (w >>> 8).toUInt8.toNat <<< 8 < 2 ^ 16 := by
    have hbyte := (w >>> 8).toUInt8.toNat_lt
    rw [Nat.shiftLeft_eq]
    omega
  have hor := congrArg UInt16.toNat (or_bytesBE w)
  rw [UInt16.toNat_or, UInt16.toNat_shiftLeft, UInt8.toNat_toUInt16, UInt8.toNat_toUInt16] at hor
  have h8 : (8 : UInt16).toNat % 16 = 8 := rfl
  rwa [h8, Nat.mod_eq_of_lt hlt] at hor

theorem u16At_at (pre post : Bytes) {b : Bytes} {w : UInt16} {i : Nat}
    (hb : b = pre ++ (bytesBE w ++ post)) (hi : i = pre.length) : u16At b i = .ok w.toNat := by
  have hhi : mvAt b i = .ok (w >>> 8).toUInt8 := mvAt_at pre (w.toUInt8 :: post) hb hi
  have hb' : b = (pre ++ [(w >>> 8).toUInt8]) ++ w.toUInt8 :: post := by
    rw [hb, List.append_assoc]
    rfl
  have hlo : mvAt b (i + 1) = .ok w.toUInt8 := by
    apply mvAt_at _ _ hb'
    rw [hi, List.length_append]
    rfl
  rw [u16At, hhi, hlo]
  exact congrArg Except.ok (toNat_or_bytesBE w)

theorem u16At_length (pre post : Bytes) {b : Bytes} {n i : Nat}
    (hb : b = pre ++ (bytesBE (UInt16.ofNat n) ++ post)) (hi : i = pre.length) (hn : n < 2 ^ 16) :
    u16At b i = .ok n := by
  rw [u16At_at pre post hb hi, UInt16.toNat_ofNat_of_lt' hn]

theorem slice_at (pre post : Bytes) {b name : Bytes} {i : Nat} (hb : b = pre ++ (name ++ post))
    (hi : i = pre.length) : (b.drop i).take name.length = name := by
  subst hb hi
  rw [List.drop_left' rfl, List.take_left' rfl]

/-! The extensions. -/

theorem Extension.bytes_length (e : Extension) : e.bytes.length = 4 + e.data.length := by
  simp [Extension.bytes]
  omega

section Extensions
variable {b : Bytes} {stop : Nat}

/-- The header of an extension is read, and its data stand four bytes further on. -/
theorem extension_reads (e : Extension) {pre post : Bytes} (hb : b = pre ++ (e.bytes ++ post)) :
    u16At b pre.length = .ok e.kind.toNat ∧ u16At b (pre.length + 2) = .ok e.data.length ∧
      ∃ front, b = front ++ (e.data ++ post) ∧ front.length = pre.length + 4 := by
  have hsplit : b = pre ++ (bytesBE e.kind ++ (bytesBE (UInt16.ofNat e.data.length) ++
      (e.data ++ post))) := by
    rw [hb, Extension.bytes, List.append_assoc, List.append_assoc]
  have hsplit' : b = (pre ++ bytesBE e.kind) ++ (bytesBE (UInt16.ofNat e.data.length) ++
      (e.data ++ post)) := by
    rw [hsplit, List.append_assoc]
  refine ⟨u16At_at pre _ hsplit rfl, u16At_length _ _ hsplit' ?_ e.small,
    (pre ++ bytesBE e.kind) ++ bytesBE (UInt16.ofNat e.data.length), ?_, ?_⟩
  · rw [List.length_append, bytesBE_length]
  · rw [hsplit', List.append_assoc (pre ++ bytesBE e.kind)]
  · simp

/-- One extension that is not a `server_name` is stepped over. -/
theorem serverNameFrom_skip {e : Extension} (hkind : e.kind ≠ 0) {pre post : Bytes}
    (hb : b = pre ++ (e.bytes ++ post)) (hstop : pre.length + e.bytes.length ≤ stop) (fuel : Nat) :
    serverNameFrom b stop (fuel + 1) pre.length =
      serverNameFrom b stop fuel (pre.length + e.bytes.length) := by
  have hlen := congrArg List.length hb
  rw [List.length_append, List.length_append] at hlen
  have hbytes := e.bytes_length
  obtain ⟨hetype, helen, -⟩ := extension_reads e hb
  have hzero : e.kind.toNat ≠ 0 := fun hn => hkind (UInt16.toNat_inj.mp hn)
  rw [serverNameFrom, if_neg (by omega), hetype]
  simp only [bind, Except.bind, helen, if_neg hzero]
  rw [hbytes, Nat.add_assoc]

theorem serverNameFrom_skips {es : List Extension} (hkinds : ∀ e ∈ es, e.kind ≠ 0) {pre post : Bytes}
    (hb : b = pre ++ (es.flatMap Extension.bytes ++ post))
    (hstop : pre.length + (es.flatMap Extension.bytes).length ≤ stop) (fuel : Nat) :
    serverNameFrom b stop (fuel + es.length) pre.length =
      serverNameFrom b stop fuel (pre.length + (es.flatMap Extension.bytes).length) := by
  induction es generalizing pre with
  | nil => rfl
  | cons e es ih =>
    rw [List.flatMap_cons, List.append_assoc] at hb
    rw [List.flatMap_cons, List.length_append] at hstop ⊢
    have hnext : b = (pre ++ e.bytes) ++ (es.flatMap Extension.bytes ++ post) := by
      rw [hb, List.append_assoc]
    have hrest := ih (fun x hx => hkinds x (List.mem_cons_of_mem e hx)) hnext
      (by rw [List.length_append]; omega)
    rw [List.length_append] at hrest
    rw [List.length_cons, ← Nat.add_assoc,
      serverNameFrom_skip (hkinds e (by simp)) hb (by omega), hrest, Nat.add_assoc]

/-- A walk over extensions takes no more steps than there are bytes. -/
theorem extensions_count (es : List Extension) :
    es.length ≤ (es.flatMap Extension.bytes).length := by
  induction es with
  | nil => exact le_rfl
  | cons e es ih =>
    have hbytes := e.bytes_length
    rw [List.length_cons, List.flatMap_cons, List.length_append]
    omega

/-- At a `server_name` extension the name is read out. -/
theorem serverNameFrom_stop {name : Bytes} (hname : name.length + 5 < 2 ^ 16) {pre post : Bytes}
    (hb : b = pre ++ ((Extension.serverName name hname).bytes ++ post))
    (hstop : pre.length + (Extension.serverName name hname).bytes.length ≤ stop) (fuel : Nat) :
    serverNameFrom b stop (fuel + 1) pre.length = .ok (some name) := by
  have hlen := congrArg List.length hb
  rw [List.length_append, List.length_append] at hlen
  have hbytes := (Extension.serverName name hname).bytes_length
  obtain ⟨hetype, helen, front, hfront, hfour⟩ := extension_reads _ hb
  have hlist : b = (front ++ (bytesBE (UInt16.ofNat (name.length + 3)) ++ [0])) ++
      (bytesBE (UInt16.ofNat name.length) ++ (name ++ post)) := by
    rw [hfront, Extension.serverName]
    simp only [List.append_assoc, List.cons_append, List.nil_append]
  have hat : pre.length + 4 + 2 + 1 =
      (front ++ (bytesBE (UInt16.ofNat (name.length + 3)) ++ [0])).length := by
    simp
    omega
  have hnlen : u16At b (pre.length + 4 + 2 + 1) = .ok name.length :=
    u16At_length _ _ hlist hat (by omega)
  have hslice : (b.drop (pre.length + 4 + 2 + 1 + 2)).take name.length = name := by
    rw [← List.append_assoc _ (bytesBE (UInt16.ofNat name.length))] at hlist
    apply slice_at _ post hlist
    rw [List.length_append, ← hat, bytesBE_length]
  have hkind : (Extension.serverName name hname).kind.toNat = 0x0000 := rfl
  rw [serverNameFrom, if_neg (by omega), hetype]
  simp only [bind, Except.bind, helen, if_pos hkind, hnlen, hslice]
  rfl

end Extensions

/-! The record. -/

section Record
variable (h : ClientHello) {b pre post : Bytes} (hb : b = pre ++ (h.record ++ post))
include hb

/-- What the walk does up to the extensions. -/
theorem clientHelloName_extensions :
    ∃ front, b = front ++ (h.extensions.flatMap Extension.bytes ++ post) ∧
      clientHelloName b pre.length = serverNameFrom b
        (front.length + (h.extensions.flatMap Extension.bytes).length) (b.length + 1)
        front.length := by
  have hhead := h.head_length
  have hsession : b = (pre ++ h.head) ++ UInt8.ofNat h.sessionId.length :: (h.sessionId ++
      (bytesBE (UInt16.ofNat h.suites.length) ++ (h.suites ++
        (UInt8.ofNat h.compression.length :: (h.compression ++
          (bytesBE (UInt16.ofNat (h.extensions.flatMap Extension.bytes).length) ++
            (h.extensions.flatMap Extension.bytes ++ post))))))) := by
    rw [hb, ClientHello.record, ClientHello.tail]
    simp only [List.append_assoc, List.cons_append]
  have hsuites : b = (pre ++ h.head ++ UInt8.ofNat h.sessionId.length :: h.sessionId) ++
      (bytesBE (UInt16.ofNat h.suites.length) ++ (h.suites ++
        (UInt8.ofNat h.compression.length :: (h.compression ++
          (bytesBE (UInt16.ofNat (h.extensions.flatMap Extension.bytes).length) ++
            (h.extensions.flatMap Extension.bytes ++ post)))))) := by
    rw [hsession]
    simp only [List.append_assoc, List.cons_append]
  have hcompression : b = (pre ++ h.head ++ UInt8.ofNat h.sessionId.length :: h.sessionId ++
      bytesBE (UInt16.ofNat h.suites.length) ++ h.suites) ++
        UInt8.ofNat h.compression.length :: (h.compression ++
          (bytesBE (UInt16.ofNat (h.extensions.flatMap Extension.bytes).length) ++
            (h.extensions.flatMap Extension.bytes ++ post))) := by
    rw [hsuites]
    simp only [List.append_assoc]
  have hextensions : b = (pre ++ h.head ++ UInt8.ofNat h.sessionId.length :: h.sessionId ++
      bytesBE (UInt16.ofNat h.suites.length) ++ h.suites ++
        UInt8.ofNat h.compression.length :: h.compression) ++
          (bytesBE (UInt16.ofNat (h.extensions.flatMap Extension.bytes).length) ++
            (h.extensions.flatMap Extension.bytes ++ post)) := by
    rw [hcompression]
    simp only [List.append_assoc, List.cons_append]
  have hreadSession : mvAt b (pre.length + 5 + 4 + 2 + 32) = .ok (UInt8.ofNat h.sessionId.length) :=
    mvAt_at _ _ hsession (by rw [List.length_append, hhead])
  have hreadSuites : u16At b (pre.length + 5 + 4 + 2 + 32 + (1 + h.sessionId.length)) =
      .ok h.suites.length := by
    apply u16At_length _ _ hsuites _ h.suites_small
    simp only [List.length_append, List.length_cons, hhead]
    omega
  have hreadCompression : mvAt b (pre.length + 5 + 4 + 2 + 32 + (1 + h.sessionId.length) +
      (2 + h.suites.length)) = .ok (UInt8.ofNat h.compression.length) := by
    apply mvAt_at _ _ hcompression
    simp only [List.length_append, List.length_cons, bytesBE_length, hhead]
    omega
  have hreadExtensions : u16At b (pre.length + 5 + 4 + 2 + 32 + (1 + h.sessionId.length) +
      (2 + h.suites.length) + (1 + h.compression.length)) =
        .ok (h.extensions.flatMap Extension.bytes).length := by
    apply u16At_length _ _ hextensions _ h.extensions_small
    simp only [List.length_append, List.length_cons, bytesBE_length, hhead]
    omega
  refine ⟨_, hextensions.trans (List.append_assoc _ _ _).symm, ?_⟩
  have hfront : (pre ++ h.head ++ UInt8.ofNat h.sessionId.length :: h.sessionId ++
      bytesBE (UInt16.ofNat h.suites.length) ++ h.suites ++
        UInt8.ofNat h.compression.length :: h.compression ++
          bytesBE (UInt16.ofNat (h.extensions.flatMap Extension.bytes).length)).length =
      pre.length + 5 + 4 + 2 + 32 + (1 + h.sessionId.length) + (2 + h.suites.length) +
        (1 + h.compression.length) + 2 := by
    simp only [List.length_append, List.length_cons, bytesBE_length, hhead]
    omega
  rw [hfront, clientHelloName, hreadSession]
  simp only [bind, Except.bind, UInt8.toNat_ofNat_of_lt' h.sessionId_small, hreadSuites,
    hreadCompression, UInt8.toNat_ofNat_of_lt' h.compression_small, hreadExtensions]

theorem clientHelloName_first {before after : List Extension} {name : Bytes}
    {hname : name.length + 5 < 2 ^ 16}
    (hext : h.extensions = before ++ Extension.serverName name hname :: after)
    (hbefore : ∀ e ∈ before, e.kind ≠ 0) : clientHelloName b pre.length = .ok (some name) := by
  obtain ⟨front, hfront, hwalk⟩ := clientHelloName_extensions h hb
  have hlen := congrArg List.length hfront
  have hcount := extensions_count before
  have hsplit : h.extensions.flatMap Extension.bytes = before.flatMap Extension.bytes ++
      ((Extension.serverName name hname).bytes ++ after.flatMap Extension.bytes) := by
    rw [hext, List.flatMap_append, List.flatMap_cons]
  have hstop := congrArg List.length hsplit
  rw [hsplit, List.append_assoc] at hfront
  have hat : b = (front ++ before.flatMap Extension.bytes) ++
      ((Extension.serverName name hname).bytes ++ (after.flatMap Extension.bytes ++ post)) := by
    rw [hfront]
    simp only [List.append_assoc]
  simp only [List.length_append] at hlen hstop
  obtain ⟨fuel, hfuel⟩ := Nat.exists_eq_add_of_le'
    (show 1 + before.length ≤ b.length + 1 by omega)
  rw [← Nat.add_assoc] at hfuel
  have hread : serverNameFrom b (front.length + (h.extensions.flatMap Extension.bytes).length)
      (fuel + 1) (front ++ before.flatMap Extension.bytes).length = .ok (some name) := by
    apply serverNameFrom_stop hname hat
    rw [List.length_append]
    omega
  rw [List.length_append] at hread
  rw [hwalk, hfuel, serverNameFrom_skips hbefore hfront (by omega), hread]

theorem clientHelloName_none (hnone : ∀ e ∈ h.extensions, e.kind ≠ 0) :
    clientHelloName b pre.length = .ok none := by
  obtain ⟨front, hfront, hwalk⟩ := clientHelloName_extensions h hb
  have hlen := congrArg List.length hfront
  have hcount := extensions_count h.extensions
  rw [List.length_append, List.length_append] at hlen
  obtain ⟨fuel, hfuel⟩ := Nat.exists_eq_add_of_le'
    (show 1 + h.extensions.length ≤ b.length + 1 by omega)
  rw [← Nat.add_assoc] at hfuel
  rw [hwalk, hfuel, serverNameFrom_skips hnone hfront le_rfl, serverNameFrom, if_pos (by omega)]

end Record

/-! The packet around the record. -/

section Carrier
variable (p : WirePacket) (pad : Bytes)

/-- The bytes of the headers are read where they stand. -/
theorem mvAt_ipv4 {i : Nat} (hi : i < (ipv4Bytes p.ip p.body).length) :
    mvAt (p.link ++ (ipv4Bytes p.ip p.body ++ pad)) (p.link.length + i) =
      .ok (byteAt (ipv4Bytes p.ip p.body) i) := by
  rw [mvAt_of_lt, byteAt_append_right, byteAt_append_left hi]
  simp only [List.length_append]
  omega

variable {t : TcpHeader} {h : ClientHello} {more : Bytes} (hbody : p.body = .tcp t (h.record ++ more))
include hbody

/-- The tests before the walk are passed, and it begins at the record. -/
theorem serverNameBytes_record :
    ∃ pre, p.link ++ (ipv4Bytes p.ip p.body ++ pad) = pre ++ (h.record ++ (more ++ pad)) ∧
      serverNameBytes (p.link ++ (ipv4Bytes p.ip p.body ++ pad)) p.link.length =
        clientHelloName (p.link ++ (ipv4Bytes p.ip p.body ++ pad)) pre.length := by
  have hlen := ipv4_length p.ip p.body
  have hrecord : h.record.length = 43 + h.tail.length := by
    rw [ClientHello.record, List.length_append, h.head_length]
  have htcp : t.bytes.length = 20 + t.options.bytes.length := by
    simp [TcpHeader.bytes]
    omega
  have hbodyLen := tcp_length t (h.record ++ more)
  rw [← hbody, List.length_append] at hbodyLen
  have hsplit : p.link ++ (ipv4Bytes p.ip p.body ++ pad) =
      (p.link ++ p.ip.bytes p.body.proto p.body.bytes.length ++ t.bytes) ++
        (h.record ++ (more ++ pad)) := by
    rw [ipv4Bytes]
    simp only [hbody, Transport.bytes, List.append_assoc]
  have hpre : (p.link ++ p.ip.bytes p.body.proto p.body.bytes.length ++ t.bytes).length =
      p.link.length + (20 + p.ip.options.bytes.length) + (20 + t.options.bytes.length) := by
    rw [List.length_append, List.length_append, p.ip.bytes_length, htcp]
  refine ⟨_, hsplit, ?_⟩
  rw [hpre]
  have hfirst := mvAt_ipv4 p pad (i := 0) (by omega)
  have hproto := mvAt_ipv4 p pad (i := 9) (by omega)
  have hoff := mvAt_ipv4 p pad (i := 20 + p.ip.options.bytes.length + 12) (by omega)
  have hihl : (byteAt (ipv4Bytes p.ip p.body) 0 &&& 0x0f).toNat * 4 =
      20 + p.ip.options.bytes.length := ipv4_ihl p.ip p.body
  have htcpByte : byteAt (ipv4Bytes p.ip p.body) 9 = 6 := by
    rw [hbody]
    rfl
  have hdoff : ((byteAt (ipv4Bytes p.ip p.body) (20 + p.ip.options.bytes.length + 12) >>> 4)
      &&& 0x0f).toNat * 4 = 20 + t.options.bytes.length := by
    have htransport := ipv4_transport p.ip p.body 12
    rw [l4At, ipv4_ihl, Nat.zero_add] at htransport
    rw [htransport, hbody]
    exact tcp_offset t (h.record ++ more)
  rw [Nat.add_zero] at hfirst
  have hlong : ¬ (p.link ++ (ipv4Bytes p.ip p.body ++ pad)).length <
      p.link.length + (20 + p.ip.options.bytes.length) + (20 + t.options.bytes.length) + 43 := by
    simp only [List.length_append]
    omega
  have hcontent : mvAt (p.link ++ (ipv4Bytes p.ip p.body ++ pad)) (p.link.length +
      (20 + p.ip.options.bytes.length) + (20 + t.options.bytes.length)) = .ok 0x16 :=
    mvAt_at _ _ hsplit hpre.symm
  have hhandshake : mvAt (p.link ++ (ipv4Bytes p.ip p.body ++ pad)) (p.link.length +
      (20 + p.ip.options.bytes.length) + (20 + t.options.bytes.length) + 5) = .ok 0x01 := by
    rw [mvAt_of_lt (by simp only [List.length_append]; omega), hsplit, ← hpre,
      byteAt_append_right]
    rfl
  rw [serverNameBytes, hfirst]
  rw [← Nat.add_assoc] at hoff
  simp only [bind, Except.bind, hproto, htcpByte, hihl, hoff, hdoff, if_neg hlong, hcontent,
    hhandshake, ne_eq, not_true_eq_false, if_false]

end Carrier

/-- `tls_client_hello` of the tests, with one more extension in front. -/
def greasedHello : ClientHello where
  recordVersion := 0x0303
  version := 0x0303
  random := List.replicate 32 0x11
  sessionId := []
  suites := [0x13, 0x01]
  compression := [0]
  extensions := [⟨0x0a0a, [7], by decide⟩, .serverName [97, 46, 98] (by decide)]
  random_length := rfl
  sessionId_small := by decide
  suites_small := by decide
  compression_small := by decide
  extensions_small := by decide

def greasedPacket : WirePacket where
  link := List.replicate 14 0
  ip := ⟨0, 0x1234, false, 64, 0, 0x0500000a, 0x22d8b85d, ⟨[], 0, rfl, by decide⟩⟩
  body := .tcp ⟨40000, 443, 1, 1, 0, 0x18, 65535, 0, 0, ⟨[], 0, rfl, by decide⟩⟩
    (greasedHello.record ++ [])
  small := by
    rw [List.length_append, ipv4_length, tcp_length]
    decide

end PcapyNg
