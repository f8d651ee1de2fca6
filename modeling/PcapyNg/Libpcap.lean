import PcapyNg.Library.ReadLoop
import PcapyNg.PacketView

/-!
# libpcap as the extension relies on it

libpcap is not part of the repository, so it is a parameter: four entry points on an
offline capture, and what their documentation promises about them.
-/

namespace PcapyNg
open ReadLoop
set_option autoImplicit false

structure PcapPkthdr where
  sec : Int
  usec : Int
  caplen : UInt32
  len : UInt32
  deriving DecidableEq

/-- What a `pcap_handler` is given: a header and the bytes it declares. -/
structure Record where
  hdr : PcapPkthdr
  data : Bytes
  captured : data.length = hdr.caplen.toNat
  deriving DecidableEq

def Record.packet (r : Record) : Packet where
  bytes := r.data
  small := by
    rw [r.captured]
    exact r.hdr.caplen.toNat_lt

theorem Record.packet_caplen (r : Record) : r.packet.caplen = r.hdr.caplen := by
  apply UInt32.toNat_inj.mp
  rw [Packet.caplen_toNat]
  exact r.captured

/-- A `pcap_t` on a savefile: the records not yet read, how the file ends, the break flag. -/
abbrev Capture := Source Record

structure Libpcap where
  dispatch {σ : Type} : Handler σ Record → Int → Capture → σ → Int × Capture × σ
  loop {σ : Type} : Handler σ Record → Int → Capture → σ → Int × Capture × σ
  nextEx : Capture → Int × Option Record × Capture
  geterr : Capture → String
  dispatch_reads {σ : Type} (h : Handler σ Record) (cnt : Int) (c : Capture) (s : σ) :
    Reads h cnt 0 c s (dispatch h cnt c s).1 (dispatch h cnt c s).2.1 (dispatch h cnt c s).2.2
  loop_loops {σ : Type} (h : Handler σ Record) (cnt : Int) (c : Capture) (s : σ) :
    Loops h cnt c s (loop h cnt c s).1 (loop h cnt c s).2.1 (loop h cnt c s).2.2
  nextEx_record (r : Record) (rs : List Record) (e : Ending) :
    nextEx ⟨r :: rs, e, false⟩ = (1, some r, ⟨rs, e, false⟩)
  nextEx_eof : nextEx ⟨[], .eof, false⟩ = (-2, none, ⟨[], .eof, false⟩)
  nextEx_error : nextEx ⟨[], .error, false⟩ = (-1, none, ⟨[], .error, false⟩)
  nextEx_broken (rs : List Record) (e : Ending) :
    nextEx ⟨rs, e, true⟩ = (-2, none, ⟨rs, e, false⟩)

section Runs
variable (lib : Libpcap) {σ : Type} (h : Handler σ Record) (cnt : Int) (c : Capture) (s : σ)

theorem Libpcap.dispatch_run :
    ∃ ret c' s', lib.dispatch h cnt c s = (ret, c', s') ∧ Reads h cnt 0 c s ret c' s' :=
  ⟨_, _, _, rfl, lib.dispatch_reads h cnt c s⟩

theorem Libpcap.loop_run :
    ∃ ret c' s', lib.loop h cnt c s = (ret, c', s') ∧ Loops h cnt c s ret c' s' :=
  ⟨_, _, _, rfl, lib.loop_loops h cnt c s⟩

end Runs

def Libpcap.offline : Libpcap where
  dispatch h cnt c s := read h cnt 0 c.pending c.ending c.brk s
  loop h cnt c s := ReadLoop.loop h cnt c s
  nextEx c :=
    match c.brk, c.pending, c.ending with
    | true, rs, e => (-2, none, ⟨rs, e, false⟩)
    | false, r :: rs, e => (1, some r, ⟨rs, e, false⟩)
    | false, [], .eof => (-2, none, c)
    | false, [], .error => (-1, none, c)
  geterr _ := "truncated dump file"
  dispatch_reads h cnt c s := ReadLoop.read_reads h cnt 0 c.pending c.ending c.brk s
  loop_loops h cnt c s := ReadLoop.loop_loops h cnt c s
  nextEx_record _ _ _ := rfl
  nextEx_eof := rfl
  nextEx_error := rfl
  nextEx_broken _ _ := rfl

def udpRecord : Record where
  hdr := ⟨1, 0, 42, 42⟩
  data := udpPacket.bytes
  captured := rfl

end PcapyNg
