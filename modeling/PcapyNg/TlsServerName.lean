import PcapyNg.Library.PrefixReads
import PcapyNg.SharedRing

/-!
# The server name in a ClientHello

`tls_server_name` of `04_flow_heads` walks the headers and the extensions of a packet by lengths
that the packet itself states. Any exception means no name, so every packet has an answer; a
packet cut short gives no name or the beginning of one.
-/

namespace PcapyNg
open PrefixReads
set_option autoImplicit false

/-- `(b[i] << 8) | b[i + 1]` -/
def u16At (b : Bytes) (i : Nat) : Except Fault Nat := do
  let hi ← mvAt b i
  let lo ← mvAt b (i + 1)
  return hi.toNat <<< 8 ||| lo.toNat

/-- The loop over the extensions, which end at `stop`. -/
def serverNameFrom (b : Bytes) (stop : Nat) : Nat → Nat → Except Fault (Option Bytes)
  | 0, _ => .error .diverges
  | fuel + 1, p =>
    if ¬ (p + 4 ≤ stop ∧ p + 4 ≤ b.length) then .ok none
    else do
      let etype ← u16At b p
      let elen ← u16At b (p + 2)
      let p := p + 4
      if etype = 0x0000 then do
        let np := p + 2 + 1
        let nlen ← u16At b np
        return some ((b.drop (np + 2)).take nlen)
      else serverNameFrom b stop fuel (p + elen)

/-- The ClientHello whose TLS record begins at `start`. -/
def clientHelloName (b : Bytes) (start : Nat) : Except Fault (Option Bytes) := do
  let p := start + 5 + 4 + 2 + 32
  let sessionId ← mvAt b p
  let p := p + (1 + sessionId.toNat)
  let suites ← u16At b p
  let p := p + (2 + suites)
  let compression ← mvAt b p
  let p := p + (1 + compression.toNat)
  let extensions ← u16At b p
  serverNameFrom b (p + 2 + extensions) (b.length + 1) (p + 2)

/-- The body of the `try`; `.ok none` is `return None`. -/
def serverNameBytes (b : Bytes) (ipOff : Nat) : Except Fault (Option Bytes) := do
  let vihl ← mvAt b ipOff
  let l4 := ipOff + (vihl &&& 0x0f).toNat * 4
  let proto ← mvAt b (ipOff + 9)
  if proto ≠ 6 then return none
  else
    let offset ← mvAt b (l4 + 12)
    let start := l4 + ((offset >>> 4) &&& 0x0f).toNat * 4
    if b.length < start + 43 then return none
    else
      let content ← mvAt b start
      if content ≠ 0x16 then return none
      else
        let handshake ← mvAt b (start + 5)
        if handshake ≠ 0x01 then return none
        else clientHelloName b start

/-- `.decode("ascii", "replace")` -/
def asciiReplace (bs : Bytes) : String :=
  String.ofList (bs.map fun b => if b < 128 then Char.ofNat b.toNat else Char.ofNat 0xFFFD)

/-- `tls_server_name`: an `IndexError` is caught, a loop without end would not be. -/
def tlsServerName (packet : Bytes) (ipOff : Nat) : Except Fault (Option String) :=
  match serverNameBytes packet ipOff with
  | .ok name => .ok (name.map asciiReplace)
  | .error .diverges => .error .diverges
  | .error _ => .ok none

/-! Every walk ends. -/

theorem bind_ends {α β : Type} {x : Except Fault α} {f : α → Except Fault β}
    (hx : x ≠ .error .diverges) (hf : ∀ a, f a ≠ .error .diverges) : x >>= f ≠ .error .diverges := by
  cases x with
  | error e => exact fun h => hx (congrArg Except.error (Except.error.inj h))
  | ok a => exact hf a

theorem mvAt_ends (b : Bytes) (i : Nat) : mvAt b i ≠ .error .diverges := by
  unfold mvAt
  split <;> exact nofun

theorem u16At_ends (b : Bytes) (i : Nat) : u16At b i ≠ .error .diverges := by
  apply bind_ends (mvAt_ends b i)
  intro hi
  apply bind_ends (mvAt_ends b (i + 1))
  exact fun _ => nofun

/-- Each extension is at least four bytes long. -/
theorem serverNameFrom_ends (b : Bytes) (stop : Nat) {fuel p : Nat} (hpos : 0 < fuel)
    (hfuel : b.length < fuel + p) : serverNameFrom b stop fuel p ≠ .error .diverges := by
  induction fuel generalizing p with
  | zero => cases hpos
  | succ fuel ih =>
    rw [serverNameFrom]
    split
    · exact nofun
    · rename_i hroom
      apply bind_ends (u16At_ends b p)
      intro etype
      apply bind_ends (u16At_ends b (p + 2))
      intro elen
      simp only
      split
      · apply bind_ends (u16At_ends b (p + 4 + 2 + 1))
        exact fun _ => nofun
      · exact ih (by omega) (by omega)

theorem clientHelloName_ends (b : Bytes) (start : Nat) :
    clientHelloName b start ≠ .error .diverges := by
  apply bind_ends (mvAt_ends b _)
  intro sessionId
  apply bind_ends (u16At_ends b _)
  intro suites
  apply bind_ends (mvAt_ends b _)
  intro compression
  apply bind_ends (u16At_ends b _)
  intro extensions
  exact serverNameFrom_ends b _ (Nat.succ_pos _) (by omega)

theorem serverNameBytes_ends (b : Bytes) (ipOff : Nat) :
    serverNameBytes b ipOff ≠ .error .diverges := by
  apply bind_ends (mvAt_ends b _)
  intro vihl
  apply bind_ends (mvAt_ends b _)
  intro proto
  split
  · exact nofun
  apply bind_ends (mvAt_ends b _)
  intro offset
  simp only
  split
  · exact nofun
  apply bind_ends (mvAt_ends b _)
  intro content
  split
  · exact nofun
  apply bind_ends (mvAt_ends b _)
  intro handshake
  split
  · exact nofun
  · exact clientHelloName_ends b _

/-! What is read from a packet cut short is read from the whole packet. -/

section Cut
variable {b b' : Bytes} (h : b <+: b')
include h

theorem mvAt_extends (i : Nat) (v : UInt8) (hv : mvAt b i = .ok v) : mvAt b' i = .ok v := by
  unfold mvAt at hv
  split at hv
  · rename_i w hget
    cases hv
    rw [mvAt, getElem?_extends h hget]
  · cases hv

theorem u16At_extends (i n : Nat) (hn : u16At b i = .ok n) : u16At b' i = .ok n := by
  obtain ⟨hi, hhi, hn⟩ := bind_eq_ok.mp hn
  obtain ⟨lo, hlo, hn⟩ := bind_eq_ok.mp hn
  rw [u16At, mvAt_extends h i hi hhi, mvAt_extends h (i + 1) lo hlo]
  exact hn

theorem serverNameFrom_below (stop : Nat) {fuel fuel' : Nat} (hfuel : fuel ≤ fuel') (p : Nat) :
    Below (serverNameFrom b stop fuel p) (serverNameFrom b' stop fuel' p) := by
  have hlen := h.length_le
  induction fuel generalizing fuel' p with
  | zero => exact .of_error _ _
  | succ fuel ih =>
    cases fuel' with
    | zero => omega
    | succ fuel' =>
      rw [serverNameFrom, serverNameFrom]
      apply Below.check (by omega)
      apply Below.bind (u16At_extends h p)
      intro etype
      apply Below.bind (u16At_extends h (p + 2))
      intro elen
      apply Below.branch
      · apply Below.bind (u16At_extends h _)
        exact fun nlen => .found (slice_extends h _ _)
      · exact ih (by omega) _

theorem clientHelloName_below (start : Nat) :
    Below (clientHelloName b start) (clientHelloName b' start) := by
  apply Below.bind (mvAt_extends h _)
  intro sessionId
  apply Below.bind (u16At_extends h _)
  intro suites
  apply Below.bind (mvAt_extends h _)
  intro compression
  apply Below.bind (u16At_extends h _)
  intro extensions
  exact serverNameFrom_below h _ (Nat.succ_le_succ h.length_le) _

theorem serverNameBytes_below (ipOff : Nat) :
    Below (serverNameBytes b ipOff) (serverNameBytes b' ipOff) := by
  have hlen := h.length_le
  apply Below.bind (mvAt_extends h _)
  intro vihl
  apply Below.bind (mvAt_extends h _)
  intro proto
  apply Below.check id
  apply Below.bind (mvAt_extends h _)
  intro offset
  apply Below.check (by omega)
  apply Below.bind (mvAt_extends h _)
  intro content
  apply Below.check id
  apply Below.bind (mvAt_extends h _)
  intro handshake
  apply Below.check id
  exact clientHelloName_below h _

end Cut

/-- The outcome of `tls_server_name` in terms of the bytes of the name. -/
theorem tlsServerName_eq (packet : Bytes) (ipOff : Nat) :
    ∃ r, tlsServerName packet ipOff = .ok r ∧
      ∀ text, r = some text ↔ ∃ name, serverNameBytes packet ipOff = .ok (some name) ∧
        asciiReplace name = text := by
  have hends := serverNameBytes_ends packet ipOff
  rw [tlsServerName]
  cases hname : serverNameBytes packet ipOff with
  | ok name =>
    refine ⟨name.map asciiReplace, rfl, fun text => ?_⟩
    simp
  | error e =>
    cases e with
    | diverges => exact absurd hname hends
    | outOfBounds => exact ⟨none, rfl, by simp⟩
    | uninitialised => exact ⟨none, rfl, by simp⟩

theorem asciiReplace_extends {s t : Bytes} (h : s <+: t) :
    (asciiReplace s).toList <+: (asciiReplace t).toList := by
  obtain ⟨rest, rfl⟩ := h
  simp [asciiReplace]

/-- Every packet has an answer, and of a packet cut short it is none or the beginning of the
answer for the whole packet. -/
theorem server_name_survives_snaplen (packet : Bytes) (ipOff : Nat) :
    ∃ whole, tlsServerName packet ipOff = .ok whole ∧
      ∀ n, ∃ cut, tlsServerName (packet.take n) ipOff = .ok cut ∧
        ∀ text, cut = some text → ∃ text', whole = some text' ∧ text.toList <+: text'.toList := by
  obtain ⟨whole, hwhole, hnames⟩ := tlsServerName_eq packet ipOff
  refine ⟨whole, hwhole, fun n => ?_⟩
  obtain ⟨cut, hcut, hcutNames⟩ := tlsServerName_eq (packet.take n) ipOff
  refine ⟨cut, hcut, fun text htext => ?_⟩
  obtain ⟨name, hname, rfl⟩ := (hcutNames text).mp htext
  obtain ⟨name', hname', hprefix⟩ := serverNameBytes_below (List.take_prefix n packet) ipOff name hname
  exact ⟨asciiReplace name', (hnames _).mpr ⟨name', hname', rfl⟩, asciiReplace_extends hprefix⟩

end PcapyNg
