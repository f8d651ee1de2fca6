import PcapyNg.Datagram
import PcapyNg.SharedRing

/-!
# `parse_ipv4` and the header search

The benchmark pairs the classifier with plain Python, whose `parse_ipv4` goes by the ethertype
where the C search goes by the version nibble. They find the same header in an Ethernet frame
unless a tag's control word looks like a header, there are more tags than the search skips, or
something that is not an IPv4 header looks like one.
-/

namespace PcapyNg
set_option autoImplicit false

def ethPIp : UInt16 := 0x0800
def ethPVlan : UInt16 := 0x8100
def ethPQinq : UInt16 := 0x88a8

/-- `_u16.unpack_from(buf, off)[0]` -/
def unpackU16 (buf : Bytes) (off : Nat) : Except Fault UInt16 :=
  if off + 2 ≤ buf.length then .ok (portAt buf off) else .error .outOfBounds

/-- The loop over the tags: the ethertype behind them and where it ends. -/
def skipTags (buf : Bytes) : Nat → UInt16 → Nat → Except Fault (Option (UInt16 × Nat))
  | 0, _, _ => .error .diverges
  | fuel + 1, ethertype, off =>
    if ethertype = ethPVlan ∨ ethertype = ethPQinq then
      if buf.length < off + 4 then .ok none
      else do
        let ethertype ← unpackU16 buf (off + 2)
        skipTags buf fuel ethertype (off + 4)
    else .ok (some (ethertype, off))

/-- The tests of `parse_ipv4`: where the header is, `.ok none` for `return None`. -/
def ipv4Offset (buf : Bytes) (l2Offset : Nat) : Except Fault (Option Nat) := do
  if buf.length < l2Offset then return none
  else
    let ethertype ← unpackU16 buf 12
    match ← skipTags buf (buf.length + 1) ethertype l2Offset with
    | none => return none
    | some (ethertype, off) =>
      if ethertype ≠ ethPIp then return none
      else if buf.length < off + 20 then return none
      else
        let vhl ← mvAt buf off
        if vhl >>> 4 ≠ 4 then return none
        else
          let ihl := (vhl &&& 0x0f).toNat * 4
          if ihl < 20 ∨ buf.length < off + ihl then return none
          else return some off

/-- What `struct` reads as `!I`. -/
def wordBE (p : Bytes) (i : Nat) : UInt32 :=
  wordLE (byteAt p (i + 3)) (byteAt p (i + 2)) (byteAt p (i + 1)) (byteAt p i)

/-- The reads behind the tests; the tuple has the addresses in network order. -/
def parsedFields (buf : Bytes) (off : Nat) : Except Fault Flow := do
  let vhl ← mvAt buf off
  let proto ← mvAt buf (off + 9)
  if buf.length < off + 20 then throw .outOfBounds
  let l4 := off + (vhl &&& 0x0f).toNat * 4
  if (proto = 6 ∨ proto = 17) ∧ l4 + 4 ≤ buf.length then
    return ⟨wordBE buf (off + 12), wordBE buf (off + 16), portAt buf l4, portAt buf (l4 + 2), proto⟩
  else return ⟨wordBE buf (off + 12), wordBE buf (off + 16), 0, 0, proto⟩

def parseIpv4 (buf : Bytes) (l2Offset : Nat) : Except Fault (Option Flow) := do
  match ← ipv4Offset buf l2Offset with
  | none => return none
  | some off => return some (← parsedFields buf off)

/-! Frames with tags, whatever they carry. -/

structure EthFrame where
  addrs : Bytes
  tags : List VlanTag
  ethertype : UInt16
  payload : Bytes
  addrs_length : addrs.length = 12
  untagged : ethertype ≠ ethPVlan ∧ ethertype ≠ ethPQinq

def EthFrame.bytes (f : EthFrame) : Bytes :=
  f.addrs ++ (f.tags.flatMap VlanTag.bytes ++ (bytesBE f.ethertype ++ f.payload))

/-- An IPv4 header, with its options captured, begins `ip`. -/
structure Ipv4Begins (ip : Bytes) : Prop where
  fixed : 20 ≤ ip.length
  version : byteAt ip 0 >>> 4 = 4
  ihl : 20 ≤ (byteAt ip 0 &&& 0x0f).toNat * 4
  options : (byteAt ip 0 &&& 0x0f).toNat * 4 ≤ ip.length

def VlanTag.ethertype (t : VlanTag) : UInt16 :=
  match t.tpid with
  | .dot1q => ethPVlan
  | .dot1ad => ethPQinq

/-- The ethertype in front of the tags `tags`. -/
def firstEthertype (tags : List VlanTag) (ethertype : UInt16) : UInt16 :=
  (tags.head?.map VlanTag.ethertype).getD ethertype

/-- No tag that the search looks at passes for a header, what stands behind the tags looks like
a header only if it is one, and no header stands behind more tags than are skipped. -/
structure PlainlyTagged (f : EthFrame) : Prop where
  control : ∀ i t, f.tags[i]? = some t → i ≤ 2 →
    20 ≤ 4 * (f.tags.length - i) + f.payload.length → t.looksLikeIpv4 = false
  body : f.tags.length ≤ 2 → 20 ≤ f.payload.length → byteAt f.payload 0 >>> 4 = 4 →
    f.ethertype = ethPIp ∧ Ipv4Begins f.payload
  depth : 2 < f.tags.length → ¬ (f.ethertype = ethPIp ∧ Ipv4Begins f.payload)

/-! What Python reads in a frame. -/

theorem VlanTag.bytes_eq (t : VlanTag) : t.bytes = bytesBE t.ethertype ++ bytesBE t.tci := by
  cases ht : t.tpid <;> simp [VlanTag.bytes, VlanTag.ethertype, bytesBE, ht] <;> decide

theorem unpackU16_at (pre post : Bytes) {b : Bytes} {w : UInt16} {i : Nat}
    (hb : b = pre ++ (bytesBE w ++ post)) (hi : i = pre.length) : unpackU16 b i = .ok w := by
  subst hb hi
  rw [unpackU16, if_pos (by simp), portAt_bytesBE]

section Frame
variable (pre : Bytes) (tags : List VlanTag) (ethertype : UInt16) (payload : Bytes)

/-- In front of the tags stands the first of the ethertypes. -/
theorem firstEthertype_stands :
    ∃ post, tags.flatMap VlanTag.bytes ++ (bytesBE ethertype ++ payload) =
      bytesBE (firstEthertype tags ethertype) ++ post := by
  cases tags with
  | nil => exact ⟨payload, rfl⟩
  | cons t tags =>
    refine ⟨bytesBE t.tci ++ (tags.flatMap VlanTag.bytes ++ (bytesBE ethertype ++ payload)), ?_⟩
    rw [List.flatMap_cons, t.bytes_eq]
    simp only [List.append_assoc]
    rfl

theorem unpackU16_first :
    unpackU16 (pre ++ (tags.flatMap VlanTag.bytes ++ (bytesBE ethertype ++ payload))) pre.length =
      .ok (firstEthertype tags ethertype) := by
  obtain ⟨post, hpost⟩ := firstEthertype_stands tags ethertype payload
  exact unpackU16_at pre post (congrArg (pre ++ ·) hpost) rfl

theorem skipTags_frame (huntagged : ethertype ≠ ethPVlan ∧ ethertype ≠ ethPQinq) (fuel : Nat) :
    skipTags (pre ++ (tags.flatMap VlanTag.bytes ++ (bytesBE ethertype ++ payload)))
        (fuel + 1 + tags.length) (firstEthertype tags ethertype) (pre.length + 2) =
      .ok (some (ethertype, pre.length + 2 + 4 * tags.length)) := by
  induction tags generalizing pre with
  | nil =>
    rw [firstEthertype, List.head?_nil, Option.map_none, Option.getD_none, List.length_nil,
      Nat.add_zero, skipTags, if_neg (not_or.mpr huntagged)]
  | cons t tags ih =>
    have htag : firstEthertype (t :: tags) ethertype = ethPVlan ∨
        firstEthertype (t :: tags) ethertype = ethPQinq := by
      cases ht : t.tpid <;> simp [firstEthertype, VlanTag.ethertype, ht]
    have hsplit : pre ++ ((t :: tags).flatMap VlanTag.bytes ++ (bytesBE ethertype ++ payload)) =
        (pre ++ t.bytes) ++ (tags.flatMap VlanTag.bytes ++ (bytesBE ethertype ++ payload)) := by
      rw [List.flatMap_cons]
      simp only [List.append_assoc]
    have hfirst := unpackU16_first (pre ++ t.bytes) tags ethertype payload
    have hrest := ih (pre ++ t.bytes)
    rw [List.length_append, t.bytes_length] at hfirst hrest
    have hlen : ¬ ((pre ++ t.bytes) ++ (tags.flatMap VlanTag.bytes ++
        (bytesBE ethertype ++ payload))).length < pre.length + 2 + 4 := by
      simp only [List.length_append, t.bytes_length, bytesBE_length]
      omega
    rw [hsplit, List.length_cons, ← Nat.add_assoc, skipTags, if_pos htag, if_neg hlen,
      (by omega : pre.length + 2 + 2 = pre.length + 4), hfirst]
    simp only [bind, Except.bind]
    rw [(by omega : pre.length + 2 + 4 = pre.length + 4 + 2), hrest, Nat.mul_add, Nat.mul_one,
      (by omega : pre.length + 4 + 2 + 4 * tags.length = pre.length + 2 + (4 * tags.length + 4))]

/-- Behind the tags and the ethertype the payload is read. -/
theorem byteAt_payload (i : Nat) :
    byteAt (pre ++ (tags.flatMap VlanTag.bytes ++ (bytesBE ethertype ++ payload)))
      (pre.length + 2 + 4 * tags.length + i) = byteAt payload i := by
  have hsplit : pre ++ (tags.flatMap VlanTag.bytes ++ (bytesBE ethertype ++ payload)) =
      (pre ++ tags.flatMap VlanTag.bytes ++ bytesBE ethertype) ++ payload := by
    simp only [List.append_assoc]
  have hlen : (pre ++ tags.flatMap VlanTag.bytes ++ bytesBE ethertype).length =
      pre.length + 2 + 4 * tags.length := by
    rw [List.length_append, List.length_append, tags_length, bytesBE_length]
    omega
  rw [hsplit, ← hlen, byteAt_append_right]

theorem frame_length :
    (pre ++ (tags.flatMap VlanTag.bytes ++ (bytesBE ethertype ++ payload))).length =
      pre.length + 2 + 4 * tags.length + payload.length := by
  rw [List.length_append, List.length_append, List.length_append, tags_length, bytesBE_length]
  omega

end Frame

theorem EthFrame.bytes_length (f : EthFrame) :
    f.bytes.length = 14 + 4 * f.tags.length + f.payload.length := by
  rw [EthFrame.bytes, frame_length, f.addrs_length]

theorem EthFrame.byteAt_payload (f : EthFrame) (i : Nat) :
    byteAt f.bytes (14 + 4 * f.tags.length + i) = byteAt f.payload i := by
  have h := PcapyNg.byteAt_payload f.addrs f.tags f.ethertype f.payload i
  rwa [f.addrs_length] at h

/-- `parse_ipv4` goes by the ethertype behind the tags. -/
theorem ipv4Offset_frame (f : EthFrame) :
    ∃ r, ipv4Offset f.bytes 14 = .ok r ∧ ∀ off, r = some off ↔
      (f.ethertype = ethPIp ∧ Ipv4Begins f.payload) ∧ off = 14 + 4 * f.tags.length := by
  have hlen := f.bytes_length
  have hfirst := unpackU16_first f.addrs f.tags f.ethertype f.payload
  have hskip := skipTags_frame f.addrs f.tags f.ethertype f.payload f.untagged
    (f.bytes.length - f.tags.length)
  have hbyte := f.byteAt_payload 0
  rw [f.addrs_length] at hfirst hskip
  rw [Nat.add_zero] at hbyte
  rw [(by omega : f.bytes.length - f.tags.length + 1 + f.tags.length = f.bytes.length + 1)] at hskip
  rw [(rfl : 12 + 2 = 14)] at hskip
  rw [ipv4Offset, if_neg (by omega), EthFrame.bytes, hfirst, ← EthFrame.bytes]
  rw [← EthFrame.bytes] at hskip
  simp only [bind, Except.bind, hskip]
  by_cases htype : f.ethertype = ethPIp
  · rw [if_neg (not_not_intro htype)]
    by_cases hfixed : f.bytes.length < 14 + 4 * f.tags.length + 20
    · rw [if_pos hfixed]
      refine ⟨none, rfl, fun off => iff_of_false nofun fun h => ?_⟩
      have hip := h.1.2.fixed
      omega
    have hread : mvAt f.bytes (14 + 4 * f.tags.length) = _ := mvAt_of_lt (by omega)
    rw [if_neg hfixed]
    simp only [hread, hbyte]
    by_cases hversion : byteAt f.payload 0 >>> 4 = 4
    · rw [if_neg (not_not_intro hversion)]
      by_cases hihl : (byteAt f.payload 0 &&& 0x0f).toNat * 4 < 20 ∨
          f.bytes.length < 14 + 4 * f.tags.length + (byteAt f.payload 0 &&& 0x0f).toNat * 4
      · rw [if_pos hihl]
        refine ⟨none, rfl, fun off => iff_of_false nofun fun h => ?_⟩
        have hfull := h.1.2.ihl
        have hoptions := h.1.2.options
        omega
      · rw [if_neg hihl]
        refine ⟨_, rfl, fun off => ?_⟩
        have hip : Ipv4Begins f.payload := ⟨by omega, hversion, by omega, by omega⟩
        simp [htype, hip, eq_comm]
    · rw [if_pos hversion]
      exact ⟨none, rfl, fun off => iff_of_false nofun fun h => hversion h.1.2.version⟩
  · rw [if_pos htype]
    exact ⟨none, rfl, fun off => iff_of_false nofun fun h => htype h.1.1⟩

/-! What the C search makes of the same frame. -/

theorem vlanTpidBefore_iff (pre post : Bytes) (w : UInt16) :
    vlanTpidBefore (pre ++ (bytesBE w ++ post)) (pre.length + 2) = true ↔
      w = ethPVlan ∨ w = ethPQinq := by
  have hhi := byteAt_append_right pre (bytesBE w ++ post) 0
  have hlo := byteAt_append_right pre (bytesBE w ++ post) 1
  have hword := or_bytesBE w
  rw [Nat.add_zero] at hhi
  rw [vlanTpidBefore, Nat.add_sub_cancel, Nat.add_succ_sub_one, hhi, hlo]
  simp only [bytesBE, List.cons_append, byteAt, List.getD_cons_zero, List.getD_cons_succ,
    Bool.or_eq_true, Bool.and_eq_true, beq_iff_eq]
  constructor
  · rintro (⟨hh, hl⟩ | ⟨hh, hl⟩)
    · rw [hh, hl] at hword
      exact Or.inl hword.symm
    · rw [hh, hl] at hword
      exact Or.inr hword.symm
  · rintro (rfl | rfl)
    · exact Or.inl ⟨rfl, rfl⟩
    · exact Or.inr ⟨rfl, rfl⟩

section Search
variable (ethertype : UInt16) (payload : Bytes)
  (huntagged : ethertype ≠ ethPVlan ∧ ethertype ≠ ethPQinq)

include huntagged in
theorem headerFrom_untagged (pre : Bytes) (room : Nat) (off : Nat) :
    headerFrom (pre ++ (bytesBE ethertype ++ payload)) room (pre.length + 2) = some off ↔
      (20 ≤ payload.length ∧ byteAt payload 0 >>> 4 = 4) ∧ off = pre.length + 2 := by
  have hbyte := byteAt_payload pre [] ethertype payload 0
  have hlen := frame_length pre [] ethertype payload
  rw [List.flatMap_nil, List.nil_append] at hbyte hlen
  simp only [List.length_nil, Nat.mul_zero, Nat.add_zero] at hbyte hlen
  by_cases hroom : (pre ++ (bytesBE ethertype ++ payload)).length < pre.length + 2 + 20
  · have hnone : headerFrom (pre ++ (bytesBE ethertype ++ payload)) room (pre.length + 2) = none := by
      cases room <;> rw [headerFrom, if_pos hroom]
    rw [hnone]
    exact iff_of_false (by simp) fun h => by omega
  by_cases hv : byteAt payload 0 >>> 4 = 4
  · rw [headerFrom_found hroom (by rw [hbyte, hv]), Option.some.injEq, eq_comm]
    exact ⟨fun h => ⟨⟨by omega, hv⟩, h⟩, fun h => h.2⟩
  · have hno : ¬ vlanTpidBefore (pre ++ (bytesBE ethertype ++ payload)) (pre.length + 2) = true := by
      rw [vlanTpidBefore_iff]
      exact not_or.mpr huntagged
    have hnone : headerFrom (pre ++ (bytesBE ethertype ++ payload)) room (pre.length + 2) = none := by
      cases room with
      | zero => rw [headerFrom, if_neg hroom, if_neg (by rw [hbyte]; exact hv)]
      | succ room =>
        rw [headerFrom, if_neg hroom, if_neg (by rw [hbyte]; exact hv)]
        exact if_neg fun h => hno h.2
    rw [hnone]
    exact iff_of_false (by simp) fun h => hv h.1.2

/-- The first step of the search in a frame with a tag. -/
theorem headerFrom_tag (pre : Bytes) (t : VlanTag) (tags : List VlanTag) (room : Nat) :
    let b := pre ++ ((t :: tags).flatMap VlanTag.bytes ++ (bytesBE ethertype ++ payload))
    headerFrom b room (pre.length + 2) =
      if 4 * (tags.length + 1) + payload.length < 20 then none
      else if t.looksLikeIpv4 then some (pre.length + 2)
      else match room with
        | 0 => none
        | room + 1 => headerFrom b room (pre.length + 4 + 2) := by
  intro b
  have hlen : b.length = _ := frame_length pre (t :: tags) ethertype payload
  have hsplit : b = pre ++ (bytesBE t.ethertype ++ (bytesBE t.tci ++ (tags.flatMap VlanTag.bytes ++
      (bytesBE ethertype ++ payload)))) := by
    simp only [b, List.flatMap_cons, t.bytes_eq, List.append_assoc]
  have htpid : vlanTpidBefore b (pre.length + 2) = true := by
    rw [hsplit, vlanTpidBefore_iff]
    cases ht : t.tpid <;> simp [VlanTag.ethertype, ht]
  have hnibble : byteAt b (pre.length + 2) >>> 4 = 4 ↔ t.looksLikeIpv4 = true := by
    rw [← t.nibble_iff, hsplit, byteAt_append_right, t.bytes_eq]
    rfl
  rw [List.length_cons] at hlen
  by_cases hroom : 4 * (tags.length + 1) + payload.length < 20
  · rw [if_pos hroom]
    cases room <;> rw [headerFrom, if_pos (by omega)]
  rw [if_neg hroom]
  have hlong : ¬ b.length < pre.length + 2 + 20 := by omega
  by_cases hfour : t.looksLikeIpv4 = true
  · rw [if_pos hfour]
    exact headerFrom_found hlong (hnibble.mpr hfour)
  rw [if_neg hfour]
  cases room with
  | zero => rw [headerFrom, if_neg hlong, if_neg (fun h => hfour (hnibble.mp h))]
  | succ room =>
    rw [headerFrom_skip hlong (fun h => hfour (hnibble.mp h)) (Nat.le_add_left 2 _) htpid,
      (by omega : pre.length + 2 + 4 = pre.length + 4 + 2)]

include huntagged in
/-- The search agrees with `acc`, which needs an IPv4 header in the payload. -/
theorem headerFrom_frame_iff (acc : Prop)
    (hacc : acc → 20 ≤ payload.length ∧ byteAt payload 0 >>> 4 = 4) (pre : Bytes)
    (tags : List VlanTag) (room : Nat) :
    (∀ off, headerFrom (pre ++ (tags.flatMap VlanTag.bytes ++ (bytesBE ethertype ++ payload))) room
        (pre.length + 2) = some off ↔ acc ∧ off = pre.length + 2 + 4 * tags.length) ↔
      (∀ i t, tags[i]? = some t → i ≤ room → 20 ≤ 4 * (tags.length - i) + payload.length →
        t.looksLikeIpv4 = false) ∧
      (tags.length ≤ room → 20 ≤ payload.length → byteAt payload 0 >>> 4 = 4 → acc) ∧
      (room < tags.length → ¬ acc) := by
  induction tags generalizing pre room with
  | nil =>
    have hsearch := headerFrom_untagged ethertype payload huntagged pre room
    rw [List.flatMap_nil, List.nil_append]
    simp only [hsearch, List.length_nil, Nat.mul_zero, Nat.add_zero]
    constructor
    · intro h
      refine ⟨nofun, fun _ hlen hv => ((h _).mp ⟨⟨hlen, hv⟩, rfl⟩).1, fun hlt => by omega⟩
    · rintro ⟨-, hbody, -⟩ off
      exact and_congr_left fun _ => ⟨fun h => hbody (Nat.zero_le _) h.1 h.2, hacc⟩
  | cons t tags ih =>
    have hstep := headerFrom_tag ethertype payload pre t tags
    have hsplit : pre ++ ((t :: tags).flatMap VlanTag.bytes ++ (bytesBE ethertype ++ payload)) =
        (pre ++ t.bytes) ++ (tags.flatMap VlanTag.bytes ++ (bytesBE ethertype ++ payload)) := by
      rw [List.flatMap_cons]
      simp only [List.append_assoc]
    simp only at hstep
    rw [hstep, List.length_cons]
    by_cases hshort : 4 * (tags.length + 1) + payload.length < 20
    · have hno : ¬ acc := fun h => by
        have hlen := (hacc h).1
        omega
      rw [if_pos hshort]
      refine iff_of_true (fun off => iff_of_false nofun fun h => hno h.1) ⟨?_, ?_, fun _ => hno⟩
      · intro i x _ _ hlen
        omega
      · intro _ hlen
        omega
    rw [if_neg hshort]
    by_cases hfour : t.looksLikeIpv4 = true
    · rw [if_pos hfour]
      apply iff_of_false
      · intro h
        have hoff := ((h (pre.length + 2)).mp rfl).2
        omega
      · intro h
        have hfirst := h.1 0 t rfl (Nat.zero_le _) (by omega)
        exact Bool.false_ne_true (hfirst.symm.trans hfour)
    rw [if_neg hfour]
    have hfour' : t.looksLikeIpv4 = false := Bool.eq_false_iff.mpr hfour
    cases room with
    | zero =>
      constructor
      · intro h
        refine ⟨?_, fun hle => absurd hle (by omega), fun _ ha => nomatch (h _).mpr ⟨ha, rfl⟩⟩
        intro i x hx hi _
        obtain rfl : i = 0 := by omega
        obtain rfl : t = x := Option.some.inj hx
        exact hfour'
      · exact fun h off => iff_of_false nofun fun ha => h.2.2 (by omega) ha.1
    | succ room =>
      have hrest := ih (pre ++ t.bytes) room
      rw [List.length_append, t.bytes_length] at hrest
      simp only
      rw [hsplit, (by omega : pre.length + 2 + 4 * (tags.length + 1) =
        pre.length + 4 + 2 + 4 * tags.length), hrest]
      constructor
      · rintro ⟨hcontrol, hbody, hdepth⟩
        refine ⟨?_, fun hle => hbody (by omega), fun hlt => hdepth (by omega)⟩
        intro i x hx hi hlen
        cases i with
        | zero =>
          obtain rfl : t = x := Option.some.inj hx
          exact hfour'
        | succ i => exact hcontrol i x hx (by omega) (by omega)
      · rintro ⟨hcontrol, hbody, hdepth⟩
        refine ⟨?_, fun hle => hbody (by omega), fun hlt => hdepth (by omega)⟩
        intro i x hx hi hlen
        exact hcontrol (i + 1) x hx (by omega) (by omega)

end Search

/-! Words in network order. -/

theorem wordLE_value (a b c d : UInt8) :
    (wordLE a b c d).toNat = a.toNat + 2 ^ 8 * b.toNat + 2 ^ 16 * c.toNat + 2 ^ 24 * d.toNat := by
  have ha := a.toNat_lt
  have hb := b.toNat_lt
  have hc := c.toNat_lt
  have h₁ : a.toNat ||| b.toNat <<< 8 = a.toNat + 2 ^ 8 * b.toNat := by
    rw [Nat.or_comm, ← Nat.shiftLeft_add_eq_or_of_lt ha, Nat.shiftLeft_eq]
    omega
  have h₂ : (a.toNat + 2 ^ 8 * b.toNat) ||| c.toNat <<< 16 =
      a.toNat + 2 ^ 8 * b.toNat + 2 ^ 16 * c.toNat := by
    rw [Nat.or_comm, ← Nat.shiftLeft_add_eq_or_of_lt (by omega), Nat.shiftLeft_eq]
    omega
  rw [wordLE_toNat, h₁, h₂, Nat.or_comm, ← Nat.shiftLeft_add_eq_or_of_lt (by omega),
    Nat.shiftLeft_eq]
  omega

theorem wordLE_inj {a b c d a' b' c' d' : UInt8} :
    wordLE a b c d = wordLE a' b' c' d' ↔ a = a' ∧ b = b' ∧ c = c' ∧ d = d' := by
  rw [← UInt32.toNat_inj, wordLE_value, wordLE_value, ← UInt8.toNat_inj, ← UInt8.toNat_inj,
    ← UInt8.toNat_inj, ← UInt8.toNat_inj]
  have ha := a.toNat_lt
  have hb := b.toNat_lt
  have hc := c.toNat_lt
  have ha' := a'.toNat_lt
  have hb' := b'.toNat_lt
  have hc' := c'.toNat_lt
  omega

theorem bytesLE_wordLE (a b c d : UInt8) : bytesLE (wordLE a b c d) = [a, b, c, d] := by
  obtain ⟨ha, hb, hc, hd⟩ := wordLE_inj.mp (wordLE_bytesLE (wordLE a b c d))
  rw [bytesLE, ha, hb, hc, hd]

/-- The other byte order. -/
def swap32 (w : UInt32) : UInt32 := wordBE (bytesLE w) 0

theorem wordBE_eq (p : Bytes) (i : Nat) : wordBE p i = swap32 (wordAt p i) := by
  rw [swap32, wordAt, bytesLE_wordLE]
  rfl

theorem bytesLE_swap32 (w : UInt32) : bytesLE (swap32 w) = (bytesLE w).reverse := by
  rw [swap32, wordBE, bytesLE_wordLE]
  rfl

theorem swap32_swap32 (w : UInt32) : swap32 (swap32 w) = w := by
  rw [swap32, bytesLE_swap32]
  exact wordLE_bytesLE w

theorem swap32_inj {v w : UInt32} (h : swap32 v = swap32 w) : v = w := by
  rw [← swap32_swap32 v, h, swap32_swap32]

/-- `parse_ipv4` and the header search, started behind an Ethernet header, find the same. -/
def Agrees (b : Bytes) : Prop := ipv4Offset b 14 = .ok (header 14 b)

theorem agrees_frame_iff (f : EthFrame) : Agrees f.bytes ↔ PlainlyTagged f := by
  obtain ⟨r, hr, hoff⟩ := ipv4Offset_frame f
  have hsearch := headerFrom_frame_iff f.ethertype f.payload f.untagged
    (f.ethertype = ethPIp ∧ Ipv4Begins f.payload) (fun h => ⟨h.2.fixed, h.2.version⟩) f.addrs f.tags 2
  rw [f.addrs_length] at hsearch
  have hsame : Agrees f.bytes ↔ ∀ off, header 14 f.bytes = some off ↔
      (f.ethertype = ethPIp ∧ Ipv4Begins f.payload) ∧ off = 14 + 4 * f.tags.length := by
    rw [Agrees, hr, Except.ok.injEq]
    constructor
    · intro h off
      rw [← h, hoff]
    · intro h
      apply Option.ext
      intro off
      rw [hoff, h]
  rw [hsame]
  exact hsearch.trans ⟨fun h => ⟨h.1, h.2.1, h.2.2⟩, fun h => ⟨h.control, h.body, h.depth⟩⟩

/-- Where both find it, the header is behind the tags. -/
theorem header_frame {f : EthFrame} (h : PlainlyTagged f) (off : Nat) :
    header 14 f.bytes = some off ↔
      (f.ethertype = ethPIp ∧ Ipv4Begins f.payload) ∧ off = 14 + 4 * f.tags.length := by
  obtain ⟨r, hr, hoff⟩ := ipv4Offset_frame f
  have hsame := (agrees_frame_iff f).mpr h
  rw [Agrees, hr, Except.ok.injEq] at hsame
  rw [← hsame, hoff]

theorem sameFrom_payload (f : EthFrame) :
    SameFrom f.payload 0 f.bytes (14 + 4 * f.tags.length) where
  byte i := by
    rw [Nat.zero_add]
    exact f.byteAt_payload i
  captured i := by
    rw [f.bytes_length]
    omega

/-! The fields read. -/

/-- The tuple for a header at `l3`; ports that are not captured are 0. -/
def parsedAt (p : Bytes) (l3 : Nat) : Flow :=
  if (protoAt p l3 = 6 ∨ protoAt p l3 = 17) ∧ l4At p l3 + 4 ≤ p.length then
    ⟨wordBE p (l3 + 12), wordBE p (l3 + 16), sportAt p l3, dportAt p l3, protoAt p l3⟩
  else ⟨wordBE p (l3 + 12), wordBE p (l3 + 16), 0, 0, protoAt p l3⟩

theorem SameFrom.parsed {p q : Bytes} {l3 l3' : Nat} (h : SameFrom p l3 q l3') :
    parsedAt q l3' = parsedAt p l3 := by
  obtain ⟨hs, hd⟩ := h.ports
  simp only [parsedAt, h.proto, h.captured_l4, wordBE_eq, h.word, hs, hd]

theorem parsedFields_eq {p : Bytes} {l3 : Nat} (hlen : l3 + 20 ≤ p.length) :
    parsedFields p l3 = .ok (parsedAt p l3) := by
  have h0 : mvAt p l3 = _ := mvAt_of_lt (by omega)
  have h9 : mvAt p (l3 + 9) = _ := mvAt_of_lt (by omega)
  rw [parsedFields, h0, h9]
  simp only [bind, Except.bind]
  rw [if_neg (by omega), parsedAt]
  by_cases hports : (protoAt p l3 = 6 ∨ protoAt p l3 = 17) ∧ l4At p l3 + 4 ≤ p.length
  · rw [if_pos hports]
    exact if_pos hports
  · rw [if_neg hports]
    exact if_neg hports

theorem parseIpv4_of_agrees {b : Bytes} (h : Agrees b) :
    parseIpv4 b 14 = .ok ((header 14 b).map (parsedAt b)) := by
  rw [parseIpv4, h]
  cases hhdr : header 14 b with
  | none => rfl
  | some l3 =>
    obtain ⟨-, hlen, -⟩ := headerFrom_some hhdr
    simp only [bind, Except.bind, parsedFields_eq hlen]
    rfl

theorem locateIpv4_eq (p : Packet) :
    locateIpv4 14 p.bytes p.caplen = .ok ((header 14 p.bytes).map UInt32.ofNat) := by
  have h14 : (14 : UInt32).toNat = 14 := rfl
  rcases @header_search p 14 (by decide) with ⟨r, hr, -, hhdr, -⟩ | ⟨hr, -, hhdr⟩
  · rw [hr, ← h14, hhdr, Option.map_some, UInt32.ofNat_toNat]
  · rw [hr, ← h14, hhdr]
    rfl

/-- The C search and `parse_ipv4` find the same header exactly in plainly tagged frames, and then
Python's tuple is what stands there. -/
theorem header_agrees_iff (f : EthFrame) (p : Packet) (hp : p.bytes = f.bytes) :
    ((∃ off : Option Nat, ipv4Offset p.bytes 14 = .ok off ∧
        locateIpv4 14 p.bytes p.caplen = .ok (off.map UInt32.ofNat)) ↔ PlainlyTagged f) ∧
      (PlainlyTagged f → ∃ off : Option Nat, locateIpv4 14 p.bytes p.caplen = .ok (off.map UInt32.ofNat) ∧
        parseIpv4 p.bytes 14 = .ok (off.map (parsedAt p.bytes))) := by
  have hlocate := locateIpv4_eq p
  have hiff := agrees_frame_iff f
  rw [← hp] at hiff
  refine ⟨⟨?_, ?_⟩, ?_⟩
  · rintro ⟨off, hoff, hloc⟩
    obtain ⟨r, hr, hread⟩ := ipv4Offset_frame f
    rw [hp, hr] at hoff
    obtain rfl := Except.ok.inj hoff
    have hsmall := p.small
    have hlen := f.bytes_length
    rw [hlocate] at hloc
    have hmap := Except.ok.inj hloc
    apply hiff.mp
    rw [Agrees, hp, hr, ← hp]
    apply congrArg Except.ok
    -- both offsets lie in the packet, so their words determine them
    cases hoff' : r with
    | none =>
      rw [hoff', Option.map_none, Option.map_eq_none_iff] at hmap
      exact hmap.symm
    | some off =>
      obtain ⟨-, rfl⟩ := (hread off).mp hoff'
      rw [hoff', Option.map_some, Option.map_eq_some_iff] at hmap
      obtain ⟨l3, hl3, hword⟩ := hmap
      obtain ⟨-, hroom, -⟩ := headerFrom_some hl3
      have hnat := congrArg UInt32.toNat hword
      rw [hp] at hsmall hroom
      have hl3Small : l3 < 2 ^ 32 := by omega
      have hoffSmall : 14 + 4 * f.tags.length < 2 ^ 32 := by omega
      rw [UInt32.toNat_ofNat_of_lt' hl3Small, UInt32.toNat_ofNat_of_lt' hoffSmall] at hnat
      rw [hl3, hnat]
  · intro h
    exact ⟨_, hiff.mpr h, hlocate⟩
  · intro h
    exact ⟨_, hlocate, parseIpv4_of_agrees (hiff.mpr h)⟩

/-- VLAN 100 with priority 2 in front of the UDP packet. -/
def priorityFrame : EthFrame where
  addrs := udpFrame.addrs
  tags := [⟨.dot1q, 0x4064⟩]
  ethertype := ethPIp
  payload := udpFrame.ip
  addrs_length := rfl
  untagged := by decide

theorem header_agrees_iff_priority :
    ¬ ∃ off : Option Nat, ipv4Offset priorityFrame.bytes 14 = .ok off ∧
      locateIpv4 14 priorityFrame.bytes (UInt32.ofNat priorityFrame.bytes.length) =
        .ok (off.map UInt32.ofNat) := by
  intro h
  have hplain := (header_agrees_iff priorityFrame ⟨priorityFrame.bytes, by decide⟩ rfl).1.mp h
  exact Bool.false_ne_true (hplain.control 0 _ rfl (by decide) (by decide)).symm

end PcapyNg
