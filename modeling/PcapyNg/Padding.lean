import PcapyNg.Fragments

/-!
# Link-layer padding

`mt_classify` takes every captured byte behind the TCP header for payload and never looks
at the total length of the IP header. Bytes a link appends to a short frame therefore turn
a segment without payload into HTTP; they change nothing else.
-/

namespace PcapyNg
set_option autoImplicit false

/-! Bytes appended to a capture do not change what is read in front of them. -/

section Appended
variable {p : Bytes} (pad : Bytes) {l3 : Nat}

theorem wordAt_append {i : Nat} (h : i + 4 ≤ p.length) : wordAt (p ++ pad) i = wordAt p i := by
  simp only [wordAt, byteAt_append_left (q := pad) (by omega : i < p.length),
    byteAt_append_left (q := pad) (by omega : i + 1 < p.length),
    byteAt_append_left (q := pad) (by omega : i + 2 < p.length),
    byteAt_append_left (q := pad) (by omega : i + 3 < p.length)]

theorem portAt_append {i : Nat} (h : i + 2 ≤ p.length) : portAt (p ++ pad) i = portAt p i := by
  simp only [portAt, byteAt_append_left (q := pad) (by omega : i < p.length),
    byteAt_append_left (q := pad) (by omega : i + 1 < p.length)]

theorem headerFrom_append {tags n : Nat} (h : headerFrom p tags n = some l3) :
    headerFrom (p ++ pad) tags n = some l3 := by
  have hroom : ∀ {n}, ¬ p.length < n + 20 → ¬ (p ++ pad).length < n + 20 := by
    intro n hn
    rw [List.length_append]
    omega
  induction tags generalizing n with
  | zero =>
    rw [headerFrom] at h
    split at h
    · cases h
    rename_i hlen
    split at h
    · rename_i hv
      cases h
      apply headerFrom_found (hroom hlen)
      rw [byteAt_append_left (by omega)]
      exact hv
    · cases h
  | succ tags ih =>
    rw [headerFrom] at h
    split at h
    · cases h
    rename_i hlen
    have hbyte : byteAt (p ++ pad) n = byteAt p n := byteAt_append_left (by omega)
    split at h
    · rename_i hv
      cases h
      apply headerFrom_found (hroom hlen)
      rw [hbyte]
      exact hv
    rename_i hv
    split at h
    · rename_i htag
      have htag' : vlanTpidBefore (p ++ pad) n = true := by
        rw [vlanTpidBefore, byteAt_append_left (by omega), byteAt_append_left (by omega)]
        exact htag.2
      rw [headerFrom_skip (hroom hlen) (by rw [hbyte]; exact hv) htag.1 htag']
      exact ih h
    · cases h

section Header
variable (h : l3 + 20 ≤ p.length)
include h

theorem addrMatch_append (set : Option AddrSet) :
    AddrMatch set (p ++ pad) l3 ↔ AddrMatch set p l3 := by
  rw [AddrMatch, AddrMatch, srcAt, srcAt, dstAt, dstAt, wordAt_append pad (by omega),
    wordAt_append pad (by omega)]

theorem protoAt_append : protoAt (p ++ pad) l3 = protoAt p l3 := byteAt_append_left (by omega)

theorem l4At_append : l4At (p ++ pad) l3 = l4At p l3 := by
  rw [l4At, l4At, ihlAt, ihlAt, byteAt_append_left (by omega)]

end Header

section Transport
variable (h : l3 + 20 ≤ p.length) (hports : HasPorts p l3)
include h hports

theorem hasPorts_append : HasPorts (p ++ pad) l3 := by
  rcases hports with ⟨hproto, hihl, hlen⟩
  refine ⟨?_, ?_, ?_⟩
  · rw [protoAt_append pad h]
    exact hproto
  · rw [ihlAt, byteAt_append_left (by omega)]
    exact hihl
  · rw [l4At_append pad h, List.length_append]
    omega

theorem ports_append :
    sportAt (p ++ pad) l3 = sportAt p l3 ∧ dportAt (p ++ pad) l3 = dportAt p l3 := by
  have hlen := hports.2.2
  constructor
  · rw [sportAt, sportAt, l4At_append pad h, portAt_append pad (by omega)]
  · rw [dportAt, dportAt, l4At_append pad h, portAt_append pad (by omega)]

theorem flowAt_append : flowAt (p ++ pad) l3 = flowAt p l3 := by
  obtain ⟨hs, hd⟩ := ports_append pad h hports
  rw [flowAt, flowAt, hs, hd, protoAt_append pad h, srcAt, srcAt, dstAt, dstAt,
    wordAt_append pad (by omega), wordAt_append pad (by omega)]

/-- The generic profile counts the same flow or none. -/
theorem genericAt_append (set : Option AddrSet) (flowtab : Option FlowTab) (flowCutoff : UInt32) :
    genericAt set flowtab flowCutoff (p ++ pad) l3 = genericAt set flowtab flowCutoff p l3 := by
  have hports' := hasPorts_append pad h hports
  simp only [genericAt, addrMatch_append pad h, flowAt_append pad h hports, hports, hports']

theorem isDns_append (cfg : ClassCfg) : IsDns cfg (p ++ pad) l3 ↔ IsDns cfg p l3 := by
  obtain ⟨hs, hd⟩ := ports_append pad h hports
  rw [IsDns, IsDns, hs, hd]

end Transport

section Tcp
variable (h : l3 + 20 ≤ p.length) (hflags : HasFlags p l3)
include h hflags

theorem hasFlags_append : HasFlags (p ++ pad) l3 := by
  refine ⟨?_, ?_⟩
  · rw [protoAt_append pad h]
    exact hflags.1
  · have hlen := hflags.2
    rw [l4At_append pad h, List.length_append]
    omega

theorem isSyn_append : IsSyn (p ++ pad) l3 ↔ IsSyn p l3 := by
  have hlen := hflags.2
  rw [IsSyn, IsSyn, l4At_append pad h, byteAt_append_left (by omega)]

theorem tcpHlAt_append : tcpHlAt (p ++ pad) l3 = tcpHlAt p l3 := by
  have hlen := hflags.2
  rw [tcpHlAt, tcpHlAt, l4At_append pad h, byteAt_append_left (by omega)]

end Tcp
end Appended

/-! Complete datagrams. -/

/-- Total length of the IP header at `l3`. -/
def totalLengthAt (p : Bytes) (l3 : Nat) : Nat :=
  (byteAt p (l3 + 2)).toNat * 256 + (byteAt p (l3 + 3)).toNat

/-- The more-fragments bit of the IP header at `l3` is clear, and so is its offset. -/
def Unfragmented (p : Bytes) (l3 : Nat) : Prop :=
  fragOffset p l3 = 0 ∧ byteAt p (l3 + 6) &&& 0x20 = 0

/-- An unfragmented TCP or UDP datagram at `l3` whose last byte is the last one captured. -/
structure CompleteDatagram (p : Bytes) (l3 : Nat) : Prop where
  version : byteAt p l3 >>> 4 = 4
  ihl : 20 ≤ ihlAt p l3
  unfragmented : Unfragmented p l3
  transport : (protoAt p l3 = 17 ∧ l4At p l3 + 8 ≤ p.length) ∨
    (protoAt p l3 = 6 ∧ 20 ≤ tcpHlAt p l3 ∧ l4At p l3 + tcpHlAt p l3 ≤ p.length)
  ends : l3 + totalLengthAt p l3 = p.length

/-- A TCP segment that carries nothing. -/
def EmptySegment (p : Bytes) (l3 : Nat) : Prop :=
  protoAt p l3 = 6 ∧ l4At p l3 + tcpHlAt p l3 = p.length

/-- An empty segment on a watched port which is neither DNS nor a SYN. -/
def BareOnWatchedPort (cfg : ClassCfg) (p : Bytes) (l3 : Nat) : Prop :=
  EmptySegment p l3 ∧ ¬ IsDns cfg p l3 ∧ ¬ IsSyn p l3 ∧
    cfg.dpiPorts.any (fun port => sportAt p l3 = port || dportAt p l3 = port)

instance decidableBareOnWatchedPort (cfg : ClassCfg) (p : Bytes) (l3 : Nat) :
    Decidable (BareOnWatchedPort cfg p l3) := by
  unfold BareOnWatchedPort EmptySegment
  infer_instance

theorem CompleteDatagram.hasPorts {p : Bytes} {l3 : Nat} (hd : CompleteDatagram p l3) :
    HasPorts p l3 := by
  rcases hd.transport with ⟨hproto, hlen⟩ | ⟨hproto, hhl, hlen⟩
  · exact ⟨Or.inr hproto, hd.ihl, by omega⟩
  · exact ⟨Or.inl hproto, hd.ihl, by omega⟩

theorem CompleteDatagram.hasFlags_iff {p : Bytes} {l3 : Nat} (hd : CompleteDatagram p l3) :
    HasFlags p l3 ↔ protoAt p l3 = 6 := by
  constructor
  · exact fun h => h.1
  · intro hproto
    refine ⟨hproto, ?_⟩
    rcases hd.transport with ⟨hudp, -⟩ | ⟨-, hhl, hlen⟩
    · rw [hproto] at hudp
      cases hudp
    · omega

theorem isHttp_padded (cfg : ClassCfg) {p : Bytes} {l3 : Nat} (h : l3 + 20 ≤ p.length)
    (hd : CompleteDatagram p l3) (hproto : protoAt p l3 = 6) (hdns : ¬ IsDns cfg p l3)
    (hsyn : ¬ IsSyn p l3) (pad : Bytes) :
    IsHttp cfg (p ++ pad) l3 ↔ IsHttp cfg p l3 ∨ (pad ≠ [] ∧ BareOnWatchedPort cfg p l3) := by
  have hflags := hd.hasFlags_iff.mpr hproto
  obtain ⟨hs, hdp⟩ := ports_append pad h hd.hasPorts
  rw [IsHttp, IsHttp, tcpHlAt_append pad h hflags, l4At_append pad h, hs, hdp, List.length_append]
  rcases hd.transport with ⟨hudp, -⟩ | ⟨-, hhl, hlen⟩
  · rw [hproto] at hudp
    cases hudp
  constructor
  · intro hex
    rcases hex with ⟨-, hpay, hport⟩
    by_cases hempty : l4At p l3 + tcpHlAt p l3 = p.length
    · have hpad : pad ≠ [] := by
        intro hnil
        rw [hnil, List.length_nil] at hpay
        omega
      exact Or.inr ⟨hpad, ⟨hproto, hempty⟩, hdns, hsyn, hport⟩
    · exact Or.inl ⟨hhl, by omega, hport⟩
  · rintro (⟨-, hpay, hport⟩ | ⟨hpad, ⟨-, hempty⟩, -, -, hport⟩)
    · exact ⟨hhl, by omega, hport⟩
    · have hpos := List.length_pos_iff.mpr hpad
      exact ⟨hhl, by omega, hport⟩

/-- Padding reaches one rule: the payload test of an empty segment. -/
theorem transportClass_padded (cfg : ClassCfg) {p : Bytes} {l3 : Nat} (h : l3 + 20 ≤ p.length)
    (hd : CompleteDatagram p l3) (pad : Bytes) :
    transportClass cfg (p ++ pad) l3 =
      if pad ≠ [] ∧ BareOnWatchedPort cfg p l3 then 1 else transportClass cfg p l3 := by
  have hports := hd.hasPorts
  have hports' := hasPorts_append pad h hports
  rw [transportClass, transportClass, if_pos hports, if_pos hports']
  by_cases hdns : IsDns cfg p l3
  · have hdns' := (isDns_append pad h hports cfg).mpr hdns
    have hbare : ¬ (pad ≠ [] ∧ BareOnWatchedPort cfg p l3) := fun hb => hb.2.2.1 hdns
    rw [if_pos hdns, if_pos hdns', if_neg hbare]
  have hdns' : ¬ IsDns cfg (p ++ pad) l3 := fun hd' => hdns ((isDns_append pad h hports cfg).mp hd')
  rw [if_neg hdns, if_neg hdns']
  by_cases hproto : protoAt p l3 = 6
  · have hflags := hd.hasFlags_iff.mpr hproto
    rw [if_pos hflags, if_pos (hasFlags_append pad h hflags)]
    by_cases hsyn : IsSyn p l3
    · have hbare : ¬ (pad ≠ [] ∧ BareOnWatchedPort cfg p l3) := fun hb => hb.2.2.2.1 hsyn
      rw [if_pos hsyn, if_pos ((isSyn_append pad h hflags).mpr hsyn), if_neg hbare]
    rw [if_neg hsyn, if_neg fun hs => hsyn ((isSyn_append pad h hflags).mp hs)]
    have hhttp := isHttp_padded cfg h hd hproto hdns hsyn pad
    by_cases hbare : pad ≠ [] ∧ BareOnWatchedPort cfg p l3
    · rw [if_pos hbare, if_pos (hhttp.mpr (Or.inr hbare))]
    · rw [if_neg hbare]
      have hiff : IsHttp cfg (p ++ pad) l3 ↔ IsHttp cfg p l3 :=
        hhttp.trans (or_iff_left hbare)
      simp only [hiff]
  · have hflags : ¬ HasFlags p l3 := fun hf => hproto hf.1
    have hflags' : ¬ HasFlags (p ++ pad) l3 := by
      intro hf
      exact hproto ((protoAt_append pad h).symm.trans hf.1)
    have hbare : ¬ (pad ≠ [] ∧ BareOnWatchedPort cfg p l3) := fun hb => hproto hb.2.1.1
    rw [if_neg hflags, if_neg hflags', if_neg hbare]

/-- The verdict on a padded packet: the class and the flow table of the unpadded one. -/
def PaddingInvisible (cfg : ClassCfg) (set : Option AddrSet) (flowtab : Option FlowTab)
    (flowCutoff : UInt32) (p q : Packet) : Prop :=
  classifyGeneric cfg (setPtr set) flowtab flowCutoff q.bytes q.caplen =
      classifyGeneric cfg (setPtr set) flowtab flowCutoff p.bytes p.caplen ∧
    classifyRefine cfg (setPtr set) flowtab flowCutoff q.bytes q.caplen =
      classifyRefine cfg (setPtr set) flowtab flowCutoff p.bytes p.caplen

/-- An empty segment is not taken for HTTP. -/
def EmptyNotHttp (cfg : ClassCfg) (set : Option AddrSet) (flowtab : Option FlowTab)
    (flowCutoff : UInt32) (p q : Packet) (l3 : Nat) : Prop :=
  EmptySegment p.bytes l3 → ∀ f,
    classifyRefine cfg (setPtr set) flowtab flowCutoff q.bytes q.caplen ≠ .ok (1, f)

theorem EmptySegment.not_http {p : Bytes} {l3 : Nat} (hempty : EmptySegment p l3) (cfg : ClassCfg) :
    transportClass cfg p l3 ≠ 1 := by
  have hhttp : ¬ IsHttp cfg p l3 := by
    intro h
    rcases h with ⟨-, hpay, -⟩
    have := hempty.2
    omega
  unfold transportClass
  repeat' split
  all_goals decide

theorem refineAt_http_iff (cfg : ClassCfg) (set : Option AddrSet) (flowtab : Option FlowTab)
    (flowCutoff : UInt32) (p : Bytes) (l3 : Nat) :
    (refineAt cfg set flowtab flowCutoff p l3).1 = 1 ↔ transportClass cfg p l3 = 1 := by
  rcases refineAt_rules flowtab flowCutoff cfg set p l3 with
    ⟨-, heq⟩ | ⟨hcls, -, heq⟩ | ⟨hcls, -, hrange⟩
  · rw [heq]
  · rw [heq, hcls]
    exact iff_of_false nofun nofun
  · rw [hcls]
    exact iff_of_false (by omega) nofun

theorem refineAt_padded (cfg : ClassCfg) (set : Option AddrSet) (flowtab : Option FlowTab)
    (flowCutoff : UInt32) {p : Bytes} {l3 : Nat} (h : l3 + 20 ≤ p.length) (hports : HasPorts p l3)
    {pad : Bytes} (hsame : transportClass cfg (p ++ pad) l3 = transportClass cfg p l3) :
    refineAt cfg set flowtab flowCutoff (p ++ pad) l3 = refineAt cfg set flowtab flowCutoff p l3 := by
  have hports' := hasPorts_append pad h hports
  obtain ⟨hs, hd⟩ := ports_append pad h hports
  simp only [refineAt, hsame, addrMatch_append pad h, hs, hd, flowAt_append pad h hports, hports,
    hports']

end PcapyNg
