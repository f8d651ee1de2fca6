import PcapyNg.GenPcap
import PcapyNg.Library.GreedyCover

/-!
# The address sets of the manifest

The generator picks external hosts, those with the most packets first, until their packets make
up a share of the file, and pads the ten largest with addresses that are not in it. A run admits
what the manifest expects of such a set, unless the padding holds an internal host.
-/

namespace PcapyNg.GenPcap
open GreedyCover
set_option autoImplicit false

/-- The host that `ext_counts` counts the round under. -/
def Round.counted (g : Round) : Option UInt32 :=
  if g.ipv6.isNone then some g.flow.external else none

/-- The keys of `ext_counts` in the order in which they came. -/
def extKeys (gs : List Round) : List UInt32 := (gs.filterMap Round.counted).reverse.dedup.reverse

/-- The order by `(-kv[1], kv[0])`. -/
def RankedBefore (a b : UInt32 × Nat) : Prop := b.2 < a.2 ∨ a.2 = b.2 ∧ a.1 ≤ b.1

instance : DecidableRel RankedBefore := fun a b =>
  inferInstanceAs (Decidable (b.2 < a.2 ∨ a.2 = b.2 ∧ a.1 ≤ b.1))

def ranked (gs : List Round) : List (UInt32 × Nat) :=
  ((extKeys gs).map fun ip => (ip, (counts gs).extCounts ip)).insertionSort RankedBefore

/-- The loop of `set_for_fraction`. -/
def setLoop (want : Nat) : List (UInt32 × Nat) → List UInt32 × Nat → List UInt32 × Nat
  | [], st => st
  | (ip, c) :: rest, (chosen, got) =>
    if got ≥ want then (chosen, got) else setLoop want rest (chosen ++ [ip], got + c)

/-- `set_for_fraction`; `want` is the rounded share of the packets. -/
def setForFraction (gs : List Round) (want : Nat) : List UInt32 × Nat :=
  setLoop want (ranked gs) ([], 0)

def core (gs : List Round) : List UInt32 := ((ranked gs).take 10).map Prod.fst

def coreMatches (gs : List Round) : Nat := expectedMatches (counts gs) (core gs)

/-- `ip2int('198.18.0.0')` -/
def padBase : Nat := 0xc6120000

/-- The addresses of `size_sets[str(size)]`. -/
def sizeSet (gs : List Round) (size : Nat) : List UInt32 :=
  core gs ++ (List.range (size - (core gs).length)).map fun i => UInt32.ofNat (padBase + i + 1)

/-- What `build_flows` makes sure of: at most 4000 external hosts, none of them in a private or a
test range. -/
structure Drawn (externals : List UInt32) (gs : List Round) : Prop where
  few : externals.length ≤ 4000
  octet : ∀ ip ∈ externals, ip >>> 24 ∉ ([0, 10, 127, 172, 192, 198] : List UInt32)
  drawn : ∀ g ∈ gs, g.flow.external ∈ externals

/-! The ranking. -/

theorem rankedBefore_total (a b : UInt32 × Nat) : RankedBefore a b ∨ RankedBefore b a := by
  rcases Nat.lt_trichotomy a.2 b.2 with hlt | heq | hlt
  · exact Or.inr (Or.inl hlt)
  · rcases UInt32.le_total a.1 b.1 with hle | hle
    · exact Or.inl (Or.inr ⟨heq, hle⟩)
    · exact Or.inr (Or.inr ⟨heq.symm, hle⟩)
  · exact Or.inl (Or.inl hlt)

theorem rankedBefore_trans {a b c : UInt32 × Nat} (hab : RankedBefore a b)
    (hbc : RankedBefore b c) : RankedBefore a c := by
  rcases hab with hab | ⟨hab, hle⟩
  · rcases hbc with hbc | ⟨hbc, -⟩
    · exact Or.inl (hbc.trans hab)
    · exact Or.inl (hbc ▸ hab)
  · rcases hbc with hbc | ⟨hbc, hle'⟩
    · exact Or.inl (hab ▸ hbc)
    · exact Or.inr ⟨hab.trans hbc, UInt32.le_trans hle hle'⟩

instance : Std.Total RankedBefore := ⟨rankedBefore_total⟩
instance : IsTrans (UInt32 × Nat) RankedBefore := ⟨fun _ _ _ => rankedBefore_trans⟩

section Ranking
variable (gs : List Round)

theorem ranked_perm :
    (ranked gs).Perm ((extKeys gs).map fun ip => (ip, (counts gs).extCounts ip)) :=
  List.perm_insertionSort _ _

theorem ranked_count {x : UInt32 × Nat} (hx : x ∈ ranked gs) : x.2 = (counts gs).extCounts x.1 := by
  obtain ⟨ip, -, rfl⟩ := List.mem_map.mp ((ranked_perm gs).mem_iff.mp hx)
  rfl

theorem rankedIps_perm : ((ranked gs).map Prod.fst).Perm (extKeys gs) := by
  have h := (ranked_perm gs).map Prod.fst
  rwa [List.map_map, Function.comp_def, List.map_id'] at h

theorem rankedIps_nodup : ((ranked gs).map Prod.fst).Nodup := by
  rw [(rankedIps_perm gs).nodup_iff, extKeys, List.nodup_reverse]
  exact List.nodup_dedup _

theorem ranked_descending :
    Descending (counts gs).extCounts ((ranked gs).map Prod.fst) := by
  have hsorted : (ranked gs).Pairwise RankedBefore := List.pairwise_insertionSort _ _
  unfold Descending
  rw [List.pairwise_map]
  apply hsorted.imp_of_mem
  intro a b ha hb hab
  rw [← ranked_count gs ha, ← ranked_count gs hb]
  rcases hab with hlt | ⟨heq, -⟩
  · exact hlt.le
  · exact heq.ge

variable {gs}

theorem mem_extKeys {ip : UInt32} :
    ip ∈ extKeys gs ↔ ∃ g ∈ gs, g.ipv6.isNone ∧ g.flow.external = ip := by
  rw [extKeys, List.mem_reverse, List.mem_dedup, List.mem_reverse, List.mem_filterMap]
  simp only [Round.counted, Option.ite_none_right_eq_some, Option.some_inj]

theorem extCounts_absent {ip : UInt32} (h : ip ∉ extKeys gs) : (counts gs).extCounts ip = 0 := by
  rw [counts_eq]
  refine List.countP_eq_zero.mpr fun g hg hc => h (mem_extKeys.mpr ⟨g, hg, ?_⟩)
  exact of_decide_eq_true hc

end Ranking

/-! The loop of `set_for_fraction`. -/

/-- The loop goes on from `(chosen, got)` with the shortest front that makes up the rest. -/
theorem setLoop_eq {count : UInt32 → Nat} {pairs : List (UInt32 × Nat)}
    (hpairs : ∀ x ∈ pairs, x.2 = count x.1) (want : Nat) (chosen : List UInt32) (got : Nat) :
    setLoop want pairs (chosen, got) =
      (chosen ++ reaching count (want - got) (pairs.map Prod.fst),
        got + weight count (reaching count (want - got) (pairs.map Prod.fst))) := by
  induction pairs generalizing chosen got with
  | nil => simp [setLoop, reaching]
  | cons x pairs ih =>
    rcases x with ⟨ip, c⟩
    obtain rfl : c = count ip := hpairs (ip, c) List.mem_cons_self
    rw [setLoop, List.map_cons, reaching]
    by_cases hdone : got ≥ want
    · rw [if_pos hdone, if_pos (by omega : want - got = 0)]
      simp
    · rw [if_neg hdone, if_neg (by omega : want - got ≠ 0),
        ih (fun x hx => hpairs x (List.mem_cons_of_mem _ hx)), ← Nat.sub_sub]
      simp only [List.append_assoc, List.singleton_append, weight_cons, Nat.add_assoc]

section Fraction
variable (gs : List Round) (want : Nat)

theorem setForFraction_fst : (setForFraction gs want).1 =
    reaching (counts gs).extCounts want ((ranked gs).map Prod.fst) := by
  rw [setForFraction, setLoop_eq fun x hx => ranked_count gs hx]
  rfl

theorem setForFraction_snd :
    (setForFraction gs want).2 = expectedMatches (counts gs) (setForFraction gs want).1 := by
  rw [setForFraction_fst, setForFraction, setLoop_eq fun x hx => ranked_count gs hx]
  exact Nat.zero_add _

/-- The chosen hosts are a front of the ranking. -/
theorem setForFraction_front :
    (setForFraction gs want).1 <+: (ranked gs).map Prod.fst := by
  rw [setForFraction_fst]
  exact reaching_prefix _ _ _

variable {gs want}

theorem setForFraction_fewest {ips : List UInt32} (hnodup : ips.Nodup)
    (hreach : want ≤ expectedMatches (counts gs) ips) :
    (setForFraction gs want).1.length ≤ ips.length := by
  rw [setForFraction_fst]
  refine reaching_optimal (ranked_descending gs) hnodup (fun ip _ hout => ?_) hreach
  exact extCounts_absent fun hmem => hout ((rankedIps_perm gs).mem_iff.mpr hmem)

theorem expectedMatches_le {ips : List UInt32} (hnodup : ips.Nodup) :
    expectedMatches (counts gs) ips ≤ expectedMatches (counts gs) ((ranked gs).map Prod.fst) := by
  rw [expectedMatches_eq gs hnodup, expectedMatches_eq gs (rankedIps_nodup gs)]
  refine List.countP_mono_left fun g hg hc => ?_
  rw [decide_eq_true_iff] at hc ⊢
  exact ⟨hc.1, (rankedIps_perm gs).mem_iff.mpr (mem_extKeys.mpr ⟨g, hg, hc.1, rfl⟩)⟩

theorem setForFraction_reaches {ips : List UInt32} (hnodup : ips.Nodup)
    (hreach : want ≤ expectedMatches (counts gs) ips) : want ≤ (setForFraction gs want).2 := by
  rw [setForFraction_snd, setForFraction_fst]
  exact reaching_reaches _ (hreach.trans (expectedMatches_le hnodup))

end Fraction

/-! What a run over the file finds. -/

/-- C and Python both admit `n` packets with the address set. -/
def Finds (lib : Libpcap) (pp : PcapObject) (calls : Nat) (ips : List UInt32) (n : Nat) : Prop :=
  ∃ admitted dropped classes pp' made res,
    pLoopFiltered lib {} pp (benchArgs 4 (addrBytes ips) 0) (fun _ _ => none) =
        .ok (.ret (admitted :: dropped :: classes), pp', made) ∧
      addrSetMatch lib ips calls pp = .ok (.ret res) ∧ made.length = n ∧ res.admitted = n

section Drawn
variable {externals : List UInt32} {gs : List Round} (hdrawn : Drawn externals gs)
include hdrawn

theorem Drawn.mem {ip : UInt32} (h : ip ∈ extKeys gs) : ip ∈ externals := by
  obtain ⟨g, hg, -, rfl⟩ := mem_extKeys.mp h
  exact hdrawn.drawn g hg

theorem Drawn.shift_ne (a : UInt32) (ha : a ∈ ([0, 10, 127, 172, 192, 198] : List UInt32))
    {ip : UInt32} (h : ip ∈ extKeys gs) : ip >>> 24 ≠ a := fun heq =>
  hdrawn.octet ip (hdrawn.mem h) (heq ▸ ha)

theorem Drawn.ne_zero {ip : UInt32} (h : ip ∈ extKeys gs) : ip ≠ 0 := by
  rintro rfl
  exact hdrawn.shift_ne 0 (by decide) h (by decide)

theorem Drawn.keys_few : (extKeys gs).length ≤ 4000 := by
  have hnodup : (extKeys gs).Nodup := List.nodup_reverse.mpr (List.nodup_dedup _)
  exact (List.subperm_of_subset hnodup fun _ => hdrawn.mem).length_le.trans hdrawn.few

end Drawn

section Front
variable {gs : List Round} {front : List UInt32} (hfront : front <+: (ranked gs).map Prod.fst)
include hfront

theorem front_nodup : front.Nodup := (rankedIps_nodup gs).sublist hfront.sublist

theorem front_keys {ip : UInt32} (h : ip ∈ front) : ip ∈ extKeys gs :=
  (rankedIps_perm gs).mem_iff.mp (hfront.subset h)

theorem front_length : front.length ≤ (extKeys gs).length := by
  rw [← (rankedIps_perm gs).length_eq]
  exact hfront.length_le

variable {externals : List UInt32} (hdrawn : Drawn externals gs) {pads : List UInt32}
  (hnodup : pads.Nodup) (hpads : ∀ ip ∈ pads, ip ≠ 0 ∧ ip ∉ extKeys gs)
include hdrawn hnodup hpads

/-- A front of the ranking and addresses that no counted packet is of: what is found is what the
front counts, and what the internal hosts among the other addresses add. -/
theorem padded_finds {rs : List Record} (hframes : rs.map Record.data = gs.map Round.frame)
    (lib : Libpcap) {pp : PcapObject} (hpcap : pp.pcap = some ⟨rs, .eof, false⟩) {calls : Nat}
    (hcalls : rs.length < calls) (hmany : pads.length ≤ 1000000) :
    Finds lib pp calls (front ++ pads) (expectedMatches (counts gs) front +
      gs.countP fun g => g.ipv6.isNone ∧ g.flow.internal ∈ pads ∧ g.flow.external ∉ front) := by
  have hall : (front ++ pads).Nodup := List.nodup_append.mpr
    ⟨front_nodup hfront, hnodup, fun a ha b hb hab => (hpads b hb).2 (hab ▸ front_keys hfront ha)⟩
  have hne : ∀ ip ∈ front ++ pads, ip ≠ 0 := by
    intro ip hip
    rcases List.mem_append.mp hip with hip | hip
    · exact hdrawn.ne_zero (front_keys hfront hip)
    · exact (hpads ip hip).1
  have hmax : (front ++ pads).length ≤ 2 ^ 30 := by
    have hkeys := (front_length hfront).trans hdrawn.keys_few
    rw [List.length_append]
    omega
  have hpad : (pads.map (counts gs).extCounts).sum = 0 :=
    List.sum_eq_zero fun n hn => by
      obtain ⟨ip, hip, rfl⟩ := List.mem_map.mp hn
      exact extCounts_absent (hpads ip hip).2
  have hexpected : expectedMatches (counts gs) (front ++ pads) =
      expectedMatches (counts gs) front := by
    rw [expectedMatches, List.map_append, List.sum_append, hpad]
    rfl
  have hinternal : (gs.countP fun g => decide (g.ipv6.isNone = true ∧
        g.flow.internal ∈ front ++ pads ∧ g.flow.external ∉ front ++ pads)) =
      gs.countP fun g => decide (g.ipv6.isNone = true ∧ g.flow.internal ∈ pads ∧
        g.flow.external ∉ front) := by
    refine List.countP_congr fun g hg => ?_
    simp only [decide_eq_true_iff, List.mem_append, not_or]
    constructor
    · rintro ⟨hipv6, hin, hout, -⟩
      refine ⟨hipv6, hin.resolve_left fun hmem => ?_, hout⟩
      exact hdrawn.shift_ne 10 (by decide) (front_keys hfront hmem) g.flow.internal_private
    · rintro ⟨hipv6, hin, hout⟩
      exact ⟨hipv6, Or.inr hin, hout, fun hmem =>
        (hpads _ hmem).2 (mem_extKeys.mpr ⟨g, hg, hipv6, rfl⟩)⟩
  obtain ⟨admitted, dropped, classes, pp', made, res, hrun, hpy, hmade, hres⟩ :=
    set_admitted hframes lib hpcap hcalls hall hne hmax
  rw [hexpected, hinternal] at hres
  exact ⟨admitted, dropped, classes, pp', made, res, hrun, hpy, hmade.trans hres, hres⟩

/-- Without an internal host among the other addresses the expectation is met. -/
theorem padded_finds_expected {rs : List Record}
    (hframes : rs.map Record.data = gs.map Round.frame) (lib : Libpcap) {pp : PcapObject}
    (hpcap : pp.pcap = some ⟨rs, .eof, false⟩) {calls : Nat} (hcalls : rs.length < calls)
    (hmany : pads.length ≤ 1000000) (hout : ∀ ip ∈ pads, ip >>> 24 ≠ 10) :
    Finds lib pp calls (front ++ pads) (expectedMatches (counts gs) front) := by
  have h := padded_finds hfront hdrawn hnodup hpads hframes lib hpcap hcalls hmany
  have hnone : (gs.countP fun g => decide (g.ipv6.isNone = true ∧ g.flow.internal ∈ pads ∧
      g.flow.external ∉ front)) = 0 := by
    refine List.countP_eq_zero.mpr fun g _ hc => ?_
    exact hout _ (of_decide_eq_true hc).2.1 g.flow.internal_private
  rwa [hnone, Nat.add_zero] at h

end Front

/-! Consecutive addresses from 198.18.0.1 on. -/

theorem pad_toNat {i : Nat} (hi : i < 1000000) :
    (UInt32.ofNat (padBase + i + 1)).toNat = padBase + i + 1 :=
  UInt32.toNat_ofNat_of_lt' (by unfold padBase; omega : padBase + i + 1 < 2 ^ 32)

theorem pad_octet {i : Nat} (hi : i < 1000000) :
    UInt32.ofNat (padBase + i + 1) >>> 24 = 198 := by
  apply UInt32.toNat_inj.mp
  rw [UInt32.toNat_shiftRight, pad_toNat hi]
  show (padBase + i + 1) >>> 24 = 198
  rw [Nat.shiftRight_eq_div_pow]
  unfold padBase
  omega

section Consecutive
variable {n : Nat} (hn : n ≤ 1000000)
include hn

theorem pads_octet : ∀ ip ∈ (List.range n).map (fun i => UInt32.ofNat (padBase + i + 1)),
    ip >>> 24 = 198 := by
  intro ip hip
  obtain ⟨i, hi, rfl⟩ := List.mem_map.mp hip
  exact pad_octet ((List.mem_range.mp hi).trans_le hn)

theorem pads_nodup : ((List.range n).map fun i => UInt32.ofNat (padBase + i + 1)).Nodup := by
  refine List.Nodup.map_on (fun i hi j hj h => ?_) List.nodup_range
  have hnat := congrArg UInt32.toNat h
  rw [pad_toNat ((List.mem_range.mp hi).trans_le hn),
    pad_toNat ((List.mem_range.mp hj).trans_le hn)] at hnat
  omega

end Consecutive

/-- The sets of the manifest find what it says: a share is reached, if it can be, by the fewest
hosts that reach it; consecutive padding changes nothing at any size; padding drawn at random
adds the packets of the internal hosts among it. -/
theorem manifest_sets_met (lib : Libpcap) (pp : PcapObject) (rs : List Record) (gs : List Round)
    (hpcap : pp.pcap = some ⟨rs, .eof, false⟩) (hframes : rs.map Record.data = gs.map Round.frame)
    (calls : Nat) (hcalls : rs.length < calls) (externals : List UInt32)
    (hdrawn : Drawn externals gs) :
    (∀ want, Finds lib pp calls (setForFraction gs want).1 (setForFraction gs want).2 ∧
      ∀ ips : List UInt32, ips.Nodup → want ≤ expectedMatches (counts gs) ips →
        want ≤ (setForFraction gs want).2 ∧ (setForFraction gs want).1.length ≤ ips.length) ∧
    (∀ size ≤ 1000000, (sizeSet gs size).length = max size (core gs).length ∧
      Finds lib pp calls (sizeSet gs size) (coreMatches gs)) ∧
    ∀ k (pads : List UInt32), pads.Nodup → (∀ ip ∈ pads, ip ≠ 0 ∧ ip ∉ extKeys gs) →
      pads.length ≤ 1000000 →
      let front := ((ranked gs).take k).map Prod.fst
      Finds lib pp calls (front ++ pads) (expectedMatches (counts gs) front + gs.countP fun g =>
        g.ipv6.isNone ∧ g.flow.internal ∈ pads ∧ g.flow.external ∉ front) := by
  have htake : ∀ k, ((ranked gs).take k).map Prod.fst <+: (ranked gs).map Prod.fst := by
    intro k
    rw [List.map_take]
    exact List.take_prefix _ _
  refine ⟨fun want => ⟨?_, fun ips hnodup hreach => ?_⟩, fun size hsize => ⟨?_, ?_⟩, ?_⟩
  · have h := padded_finds_expected (setForFraction_front gs want) hdrawn List.nodup_nil nofun
      hframes lib hpcap hcalls (Nat.zero_le _) nofun
    rwa [List.append_nil, ← setForFraction_snd] at h
  · exact ⟨setForFraction_reaches hnodup hreach, setForFraction_fewest hnodup hreach⟩
  · rw [sizeSet, List.length_append, List.length_map, List.length_range]
    omega
  · have hn : size - (core gs).length ≤ 1000000 := by omega
    refine padded_finds_expected (htake 10) hdrawn (pads_nodup hn) (fun ip hip => ⟨?_, ?_⟩)
      hframes lib hpcap hcalls ?_ fun ip hip => ?_
    · rintro rfl
      exact absurd (pads_octet hn 0 hip) (by decide)
    · exact fun hmem => hdrawn.shift_ne 198 (by decide) hmem (pads_octet hn ip hip)
    · rwa [List.length_map, List.length_range]
    · rw [pads_octet hn ip hip]
      decide
  · exact fun k pads hnodup hpads hmany =>
      padded_finds (htake k) hdrawn hnodup hpads hframes lib hpcap hcalls hmany

theorem dnsRounds_drawn : Drawn [0x08080808, 0x01010101] dnsRounds where
  few := by decide
  octet := by
    intro ip hip
    rcases List.mem_pair.mp hip with rfl | rfl <;> decide
  drawn := by
    intro g hg
    simp only [dnsRounds, List.mem_cons, List.not_mem_nil, or_false] at hg
    rcases hg with rfl | rfl | rfl | rfl <;> decide

/-- Half of the packets are reached with one host, a set of 12 adds ten that find nothing, and an
internal host as padding finds one packet more. -/
theorem manifest_sets_met_dns :
    let pp : PcapObject := ⟨some ⟨dnsRecords, .eof, false⟩, [], 0⟩
    Finds .offline pp 5 [0x08080808] 3 ∧
      ((sizeSet dnsRounds 12).length = 12 ∧ Finds .offline pp 5 (sizeSet dnsRounds 12) 4) ∧
      Finds .offline pp 5 [0x08080808, 0x0a000002] 4 := by
  obtain ⟨hshares, hsizes, hpads⟩ := manifest_sets_met .offline
    ⟨some ⟨dnsRecords, .eof, false⟩, [], 0⟩ dnsRecords dnsRounds rfl rfl 5 (by decide)
    [0x08080808, 0x01010101] dnsRounds_drawn
  refine ⟨(hshares 2).1, hsizes 12 (by decide), ?_⟩
  refine hpads 1 [0x0a000002] (by decide) (fun ip hip => ?_) (by decide)
  rw [List.mem_singleton.mp hip]
  decide

end PcapyNg.GenPcap
