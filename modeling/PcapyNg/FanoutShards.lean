import PcapyNg.Library.ShardedHeads
import PcapyNg.FlowRestart

/-!
# One interface behind several handles

`set_fanout` joins handles to a group of the kernel, which gives every packet to one of them
and keeps every flow on one handle. Each handle filters with a flow table of its own. The
tables then evict less than the table of a single handle would, and every flow still meets
one table only.
-/

namespace PcapyNg
open ReadLoop SlotCounter
set_option autoImplicit false

/-- `(int)(((unsigned)group_id & 0xffffu) | ((unsigned)fanout_type << 16))` -/
def fanoutWord (groupId fanoutType : Int32) : Int32 :=
  UInt32.toInt32 ((groupId.toUInt32 &&& 0xffff) ||| (fanoutType.toUInt32 <<< (16 : UInt32)))

def noSocketText : String :=
  "no socket fd for this capture (PACKET_FANOUT needs a live AF_PACKET capture, not an offline pcap)"

/-- `set_fanout` on Linux; `fileno` and `setsockopt` are libpcap's and the kernel's, the latter
with the exception that `PyErr_SetFromErrno` makes of a failure. -/
def pSetFanout (fileno : Capture → Int32) (setsockopt : Int32 → Int32 → Option PyExc)
    (pp : PcapObject) (groupId fanoutType : Int32) : PyOutcome Unit :=
  match pp.pcap with
  | none => .raise errClosed
  | some c =>
    if fileno c < 0 then .raise (.pcapError noSocketText)
    else
      match setsockopt (fileno c) (fanoutWord groupId fanoutType) with
      | some e => .raise e
      | none => .ret ()

theorem fanoutWord_toNat (groupId fanoutType : Int32) :
    (fanoutWord groupId fanoutType).toUInt32.toNat =
      fanoutType.toUInt32.toNat % 2 ^ 16 * 2 ^ 16 + groupId.toUInt32.toNat % 2 ^ 16 := by
  have hlow : (groupId.toUInt32 &&& 0xffff).toNat = groupId.toUInt32.toNat % 2 ^ 16 := by
    rw [UInt32.toNat_and]
    exact Nat.and_two_pow_sub_one_eq_mod _ 16
  have hhigh : (fanoutType.toUInt32 <<< 16).toNat = (fanoutType.toUInt32.toNat % 2 ^ 16) <<< 16 := by
    rw [UInt32.toNat_shiftLeft, Nat.shiftLeft_eq, Nat.shiftLeft_eq]
    change fanoutType.toUInt32.toNat * 2 ^ 16 % 2 ^ 32 = _
    omega
  change ((groupId.toUInt32 &&& 0xffff) ||| (fanoutType.toUInt32 <<< (16 : UInt32))).toNat = _
  rw [UInt32.toNat_or, hlow, hhigh, Nat.or_comm,
    ← Nat.shiftLeft_add_eq_or_of_lt (by omega), Nat.shiftLeft_eq]

/-- Handles are in one group, of one type, when the low halves of both arguments agree. -/
theorem fanoutWord_inj (g t g' t' : Int32) :
    fanoutWord g t = fanoutWord g' t' ↔
      g.toUInt32.toNat % 2 ^ 16 = g'.toUInt32.toNat % 2 ^ 16 ∧
        t.toUInt32.toNat % 2 ^ 16 = t'.toUInt32.toNat % 2 ^ 16 := by
  have hword := fanoutWord_toNat g t
  have hword' := fanoutWord_toNat g' t'
  constructor
  · intro h
    rw [h] at hword
    omega
  · rintro ⟨hg, ht⟩
    have hsame : (fanoutWord g t).toUInt32 = (fanoutWord g' t').toUInt32 := by
      apply UInt32.toNat_inj.mp
      rw [hword, hword', hg, ht]
    exact congrArg UInt32.toInt32 hsame

/-! What the kernel hands out: every packet with its handle. -/

section Handout
variable {n : Nat}

/-- What one handle on the interface would read. -/
def wholeOf (log : List (Fin n × Record)) : List Record := log.map Prod.snd

def handleOf (w : Fin n) (log : List (Fin n × Record)) : List Record :=
  (log.filter fun x => x.1 = w).map Prod.snd

variable (cfg : ClassCfg) (set : Option AddrSet)

/-- Every flow stays on one handle. -/
def FlowsStay (log : List (Fin n × Record)) : Prop :=
  ∀ x ∈ log, ∀ y ∈ log, ∀ fl, trackedFlow cfg set x.2.packet = some fl →
    trackedFlow cfg set y.2.packet = some fl → x.1 = y.1

/-- `set_fanout` that returns has put the socket into the group of its word. -/
theorem pSetFanout_joined {fileno : Capture → Int32} {setsockopt : Int32 → Int32 → Option PyExc}
    {pp : PcapObject} {c : Capture} (hpcap : pp.pcap = some c) {groupId fanoutType : Int32}
    (h : pSetFanout fileno setsockopt pp groupId fanoutType = .ret ()) :
    setsockopt (fileno c) (fanoutWord groupId fanoutType) = none := by
  unfold pSetFanout at h
  simp only [hpcap] at h
  split at h
  · cases h
  cases hopt : setsockopt (fileno c) (fanoutWord groupId fanoutType) with
  | none => rfl
  | some e =>
    rw [hopt] at h
    cases h

/-- The kernel keeps the flows of a group apart once all handles are in it; `set_fanout` brings them
there if it returns for all, with ids and types that agree in their low halves. -/
theorem flowsStay_of_set_fanout {fileno : Capture → Int32}
    {setsockopt : Int32 → Int32 → Option PyExc} {log : List (Fin n × Record)}
    {pps : Fin n → PcapObject} {cs : Fin n → Capture} (hpcap : ∀ w, (pps w).pcap = some (cs w))
    {g t : Int32} (hkernel : (∀ w, setsockopt (fileno (cs w)) (fanoutWord g t) = none) →
      FlowsStay cfg set log)
    {groupId fanoutType : Fin n → Int32}
    (hid : ∀ w, (groupId w).toUInt32.toNat % 2 ^ 16 = g.toUInt32.toNat % 2 ^ 16)
    (htype : ∀ w, (fanoutType w).toUInt32.toNat % 2 ^ 16 = t.toUInt32.toNat % 2 ^ 16)
    (hjoin : ∀ w, pSetFanout fileno setsockopt (pps w) (groupId w) (fanoutType w) = .ret ()) :
    FlowsStay cfg set log := by
  apply hkernel
  intro w
  have hword : fanoutWord (groupId w) (fanoutType w) = fanoutWord g t :=
    (fanoutWord_inj _ _ _ _).mpr ⟨hid w, htype w⟩
  rw [← hword]
  exact pSetFanout_joined (hpcap w) (hjoin w)

/-- The flows of a capture that the table counts. -/
def countedFlows (rs : List Record) : List Flow := trackedFlows cfg set (rs.map Record.packet)

def handleKey (x : Fin n × Record) : Option UInt64 := (trackedFlow cfg set x.2.packet).map Flow.key

variable {cfg set} {log : List (Fin n × Record)}

theorem trackedKeys_eq (ps : List Packet) :
    trackedKeys cfg set ps = ps.filterMap fun p => (trackedFlow cfg set p).map Flow.key := by
  unfold trackedKeys trackedFlows
  rw [List.map_filterMap]

theorem trackedKeys_whole (log : List (Fin n × Record)) :
    trackedKeys cfg set ((wholeOf log).map Record.packet) = log.filterMap (handleKey cfg set) := by
  rw [trackedKeys_eq, wholeOf, List.filterMap_map, List.filterMap_map]
  rfl

/-- The history behind a single handle, newest first. -/
theorem handleKeys_reverse (log : List (Fin n × Record)) :
    log.reverse.filterMap (handleKey cfg set) =
      ((countedFlows cfg set (wholeOf log)).map Flow.key).reverse := by
  rw [List.filterMap_reverse, ← trackedKeys_whole]
  rfl

theorem trackedKeys_handle (w : Fin n) (log : List (Fin n × Record)) :
    trackedKeys cfg set ((handleOf w log).map Record.packet) =
      share (handleKey cfg set) Prod.fst w log := by
  rw [trackedKeys_eq, handleOf, List.filterMap_map, List.filterMap_map]
  rfl

theorem share_reverse {β κ ω : Type} [DecidableEq ω] (key : β → Option κ) (owner : β → ω) (o : ω)
    (h : List β) : (share key owner o h).reverse = share key owner o h.reverse := by
  unfold share
  rw [List.filter_reverse, List.filterMap_reverse]

theorem handleOf_split {pre post : List (Fin n × Record)} {x : Fin n × Record} :
    handleOf x.1 (pre ++ x :: post) = handleOf x.1 pre ++ x.2 :: handleOf x.1 post := by
  simp [handleOf]

theorem handleOf_length_le (w : Fin n) (log : List (Fin n × Record)) :
    (handleOf w log).length ≤ log.length := by
  rw [handleOf, List.length_map]
  exact List.length_filter_le _ _

theorem handleKey_some {x : Fin n × Record} {k : UInt64} (h : handleKey cfg set x = some k) :
    ∃ fl, trackedFlow cfg set x.2.packet = some fl ∧ fl.key = k := by
  rcases Option.map_eq_some_iff.mp h with ⟨fl, hfl, hk⟩
  exact ⟨fl, hfl, hk⟩

theorem mem_countedFlows {x : Fin n × Record} (hx : x ∈ log) {fl : Flow}
    (hfl : trackedFlow cfg set x.2.packet = some fl) : fl ∈ countedFlows cfg set (wholeOf log) :=
  List.mem_filterMap.mpr ⟨x.2.packet,
    List.mem_map_of_mem (List.mem_map_of_mem hx), hfl⟩

/-- Where no two flows share a key, the key decides the handle as well. -/
theorem oneOwner_of_flows (hstay : FlowsStay cfg set log)
    (hkeys : ∀ f ∈ countedFlows cfg set (wholeOf log), ∀ g ∈ countedFlows cfg set (wholeOf log),
      f.key = g.key → f = g) : OneOwner (handleKey cfg set) Prod.fst log := by
  intro x hx y hy k hxk hyk
  obtain ⟨f, hf, hfk⟩ := handleKey_some hxk
  obtain ⟨g, hg, hgk⟩ := handleKey_some hyk
  have hfg := hkeys f (mem_countedFlows hx hf) g (mem_countedFlows hy hg) (hfk.trans hgk.symm)
  subst hfg
  exact hstay x hx y hy f hf hg

end Handout

/-! One packet, in the run of a single handle and in the run of its own. -/

section Packets
variable {n : Nat} {cfg : ClassCfg} {set : Option AddrSet} {N : UInt32}

/-- The classes of a capture that is filtered from the table `flowtab` on. -/
def filterClasses (cfg : ClassCfg) (set : Option AddrSet) (N : UInt32) (flowtab : Option FlowTab)
    (rs : List Record) : List Nat :=
  (classAll (genericStep cfg set N) flowtab (rs.map Record.packet)).1

theorem filterClasses_getElem (flowtab : Option FlowTab) (a : List Record) (r : Record)
    (b : List Record) :
    ∃ flowtab', (filterClasses cfg set N flowtab (a ++ r :: b))[a.length]? =
      some (genericStep cfg set N flowtab' r.packet).1 := by
  unfold filterClasses
  rw [List.map_append, List.map_cons, ← List.length_map (f := Record.packet)]
  exact ⟨_, classAll_getElem (genericStep cfg set N) flowtab _ _ _⟩

theorem filterClasses_none_not_head (rs : List Record) : 1 ∉ filterClasses cfg set N none rs := by
  have hcount : (filterClasses cfg set N none rs).count 1 = 0 :=
    headCount_none cfg set N (rs.map Record.packet)
  exact List.count_eq_zero.mp hcount

variable {alloc : FlowTabAlloc} {bits : UInt32} {f₀ : FlowTab}
  (hbuild : flowtabBuild alloc bits = some f₀) (hcut : N ≠ 0)
include hbuild hcut

theorem filterClasses_head_iff {a b : List Record} {r : Record} (hlen : a.length < 2 ^ 32)
    {fl : Flow} (ht : trackedFlow cfg set r.packet = some fl) :
    (filterClasses cfg set N (some f₀) (a ++ r :: b))[a.length]? = some 1 ↔
      recent (slotOf (1 <<< bits - 1)) (trackedKeys cfg set (a.map Record.packet)).reverse fl.key <
        N.toNat := by
  unfold filterClasses
  rw [List.map_append, List.map_cons, ← List.length_map (f := Record.packet)]
  exact head_iff_recent hbuild hcut _ (by rwa [List.length_map]) ht

theorem filterClasses_untracked {a b : List Record} {r : Record}
    (ht : trackedFlow cfg set r.packet = none) :
    (filterClasses cfg set N (some f₀) (a ++ r :: b))[a.length]? ≠ some 1 := by
  unfold filterClasses
  rw [List.map_append, List.map_cons, ← List.length_map (f := Record.packet)]
  exact untracked_not_head hbuild hcut ht

variable {pre post : List (Fin n × Record)} {x : Fin n × Record}
  (hlen : pre.length < 2 ^ 32)
include hlen

theorem whole_head_iff {fl : Flow} (ht : trackedFlow cfg set x.2.packet = some fl) :
    (filterClasses cfg set N (some f₀) (wholeOf (pre ++ x :: post)))[pre.length]? = some 1 ↔
      recent (slotOf (1 <<< bits - 1)) (pre.reverse.filterMap (handleKey cfg set)) fl.key <
        N.toNat := by
  have hiff := filterClasses_head_iff hbuild hcut (a := wholeOf pre) (b := wholeOf post)
    (by rwa [wholeOf, List.length_map]) ht
  rw [trackedKeys_whole, ← List.filterMap_reverse] at hiff
  simpa [wholeOf] using hiff

theorem handle_head_iff {fl : Flow} (ht : trackedFlow cfg set x.2.packet = some fl) :
    (filterClasses cfg set N (some f₀)
        (handleOf x.1 (pre ++ x :: post)))[(handleOf x.1 pre).length]? = some 1 ↔
      recent (slotOf (1 <<< bits - 1)) (share (handleKey cfg set) Prod.fst x.1 pre.reverse) fl.key <
        N.toNat := by
  have hiff := filterClasses_head_iff hbuild hcut (a := handleOf x.1 pre)
    (b := handleOf x.1 post) ((handleOf_length_le x.1 pre).trans_lt hlen) ht
  rw [trackedKeys_handle, share_reverse] at hiff
  rw [handleOf_split]
  exact hiff

/-- A head on its own handle is a head behind a single one. -/
theorem whole_head_of_handle
    (hone : OneOwner (handleKey cfg set) Prod.fst (pre ++ x :: post))
    (hhead : (filterClasses cfg set N (some f₀)
      (handleOf x.1 (pre ++ x :: post)))[(handleOf x.1 pre).length]? = some 1) :
    (filterClasses cfg set N (some f₀) (wholeOf (pre ++ x :: post)))[pre.length]? = some 1 := by
  cases ht : trackedFlow cfg set x.2.packet with
  | none =>
    rw [handleOf_split] at hhead
    exact absurd hhead (filterClasses_untracked hbuild hcut ht)
  | some fl =>
    have hk : handleKey cfg set x = some fl.key := congrArg (Option.map Flow.key) ht
    have hrecent := (handle_head_iff hbuild hcut hlen ht).mp hhead
    apply (whole_head_iff hbuild hcut hlen ht).mpr
    apply (recent_le_share _ hk ?_).trans_lt hrecent
    intro y hy hyk
    exact hone x (by simp) y (List.mem_append_left _ (List.mem_reverse.mp hy)) _ hk hyk

/-- The first packets of a flow are heads on its handle. -/
theorem handle_head_of_count {fl : Flow} (ht : trackedFlow cfg set x.2.packet = some fl)
    (halone : ∀ g ∈ countedFlows cfg set (wholeOf pre), g.key = fl.key → g = fl)
    (hcount : (countedFlows cfg set (wholeOf pre)).count fl < N.toNat) :
    (filterClasses cfg set N (some f₀)
      (handleOf x.1 (pre ++ x :: post)))[(handleOf x.1 pre).length]? = some 1 := by
  apply (handle_head_iff hbuild hcut hlen ht).mpr
  have hsub : (share (handleKey cfg set) Prod.fst x.1 pre.reverse).count fl.key ≤ _ :=
    (share_sublist x.1 pre.reverse).count_le fl.key
  rw [handleKeys_reverse, count_key_eq halone] at hsub
  exact ((recent_le_count _ _ _).trans hsub).trans_lt hcount

end Packets

/-! All packets together. -/

section Totals
variable {n : Nat} {cfg : ClassCfg} {set : Option AddrSet} {N : UInt32} {alloc : FlowTabAlloc}
  {bits : UInt32} {f₀ : FlowTab} {log : List (Fin n × Record)}

theorem matches_eq (flowtab : Option FlowTab) (rs : List Record) :
    (filterClasses cfg set N flowtab rs).count 2 =
      rs.countP fun r => (genericStep cfg set 0 none r.packet).1 = 2 := by
  induction rs generalizing flowtab with
  | nil => rfl
  | cons r rs ih =>
    have hcons : filterClasses cfg set N flowtab (r :: rs) =
        (genericStep cfg set N flowtab r.packet).1 ::
          filterClasses cfg set N (genericStep cfg set N flowtab r.packet).2 rs := rfl
    rw [hcons, List.count_cons, ih, List.countP_cons]
    simp only [beq_iff_eq, decide_eq_true_eq, genericStep_match_iff cfg set N 0 flowtab none]

/-- Every address match is one on some handle. -/
theorem sum_handle_matches (flowtab flowtab' : Option FlowTab) (log : List (Fin n × Record)) :
    ∑ w, (filterClasses cfg set N flowtab (handleOf w log)).count 2 =
      (filterClasses cfg set N flowtab' (wholeOf log)).count 2 := by
  simp only [matches_eq, handleOf, wholeOf, List.countP_map]
  exact sum_countP_filter Finset.univ _ fun _ _ => Finset.mem_univ _

variable (hbuild : flowtabBuild alloc bits = some f₀) (hcut : N ≠ 0) (hlen : log.length < 2 ^ 32)
  (hone : OneOwner (handleKey cfg set) Prod.fst log)
include hbuild hcut hlen

theorem handle_heads (w : Fin n) :
    (filterClasses cfg set N (some f₀) (handleOf w log)).count 1 =
      heads (slotOf (1 <<< bits - 1)) N.toNat
        (share (handleKey cfg set) Prod.fst w log.reverse) := by
  unfold filterClasses
  rw [count_one_eq_heads hbuild hcut, trackedKeys_handle, share_reverse]
  rw [List.length_map]
  exact (handleOf_length_le w log).trans_lt hlen

theorem whole_heads :
    (filterClasses cfg set N (some f₀) (wholeOf log)).count 1 =
      heads (slotOf (1 <<< bits - 1)) N.toNat (log.reverse.filterMap (handleKey cfg set)) := by
  unfold filterClasses
  rw [count_one_eq_heads hbuild hcut, trackedKeys_whole, List.filterMap_reverse]
  rwa [wholeOf, List.length_map, List.length_map]

omit hbuild hcut hlen in
include hone in
theorem oneOwner_reverse : OneOwner (handleKey cfg set) Prod.fst log.reverse :=
  fun x hx y hy => hone x (List.mem_reverse.mp hx) y (List.mem_reverse.mp hy)

include hone

theorem sum_handle_heads_le :
    ∑ w, (filterClasses cfg set N (some f₀) (handleOf w log)).count 1 ≤
      (filterClasses cfg set N (some f₀) (wholeOf log)).count 1 := by
  simp only [handle_heads hbuild hcut hlen, whole_heads hbuild hcut hlen]
  exact sum_heads_share_le Finset.univ N.toNat _ (oneOwner_reverse hone) fun _ _ =>
    Finset.mem_univ _

/-- No head of the exact dictionary is lost between the handles. -/
theorem flowHeads_le_sum_handle_heads
    (hkeys : ∀ f ∈ countedFlows cfg set (wholeOf log), ∀ g ∈ countedFlows cfg set (wholeOf log),
      f.key = g.key → f = g) :
    (flowHeads N.toNat (countedFlows cfg set (wholeOf log))).2 ≤
      ∑ w, (filterClasses cfg set N (some f₀) (handleOf w log)).count 1 := by
  have hle := exactHeads_le_sum_heads Finset.univ N.toNat (slotOf (1 <<< bits - 1))
    (oneOwner_reverse hone) fun _ _ => Finset.mem_univ _
  have hexact : exactHeads N.toNat (log.reverse.filterMap (handleKey cfg set)) =
      exactHeads N.toNat (countedFlows cfg set (wholeOf log)).reverse := by
    rw [handleKeys_reverse, ← List.map_reverse]
    exact exactHeads_map N.toNat Flow.key fun f hf g hg =>
      hkeys f (List.mem_reverse.mp hf) g (List.mem_reverse.mp hg)
  simp only [handle_heads hbuild hcut hlen, flowHeads_eq, ← hexact]
  exact hle

end Totals
/-! `loop_filtered` on every handle. -/

section Calls
variable {alloc : LoopAlloc} {args : LoopArgs} {cl : Classifier} {set : Option AddrSet} {f : PyFunc}
  (hsetup : loopSetup filteredProfileError alloc args = .ok (.ok cl)) (hioc : cl.ioc = setPtr set)
  (hprofile : args.profile = 0) (hcnt : args.cnt.toInt ≤ 0)
  (hf : ∀ before call, f before call = none)
include hsetup hioc hprofile hcnt hf

theorem loopFiltered_calls (lib : Libpcap) {pp : PcapObject} {rs : List Record} {e : Ending}
    (hpcap : pp.pcap = some ⟨rs, e, false⟩) :
    ∃ o pp' made, pLoopFiltered lib alloc pp args f = .ok (o, pp', made) ∧
      ∀ k, callsOf k made =
        if Admits args.admitMask k then
          (filterClasses cl.cfg set cl.flowCutoff cl.flowtab rs).count k
        else 0 := by
  have hall : due args.cnt.toInt rs = rs := due_of_all (Or.inl hcnt)
  have hks := classes_generic hsetup hioc hprofile (due args.cnt.toInt rs)
  obtain ⟨c', rfl, hrun⟩ := loopFiltered_quiet lib alloc pp args f hpcap rfl hsetup hks
    (firstRaise_of_never hf _ _)
  refine ⟨_, _, _, hrun, fun k => ?_⟩
  have hbase : profileBase cl.cfg = 0 := by
    rw [loopSetup_base hsetup, hprofile]
    rfl
  rw [hbase, hall, callsOf_delivered _ _ (by rw [classAll_length, List.length_map])]
  rfl

end Calls

section Either
variable {n : Nat} {cfg : ClassCfg} {set : Option AddrSet} {N : UInt32} {alloc : FlowTabAlloc}
  {bits : UInt32} {flowtab : Option FlowTab}
  (htab : flowtab = none ∨
    ∃ f₀, flowtabBuild alloc bits = some f₀ ∧ flowtab = some f₀ ∧ 1 ≤ N)
include htab

theorem handle_only_adds {pre post : List (Fin n × Record)} {x : Fin n × Record}
    (hlen : pre.length < 2 ^ 32)
    (hone : OneOwner (handleKey cfg set) Prod.fst (pre ++ x :: post)) :
    OnlyAdds
      (filterClasses cfg set N flowtab
        (handleOf x.1 (pre ++ x :: post)))[(handleOf x.1 pre).length]?
      (filterClasses cfg set N flowtab (wholeOf (pre ++ x :: post)))[pre.length]? := by
  constructor
  · intro hhead
    rcases htab with rfl | ⟨f₀, hbuild, rfl, hN⟩
    · exact absurd (List.mem_of_getElem? hhead) (filterClasses_none_not_head _)
    · exact whole_head_of_handle hbuild (UInt32.pos_iff_ne_zero.mp hN) hlen hone hhead
  · have hwhole : wholeOf (pre ++ x :: post) = wholeOf pre ++ x.2 :: wholeOf post := by
      simp [wholeOf]
    have hpre : (wholeOf pre).length = pre.length := List.length_map _
    obtain ⟨_, hhandle⟩ := @filterClasses_getElem cfg set N flowtab
      (handleOf x.1 pre) x.2 (handleOf x.1 post)
    obtain ⟨_, hsingle⟩ := @filterClasses_getElem cfg set N flowtab
      (wholeOf pre) x.2 (wholeOf post)
    rw [handleOf_split, hhandle, hwhole, ← hpre, hsingle, Option.some_inj, Option.some_inj]
    exact genericStep_match_iff cfg set N N _ _ x.2.packet

theorem sum_handle_heads_le_either {log : List (Fin n × Record)} (hlen : log.length < 2 ^ 32)
    (hone : OneOwner (handleKey cfg set) Prod.fst log) :
    ∑ w, (filterClasses cfg set N flowtab (handleOf w log)).count 1 ≤
      (filterClasses cfg set N flowtab (wholeOf log)).count 1 := by
  rcases htab with rfl | ⟨f₀, hbuild, rfl, hN⟩
  · apply (Finset.sum_eq_zero fun w _ => ?_).trans_le (Nat.zero_le _)
    exact List.count_eq_zero.mpr (filterClasses_none_not_head _)
  · exact sum_handle_heads_le hbuild (UInt32.pos_iff_ne_zero.mp hN) hlen hone

end Either

/-- `n` handles of one fanout group, each filtered with the same arguments to the end of what it
is given, against a single handle: per packet and in total their heads lie between those of an
exact dictionary and those of the single handle, and the address matches are the same. -/
theorem fanout_heads (lib : Libpcap) (alloc : LoopAlloc) (args : LoopArgs) (cl : Classifier)
    (set : Option AddrSet) (f : PyFunc)
    (hsetup : loopSetup filteredProfileError alloc args = .ok (.ok cl))
    (hioc : cl.ioc = setPtr set) (hprofile : args.profile = 0) (hcnt : args.cnt.toInt ≤ 0)
    (hf : ∀ before call, f before call = none) {n : Nat} (log : List (Fin n × Record))
    (hlen : log.length < 2 ^ 32) (hstay : FlowsStay cl.cfg set log)
    (hkeys : ∀ f ∈ countedFlows cl.cfg set (wholeOf log),
      ∀ g ∈ countedFlows cl.cfg set (wholeOf log), f.key = g.key → f = g)
    (pp : PcapObject) (pps : Fin n → PcapObject) (e : Ending) (es : Fin n → Ending)
    (hpp : pp.pcap = some ⟨wholeOf log, e, false⟩)
    (hpps : ∀ w, (pps w).pcap = some ⟨handleOf w log, es w, false⟩) :
    (∃ (ks : List Nat) (ks' : Fin n → List Nat),
      (∃ flowtab, cl.classes (wholeOf log) = .ok (ks, flowtab)) ∧
      (∀ w, ∃ flowtab, cl.classes (handleOf w log) = .ok (ks' w, flowtab)) ∧
      ∀ pre x post, log = pre ++ x :: post →
        OnlyAdds (ks' x.1)[(handleOf x.1 pre).length]? ks[pre.length]? ∧
        ∀ fl, trackedFlow cl.cfg set x.2.packet = some fl → cl.flowtab.isSome →
          (countedFlows cl.cfg set (wholeOf pre)).count fl < cl.flowCutoff.toNat →
          (ks' x.1)[(handleOf x.1 pre).length]? = some 1) ∧
    ∃ (made : List CallArgs) (mades : Fin n → List CallArgs),
      (∃ o pp', pLoopFiltered lib alloc pp args f = .ok (o, pp', made)) ∧
      (∀ w, ∃ o pp', pLoopFiltered lib alloc (pps w) args f = .ok (o, pp', mades w)) ∧
      ∑ w, callsOf 2 (mades w) = callsOf 2 made ∧
      ∑ w, callsOf 1 (mades w) ≤ callsOf 1 made ∧
      (cl.flowtab.isSome → Admits args.admitMask 1 →
        (flowHeads cl.flowCutoff.toNat (countedFlows cl.cfg set (wholeOf log))).2 ≤
          ∑ w, callsOf 1 (mades w)) := by
  have hone := oneOwner_of_flows hstay hkeys
  have htab := loopSetup_flowtab hsetup
  constructor
  · have hclasses := classes_generic hsetup hioc hprofile
    refine ⟨_, _, ⟨_, hclasses (wholeOf log)⟩, fun w => ⟨_, hclasses (handleOf w log)⟩, ?_⟩
    intro pre x post hlog
    subst hlog
    have hpre : pre.length < 2 ^ 32 := by
      rw [List.length_append] at hlen
      omega
    refine ⟨handle_only_adds htab hpre hone, ?_⟩
    intro fl ht hsome hcount
    rcases htab with hnone | ⟨f₀, hbuild, htab, hN⟩
    · rw [hnone] at hsome
      cases hsome
    · rw [htab]
      have hmem : ∀ g ∈ countedFlows cl.cfg set (wholeOf pre),
          g ∈ countedFlows cl.cfg set (wholeOf (pre ++ x :: post)) := by
        intro g hg
        simp only [countedFlows, wholeOf, List.map_append, trackedFlows, List.filterMap_append]
        exact List.mem_append_left _ hg
      have hx : x ∈ pre ++ x :: post := by simp
      exact handle_head_of_count hbuild (UInt32.pos_iff_ne_zero.mp hN) hpre ht
        (fun g hg => hkeys g (hmem g hg) fl (mem_countedFlows hx ht)) hcount
  · have hcalls := @loopFiltered_calls alloc args cl set f hsetup hioc hprofile hcnt hf lib
    obtain ⟨o, pp', made, hrun, hmade⟩ := hcalls hpp
    choose os pps' mades hruns hmades using fun w => hcalls (hpps w)
    refine ⟨made, mades, ⟨o, pp', hrun⟩, fun w => ⟨os w, pps' w, hruns w⟩, ?_, ?_, ?_⟩
    · simp only [hmade, hmades]
      by_cases hm : Admits args.admitMask 2
      · simp only [if_pos hm]
        exact sum_handle_matches cl.flowtab cl.flowtab log
      · simp only [if_neg hm, Finset.sum_const_zero]
    · simp only [hmade, hmades]
      by_cases hm : Admits args.admitMask 1
      · simp only [if_pos hm]
        exact sum_handle_heads_le_either htab hlen hone
      · simp only [if_neg hm, Finset.sum_const_zero, Nat.le_refl]
    · intro hsome hm
      simp only [hmades, if_pos hm]
      rcases htab with hnone | ⟨f₀, hbuild, htab, hN⟩
      · rw [hnone] at hsome
        cases hsome
      · rw [htab]
        exact flowHeads_le_sum_handle_heads hbuild (UInt32.pos_iff_ne_zero.mp hN) hlen hone hkeys

/-- The answer to `udpRecord`, which the kernel may give to another handle. -/
def answerRecord : Record where
  hdr := ⟨1, 0, 42, 42⟩
  data := [0, 0, 0, 0, 0, 1, 0, 0, 0, 0, 0, 2, 0x08, 0x00,
    0x45, 0, 0, 28, 0, 0, 0, 0, 64, 17, 0, 0, 10, 0, 0, 2, 10, 0, 0, 1,
    0x07, 0xd0, 0x03, 0xe8, 0, 8, 0, 0]
  captured := rfl

def exchange : List (Fin 2 × Record) := [(0, udpRecord), (1, answerRecord), (0, udpRecord)]

def exchangeCfg : ClassCfg := ⟨53, mtDpiPortsDefault, mtTlsPortsDefault, 14, 0⟩

/-- Two flows, one for each handle. -/
theorem exchange_flow : ∀ x ∈ exchange, trackedFlow exchangeCfg none x.2.packet =
    some (if x.1 = 0 then flowAt udpRecord.data 14 else flowAt answerRecord.data 14) := by
  decide

theorem exchange_keys :
    (flowAt udpRecord.data 14).key ≠ (flowAt answerRecord.data 14).key := by
  decide

theorem exchange_stays : FlowsStay exchangeCfg none exchange := by
  intro x hx y hy fl hfl hfl'
  rw [exchange_flow x hx] at hfl
  rw [exchange_flow y hy, ← hfl, Option.some_inj] at hfl'
  have hkey := congrArg Flow.key hfl'
  by_cases hx0 : x.1 = 0
  · by_cases hy0 : y.1 = 0
    · exact hx0.trans hy0.symm
    · rw [if_neg hy0, if_pos hx0] at hkey
      exact absurd hkey.symm exchange_keys
  · by_cases hy0 : y.1 = 0
    · rw [if_pos hy0, if_neg hx0] at hkey
      exact absurd hkey exchange_keys
    · omega

theorem exchange_apart : ∀ f ∈ countedFlows exchangeCfg none (wholeOf exchange),
    ∀ g ∈ countedFlows exchangeCfg none (wholeOf exchange), f.key = g.key → f = g := by
  have hflows : countedFlows exchangeCfg none (wholeOf exchange) =
      [flowAt udpRecord.data 14, flowAt answerRecord.data 14, flowAt udpRecord.data 14] := by
    decide
  have hne := exchange_keys
  intro f hf g hg hkey
  rw [hflows] at hf hg
  simp only [List.mem_cons, List.not_mem_nil, or_false] at hf hg
  rcases hf with rfl | rfl | rfl <;> rcases hg with rfl | rfl | rfl <;>
    first | rfl | exact absurd hkey hne | exact absurd hkey.symm hne

theorem fanout_heads_two :
    let args : LoopArgs := { cnt := -1, flowCutoff := 1 }
    let handle : Fin 2 → PcapObject := fun w => ⟨some ⟨handleOf w exchange, .eof, false⟩, [], 0⟩
    ∃ mades : Fin 2 → List CallArgs,
      (∀ w, ∃ o pp',
        pLoopFiltered .offline {} (handle w) args (fun _ _ => none) = .ok (o, pp', mades w)) ∧
      2 ≤ ∑ w, callsOf 1 (mades w) := by
  intro args handle
  obtain ⟨-, made, mades, -, hruns, -, -, hge⟩ := fanout_heads .offline {} args _ none
    (fun _ _ => none) rfl rfl rfl (by decide) (fun _ _ => rfl) exchange (by decide) exchange_stays
    exchange_apart ⟨some ⟨wholeOf exchange, .eof, false⟩, [], 0⟩ handle .eof (fun _ => .eof) rfl
    (fun _ => rfl)
  exact ⟨mades, hruns, (by decide : 2 ≤ _).trans (hge rfl (by decide))⟩

end PcapyNg
