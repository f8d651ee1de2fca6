import PcapyNg.FlowHeads
import PcapyNg.LoopFiltered

/-!
# Starting over with a fresh flow table

Every call of `loop_filtered` builds its own table. What a fresh table has not seen can only
make a packet look newer, and so does a larger cutoff: flow heads are added and none is lost.
-/

namespace PcapyNg
open ReadLoop SlotCounter
set_option autoImplicit false

section Packets
variable (cfg : ClassCfg) (set : Option AddrSet)

theorem trackedKeys_append (xs ys : List Packet) :
    trackedKeys cfg set (xs ++ ys) = trackedKeys cfg set xs ++ trackedKeys cfg set ys := by
  rw [trackedKeys, trackedFlows, List.filterMap_append, List.map_append]
  rfl

/-- An address match needs neither table nor cutoff. -/
theorem genericStep_match_iff (N M : UInt32) (flowtab flowtab' : Option FlowTab) (p : Packet) :
    (genericStep cfg set N flowtab p).1 = 2 ↔ (genericStep cfg set M flowtab' p).1 = 2 := by
  rw [genericStep, genericStep]
  cases hhdr : header cfg.l2Off.toNat p.bytes with
  | none => rw [genericClass_not_found hhdr, genericClass_not_found hhdr]
  | some l3 =>
    rw [genericClass_found hhdr, genericClass_found hhdr, genericAt_match_iff, genericAt_match_iff]

variable {alloc : FlowTabAlloc} {bits N M : UInt32} {f₀ : FlowTab}
  (hbuild : flowtabBuild alloc bits = some f₀) (hN : 1 ≤ N) (hNM : N ≤ M)
include hbuild hN hNM

/-- A head behind `xs` is a head without them, and with a larger cutoff. -/
theorem head_of_head (xs pre : List Packet) (p : Packet) (post : List Packet)
    (hlen : xs.length + pre.length < 2 ^ 32)
    (hhead : (classAll (genericStep cfg set N) (some f₀)
      (xs ++ (pre ++ p :: post))).1[xs.length + pre.length]? = some 1) :
    (classAll (genericStep cfg set M) (some f₀) (pre ++ p :: post)).1[pre.length]? = some 1 := by
  have hNzero : N ≠ 0 := UInt32.pos_iff_ne_zero.mp hN
  have hMzero : M ≠ 0 := UInt32.pos_iff_ne_zero.mp (UInt32.le_trans hN hNM)
  rw [UInt32.le_iff_toNat_le] at hNM
  rw [← List.append_assoc, ← List.length_append] at hhead
  cases ht : trackedFlow cfg set p with
  | none => exact absurd hhead (untracked_not_head hbuild hNzero ht)
  | some fl =>
    have hrecent := (head_iff_recent hbuild hNzero post
      (by rwa [List.length_append]) ht).mp hhead
    apply (head_iff_recent hbuild hMzero post (by omega) ht).mpr
    rw [trackedKeys_append, List.reverse_append] at hrecent
    have hle := recent_le_append (slotOf (1 <<< bits - 1)) (trackedKeys cfg set pre).reverse
      (trackedKeys cfg set xs).reverse fl.key
    omega

end Packets

/-! Chunks. -/

theorem count_le_of_pointwise {as bs : List Nat} {k : Nat} (hlen : as.length = bs.length)
    (h : ∀ i : Nat, as[i]? = some k → bs[i]? = some k) : as.count k ≤ bs.count k := by
  induction as generalizing bs with
  | nil => exact Nat.zero_le _
  | cons a as ih =>
    cases bs with
    | nil => cases hlen
    | cons b bs =>
      have hrest := ih (Nat.succ.inj hlen) fun i hi => h (i + 1) hi
      have hhead : a = k → b = k := fun ha => Option.some.inj (h 0 (congrArg some ha))
      rw [List.count_cons, List.count_cons]
      simp only [beq_iff_eq]
      by_cases ha : a = k
      · rw [if_pos ha, if_pos (hhead ha)]
        omega
      · rw [if_neg ha]
        omega

/-- The flow heads among `ps`, starting with the table `flowtab`. -/
def headCount (cfg : ClassCfg) (set : Option AddrSet) (flowCutoff : UInt32)
    (flowtab : Option FlowTab) (ps : List Packet) : Nat :=
  (classAll (genericStep cfg set flowCutoff) flowtab ps).1.count 1

section Chunks
variable (cfg : ClassCfg) (set : Option AddrSet) {alloc : FlowTabAlloc} {bits N : UInt32}
  {f₀ : FlowTab} (hbuild : flowtabBuild alloc bits = some f₀) (hN : 1 ≤ N)
include hbuild hN

theorem headCount_append_le (xs ys : List Packet) (hlen : xs.length + ys.length < 2 ^ 32) :
    headCount cfg set N (some f₀) (xs ++ ys) ≤
      headCount cfg set N (some f₀) xs + headCount cfg set N (some f₀) ys := by
  have hsplit := classAll_append (genericStep cfg set N) (some f₀) xs ys
  rw [headCount, hsplit, List.count_append]
  apply Nat.add_le_add_left
  apply count_le_of_pointwise (by rw [classAll_length, classAll_length])
  intro i hi
  have hlt : i < ys.length := by
    have hsome := (List.getElem?_eq_some_iff.mp hi).1
    rwa [classAll_length] at hsome
  have hys : ys = ys.take i ++ ys[i] :: ys.drop (i + 1) := by
    rw [← List.drop_eq_getElem_cons hlt, List.take_append_drop]
  have hpre : (ys.take i).length = i := by
    rw [List.length_take]
    omega
  have hall : (classAll (genericStep cfg set N) (some f₀) (xs ++ ys)).1[xs.length + i]? = some 1 := by
    rw [hsplit, List.getElem?_append_right (by rw [classAll_length]; omega), classAll_length,
      Nat.add_sub_cancel_left]
    exact hi
  have h := head_of_head cfg set hbuild hN (UInt32.le_refl N) xs (ys.take i) ys[i]
    (ys.drop (i + 1)) (by omega)
  rw [← hys, hpre] at h
  exact h hall

/-- Cutting a sequence into chunks, each with a fresh table, never loses a head. -/
theorem headCount_flatten_le (chunks : List (List Packet)) (hlen : chunks.flatten.length < 2 ^ 32) :
    headCount cfg set N (some f₀) chunks.flatten ≤
      (chunks.map (headCount cfg set N (some f₀))).sum := by
  induction chunks with
  | nil => exact Nat.le_refl 0
  | cons chunk chunks ih =>
    rw [List.flatten_cons, List.length_append] at hlen
    rw [List.flatten_cons, List.map_cons, List.sum_cons]
    have happend := headCount_append_le cfg set hbuild hN chunk chunks.flatten hlen
    have hrest := ih (by omega)
    omega

end Chunks

theorem headCount_none (cfg : ClassCfg) (set : Option AddrSet) (N : UInt32) (ps : List Packet) :
    headCount cfg set N none ps = 0 := by
  have hstep : ∀ p, (genericStep cfg set N none p).2 = none ∧ (genericStep cfg set N none p).1 ≠ 1 := by
    intro p
    rw [genericStep]
    cases hhdr : header cfg.l2Off.toNat p.bytes with
    | none =>
      rw [genericClass_not_found hhdr]
      exact ⟨rfl, Nat.zero_ne_one⟩
    | some l3 =>
      rw [genericClass_found hhdr]
      by_cases hm : AddrMatch set p.bytes l3
      · rw [genericAt_hit _ _ hm]
        exact ⟨rfl, by decide⟩
      · rw [genericAt_tableless _ hm]
        exact ⟨rfl, Nat.zero_ne_one⟩
  exact List.count_eq_zero.mpr (tableless_run hstep ps)

/-! Calls of `loop_filtered`. -/

/-- Calls with the counts `cnts`, one after the other: what the callback was given, and the
Reader behind them. -/
def loopFilteredRun (lib : Libpcap) (alloc : LoopAlloc) (args : LoopArgs) (f : PyFunc) :
    List Int32 → PcapObject → Except Fault (List CallArgs × PcapObject)
  | [], pp => .ok ([], pp)
  | cnt :: cnts, pp => do
    let (_, pp, made) ← pLoopFiltered lib alloc pp { args with cnt } f
    let (rest, pp) ← loopFilteredRun lib alloc args f cnts pp
    return (made ++ rest, pp)

/-- The packets handed over as FLOW_HEAD. -/
def headCalls (made : List CallArgs) : Nat := made.countP fun a => a.cls = some 1

theorem headCalls_append (xs ys : List CallArgs) :
    headCalls (xs ++ ys) = headCalls xs + headCalls ys := List.countP_append

/-- The packets handed over with the class `k`. -/
def callsOf (k : Nat) (made : List CallArgs) : Nat := made.countP fun a => a.cls = some (k : Int)

theorem callsOf_delivered (mask : Int32) (k : Nat) {rs : List Record} {ks : List Nat}
    (hlen : rs.length = ks.length) :
    callsOf k (delivered mask 0 rs ks) = if Admits mask k then ks.count k else 0 := by
  induction rs generalizing ks with
  | nil =>
    cases ks with
    | nil => simp [delivered, admitted, callsOf]
    | cons j ks => cases hlen
  | cons r rs ih =>
    cases ks with
    | nil => cases hlen
    | cons j ks =>
      have hrest := ih (Nat.succ.inj hlen)
      have hone : callsOf k (delivered mask 0 [r] [j]) =
          if j = k ∧ Admits mask k then 1 else 0 := by
        by_cases hj : j = k
        · subst hj
          by_cases hm : Admits mask j <;> simp [delivered, admitted, callArgs, callsOf, hm]
        · by_cases hm : Admits mask j <;> simp [delivered, admitted, callArgs, callsOf, hm, hj]
      unfold callsOf at hrest hone ⊢
      rw [delivered_cons, List.countP_append, hrest, hone, List.count_cons]
      by_cases hm : Admits mask k
      · by_cases hj : j = k <;> simp [hm, hj, Nat.add_comm]
      · simp [hm]

theorem headCalls_delivered (mask : Int32) {rs : List Record} {ks : List Nat}
    (hlen : rs.length = ks.length) :
    headCalls (delivered mask 0 rs ks) = if Admits mask 1 then ks.count 1 else 0 :=
  callsOf_delivered mask 1 hlen

theorem headCount_prefix_le (cfg : ClassCfg) (set : Option AddrSet) (N : UInt32)
    (flowtab : Option FlowTab) (xs ys : List Packet) :
    headCount cfg set N flowtab xs ≤ headCount cfg set N flowtab (xs ++ ys) := by
  rw [headCount, headCount, classAll_append, List.count_append]
  exact Nat.le_add_right _ _

theorem classAll_map {ρ τ : Type} (cl : Option FlowTab → ρ → Nat × Option FlowTab) (g : τ → ρ)
    (flowtab : Option FlowTab) (xs : List τ) :
    classAll cl flowtab (xs.map g) = classAll (fun flowtab x => cl flowtab (g x)) flowtab xs := by
  induction xs generalizing flowtab with
  | nil => rfl
  | cons x xs ih =>
    rw [List.map_cons, classAll, classAll, ih]

theorem loopSetup_flowtab {alloc : LoopAlloc} {args : LoopArgs} {cl : Classifier}
    (h : loopSetup filteredProfileError alloc args = .ok (.ok cl)) :
    cl.flowtab = none ∨ ∃ f₀, flowtabBuild alloc.flowtab 20 = some f₀ ∧ cl.flowtab = some f₀ ∧
      1 ≤ cl.flowCutoff := by
  rw [loopSetup] at h
  cases hcfg : classCfg filteredProfileError alloc args with
  | error e =>
    rw [hcfg] at h
    cases h
  | ok cfg =>
    rw [hcfg] at h
    obtain ⟨ioc, -, h⟩ := bind_eq_ok.mp h
    cases h
    simp only
    generalize (if args.flowCutoff > 0 then args.flowCutoff.toUInt32 else 0) = cutoff
    by_cases hcut : cutoff = 0
    · exact Or.inl (if_neg (not_not.mpr hcut))
    · rw [if_pos hcut]
      cases hbuild : flowtabBuild alloc.flowtab 20 with
      | none => exact Or.inl rfl
      | some f₀ =>
        refine Or.inr ⟨f₀, rfl, rfl, ?_⟩
        rw [UInt32.le_iff_toNat_le]
        have hne : cutoff.toNat ≠ 0 := fun hzero => hcut (UInt32.toNat_inj.mp hzero)
        exact Nat.pos_of_ne_zero hne

section Calls
variable {alloc : LoopAlloc} {args : LoopArgs} {cl : Classifier} {set : Option AddrSet} {f : PyFunc}
  (hsetup : loopSetup filteredProfileError alloc args = .ok (.ok cl)) (hioc : cl.ioc = setPtr set)
  (hprofile : args.profile = 0)
include hsetup hioc hprofile

theorem classes_generic (rs : List Record) :
    cl.classes rs = .ok (classAll (genericStep cl.cfg set cl.flowCutoff) cl.flowtab
      (rs.map Record.packet)) := by
  have hcfg := loopSetup_cfg hsetup
  have hgeneric : cl.cfg.profile ≠ 1 := by
    rw [classCfg_profile hcfg, hprofile]
    decide
  rw [Classifier.classes_eq (classCfg_l2Off hcfg) hioc, classAll_map]
  congr 2
  funext flowtab r
  exact if_neg hgeneric

/-- The heads that one call hands over for the packets `rs`. -/
def headsOf (args : LoopArgs) (cl : Classifier) (set : Option AddrSet) (rs : List Record) : Nat :=
  if Admits args.admitMask 1 then
    headCount cl.cfg set cl.flowCutoff cl.flowtab (rs.map Record.packet)
  else 0

variable (hf : ∀ before call, f before call = none)
include hf

theorem loopFiltered_heads (lib : Libpcap) {pp : PcapObject} {rs : List Record} {e : Ending}
    (hpcap : pp.pcap = some ⟨rs, e, false⟩) (cnt : Int32) :
    ∃ o pp' made, pLoopFiltered lib alloc pp { args with cnt } f = .ok (o, pp', made) ∧
      pp'.pcap = some ⟨rs.drop (due cnt.toInt rs).length, e, false⟩ ∧
      headCalls made = headsOf args cl set (due cnt.toInt rs) := by
  have hks := classes_generic hsetup hioc hprofile (due cnt.toInt rs)
  obtain ⟨c', rfl, hrun⟩ := loopFiltered_quiet lib alloc pp { args with cnt } f hpcap rfl hsetup hks
    (firstRaise_of_never hf _ _)
  refine ⟨_, _, _, hrun, rfl, ?_⟩
  have hbase : profileBase cl.cfg = 0 := by
    rw [loopSetup_base hsetup, hprofile]
    rfl
  rw [hbase, headCalls_delivered _ (by rw [classAll_length, List.length_map])]
  rfl

theorem loopFilteredRun_heads (lib : Libpcap) (cnts : List Int32) {pp : PcapObject}
    {rs : List Record} {e : Ending} (hpcap : pp.pcap = some ⟨rs, e, false⟩) :
    ∃ (chunks : List (List Record)) (rest : List Record) (made : List CallArgs) (pp' : PcapObject),
      loopFilteredRun lib alloc args f cnts pp = .ok (made, pp') ∧
      pp'.pcap = some ⟨rest, e, false⟩ ∧ rs = chunks.flatten ++ rest ∧
      headCalls made = (chunks.map (headsOf args cl set)).sum := by
  induction cnts generalizing pp rs with
  | nil => exact ⟨[], rs, [], pp, rfl, hpcap, rfl, rfl⟩
  | cons cnt cnts ih =>
    obtain ⟨o, pp₁, made₁, hrun₁, hpcap₁, hheads₁⟩ :=
      loopFiltered_heads hsetup hioc hprofile hf lib hpcap cnt
    obtain ⟨chunks, rest, made₂, pp₂, hrun₂, hpcap₂, hsplit, hheads₂⟩ := ih hpcap₁
    refine ⟨due cnt.toInt rs :: chunks, rest, made₁ ++ made₂, pp₂, ?_, hpcap₂, ?_, ?_⟩
    · rw [loopFilteredRun, hrun₁]
      simp only [bind, Except.bind, hrun₂]
      rfl
    · rw [List.flatten_cons, List.append_assoc, ← hsplit, due_prefix]
    · rw [headCalls_append, hheads₁, hheads₂, List.map_cons, List.sum_cons]

/-- Calls that come to the end of a capture hand over no fewer heads than one call. -/
theorem chunked_heads_le (lib : Libpcap) {pp : PcapObject} {rs : List Record} {e : Ending}
    (hpcap : pp.pcap = some ⟨rs, e, false⟩) (hlen : rs.length < 2 ^ 32) (cnt : Int32)
    (cnts : List Int32) :
    ∃ o pp₁ made made' pp₂, pLoopFiltered lib alloc pp { args with cnt } f = .ok (o, pp₁, made) ∧
      loopFilteredRun lib alloc args f cnts pp = .ok (made', pp₂) ∧
      (pp₂.pcap = some ⟨[], e, false⟩ → headCalls made ≤ headCalls made') := by
  obtain ⟨o, pp₁, made, hone, -, hheads⟩ :=
    loopFiltered_heads hsetup hioc hprofile hf lib hpcap cnt
  obtain ⟨chunks, rest, made', pp₂, hrun, hpcap₂, hsplit, hheads'⟩ :=
    loopFilteredRun_heads hsetup hioc hprofile hf lib cnts hpcap
  refine ⟨o, pp₁, made, made', pp₂, hone, hrun, ?_⟩
  intro hend
  rw [hpcap₂] at hend
  cases hend
  rw [List.append_nil] at hsplit
  rw [hheads, hheads']
  unfold headsOf
  by_cases hm : Admits args.admitMask 1
  · simp only [if_pos hm]
    have hprefix := headCount_prefix_le cl.cfg set cl.flowCutoff cl.flowtab
      ((due cnt.toInt rs).map Record.packet) ((rs.drop (due cnt.toInt rs).length).map Record.packet)
    rw [← List.map_append, due_prefix] at hprefix
    apply hprefix.trans
    rcases loopSetup_flowtab hsetup with hnone | ⟨f₀, hbuild, hsome, hcut⟩
    · rw [hnone, headCount_none]
      exact Nat.zero_le _
    · have hflat := headCount_flatten_le cl.cfg set hbuild hcut
        (chunks.map (List.map Record.packet)) (by
          rw [← List.map_flatten, List.length_map, ← hsplit]
          exact hlen)
      rw [← List.map_flatten, ← hsplit, List.map_map] at hflat
      rw [hsome]
      exact hflat
  · simp only [if_neg hm]
    exact Nat.zero_le _

end Calls

/-- `loop_filtered` of the generic profile on the address set `set`, with a callback that does
not raise: calls with the counts `cnts` that come to the end of the capture hand over no fewer
flow heads than one call. -/
def ChunksKeepHeads (set : Option AddrSet) : Prop :=
  ∀ (lib : Libpcap) (alloc : LoopAlloc) (args : LoopArgs) (cl : Classifier) (f : PyFunc)
    (pp : PcapObject) (rs : List Record) (e : Ending) (cnt : Int32) (cnts : List Int32),
    loopSetup filteredProfileError alloc args = .ok (.ok cl) → cl.ioc = setPtr set →
    args.profile = 0 → (∀ before call, f before call = none) →
    pp.pcap = some ⟨rs, e, false⟩ → rs.length < 2 ^ 32 →
    ∃ o pp₁ made made' pp₂, pLoopFiltered lib alloc pp { args with cnt } f = .ok (o, pp₁, made) ∧
      loopFilteredRun lib alloc args f cnts pp = .ok (made', pp₂) ∧
      (pp₂.pcap = some ⟨[], e, false⟩ → headCalls made ≤ headCalls made')

/-- The class of a packet of `ys` behind `xs` in one run, and in a run of its own. -/
structure OnlyAdds (behind alone : Option Nat) : Prop where
  head : behind = some 1 → alone = some 1
  setMatch : behind = some 2 ↔ alone = some 2

/-- A fresh table and a larger cutoff only add flow heads; address matches do not change. -/
theorem restart_only_adds_heads (cfg : ClassCfg) (hoff : cfg.l2Off.toNat ≤ 64)
    (set : Option AddrSet) (alloc : FlowTabAlloc) (bits : UInt32) (f₀ : FlowTab)
    (hbuild : flowtabBuild alloc bits = some f₀) (N M : UInt32) (hN : 1 ≤ N) (hNM : N ≤ M)
    (xs ys : List Packet) (hlen : xs.length + ys.length < 2 ^ 32) :
    (∃ ks ls flowtab flowtab',
      classifyAll (fun flowtab p =>
          classifyGeneric cfg (setPtr set) flowtab N p.bytes p.caplen) (some f₀) (xs ++ ys) =
        .ok (ks, flowtab) ∧
      classifyAll (fun flowtab p =>
          classifyGeneric cfg (setPtr set) flowtab M p.bytes p.caplen) (some f₀) ys =
        .ok (ls, flowtab') ∧
      ∀ pre p post, ys = pre ++ p :: post →
        OnlyAdds ks[xs.length + pre.length]? ls[pre.length]?) ∧
    ChunksKeepHeads set := by
  constructor
  · refine ⟨_, _, _, _,
      classifyAll_eq (fun flowtab p => classifyGeneric_eq cfg hoff set flowtab N p) (some f₀) _,
      classifyAll_eq (fun flowtab p => classifyGeneric_eq cfg hoff set flowtab M p) (some f₀) _, ?_⟩
    intro pre p post hys
    subst hys
    rw [List.length_append] at hlen
    constructor
    · exact head_of_head cfg set hbuild hN hNM xs pre p post (by omega)
    · rw [← List.append_assoc, ← List.length_append, classAll_getElem, classAll_getElem,
        Option.some_inj, Option.some_inj]
      exact genericStep_match_iff cfg set N M _ _ p
  · intro lib lalloc args cl f pp rs e cnt cnts hsetup hioc hprofile hf hpcap hfew
    exact chunked_heads_le hsetup hioc hprofile hf lib hpcap hfew cnt cnts

/-- The second packet of a flow is no head with cutoff 1, but one behind a restart. -/
theorem restart_only_adds_heads_udp :
    (∃ ks ls flowtab flowtab',
      classifyAll (fun flowtab p =>
          classifyGeneric ⟨53, [], [], 14, 0⟩ none flowtab 1 p.bytes p.caplen)
        (some ⟨fun _ => 0, fun _ => 0, 15⟩) ([udpPacket] ++ [udpPacket]) = .ok (ks, flowtab) ∧
      classifyAll (fun flowtab p =>
          classifyGeneric ⟨53, [], [], 14, 0⟩ none flowtab 2 p.bytes p.caplen)
        (some ⟨fun _ => 0, fun _ => 0, 15⟩) [udpPacket] = .ok (ls, flowtab') ∧
      ∀ pre p post, [udpPacket] = pre ++ p :: post →
        OnlyAdds ks[[udpPacket].length + pre.length]? ls[pre.length]?) ∧
    ChunksKeepHeads none :=
  restart_only_adds_heads ⟨53, [], [], 14, 0⟩ (by decide) none {} 4 _ rfl 1 2 (by decide) (by decide)
    [udpPacket] [udpPacket] (by decide)

end PcapyNg
