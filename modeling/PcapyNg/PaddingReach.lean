import PcapyNg.Padding

/-!
# Which padded frames keep their class

A frame is decided by the rule that applies to it: an address in the set, a port, a flag, a
payload, a count in the flow table, or none. Each rule reads the frame up to some byte. Padding
goes unnoticed exactly if the rule that decides the padded frame reads nothing of the padding,
wherever the header search has found a header. Where it has found the datagram, that leaves the
empty segment on a watched port.
-/

namespace PcapyNg
set_option autoImplicit false

/-! What the unpadded frame has of the padded one. -/

theorem headerFrom_ge {p : Bytes} {tags n l3 : Nat} (h : headerFrom p tags n = some l3) : n ≤ l3 := by
  induction tags generalizing n with
  | zero =>
    rw [headerFrom] at h
    split at h
    · cases h
    split at h
    · cases h
      exact Nat.le_refl _
    · cases h
  | succ tags ih =>
    rw [headerFrom] at h
    split at h
    · cases h
    split at h
    · cases h
      exact Nat.le_refl _
    split at h
    · exact (Nat.le_add_right n 4).trans (ih h)
    · cases h

/-- A header in front of the padding is found without it. -/
theorem headerFrom_unpad {p pad : Bytes} {tags n l3 : Nat}
    (h : headerFrom (p ++ pad) tags n = some l3) (hlen : l3 + 20 ≤ p.length) :
    headerFrom p tags n = some l3 := by
  induction tags generalizing n with
  | zero =>
    rw [headerFrom] at h
    split at h
    · cases h
    split at h
    · rename_i hv
      cases h
      apply headerFrom_found (by omega)
      rwa [byteAt_append_left (by omega)] at hv
    · cases h
  | succ tags ih =>
    rw [headerFrom] at h
    split at h
    · cases h
    split at h
    · rename_i hv
      cases h
      apply headerFrom_found (by omega)
      rwa [byteAt_append_left (by omega)] at hv
    rename_i hv
    split at h
    · rename_i htag
      have hfront : n + 4 ≤ l3 := headerFrom_ge h
      have htpid := htag.2
      rw [byteAt_append_left (by omega)] at hv
      rw [vlanTpidBefore, byteAt_append_left (by omega), byteAt_append_left (by omega)] at htpid
      rw [headerFrom_skip (by omega) hv htag.1 htpid]
      exact ih h
    · cases h

section Within
variable {p : Bytes} (pad : Bytes) {l3 : Nat} (h : l3 + 20 ≤ p.length)
include h

theorem hasPorts_within :
    HasPorts p l3 ↔ HasPorts (p ++ pad) l3 ∧ l4At (p ++ pad) l3 + 4 ≤ p.length := by
  constructor
  · intro hports
    refine ⟨hasPorts_append pad h hports, ?_⟩
    rw [l4At_append pad h]
    exact hports.2.2
  · rintro ⟨⟨hproto, hihl, -⟩, hlen⟩
    rw [protoAt_append pad h] at hproto
    rw [ihlAt, byteAt_append_left (by omega)] at hihl
    rw [l4At_append pad h] at hlen
    exact ⟨hproto, hihl, hlen⟩

theorem hasFlags_within :
    HasFlags p l3 ↔ HasFlags (p ++ pad) l3 ∧ l4At (p ++ pad) l3 + 14 ≤ p.length := by
  constructor
  · intro hflags
    refine ⟨hasFlags_append pad h hflags, ?_⟩
    rw [l4At_append pad h]
    exact hflags.2
  · rintro ⟨⟨hproto, -⟩, hlen⟩
    rw [protoAt_append pad h] at hproto
    rw [l4At_append pad h] at hlen
    exact ⟨hproto, hlen⟩

theorem isHttp_within (cfg : ClassCfg) (hports : HasPorts p l3) (hflags : HasFlags p l3) :
    IsHttp cfg p l3 ↔ IsHttp cfg (p ++ pad) l3 ∧
      l4At (p ++ pad) l3 + tcpHlAt (p ++ pad) l3 < p.length := by
  obtain ⟨hs, hd⟩ := ports_append pad h hports
  simp only [IsHttp, hs, hd, tcpHlAt_append pad h hflags, l4At_append pad h, List.length_append]
  constructor
  · rintro ⟨hhl, hpay, hport⟩
    exact ⟨⟨hhl, by omega, hport⟩, hpay⟩
  · rintro ⟨⟨hhl, -, hport⟩, hpay⟩
    exact ⟨hhl, hpay, hport⟩

end Within

/-! The rule that decides a frame. -/

/-- What decides the frame; `counted` asks the flow table, `other` is left when nothing applies. -/
inductive Rule where
  | dns
  | syn
  | http
  | addr
  | counted
  | other
  deriving DecidableEq

/-- How far into the frame a rule reads that applies to the header at `l3`. -/
def Rule.reach (p : Bytes) (l3 : Nat) : Rule → Nat
  | .dns => l4At p l3 + 4
  | .syn => l4At p l3 + 14
  | .http => l4At p l3 + tcpHlAt p l3 + 1
  | .addr => l3 + 20
  | .counted => l4At p l3 + 4
  | .other => 0

def genericRule (set : Option AddrSet) (flowtab : Option FlowTab) (flowCutoff : UInt32) (p : Bytes)
    (l3 : Nat) : Rule :=
  if AddrMatch set p l3 then .addr
  else if flowtab.isSome ∧ flowCutoff ≠ 0 ∧ HasPorts p l3 then .counted
  else .other

/-- The rule of `mt_classify`; `other` where its class is 2. -/
def transportRule (cfg : ClassCfg) (p : Bytes) (l3 : Nat) : Rule :=
  if HasPorts p l3 then
    if IsDns cfg p l3 then .dns
    else if HasFlags p l3 then
      if IsSyn p l3 then .syn else if IsHttp cfg p l3 then .http else .other
    else .other
  else .other

def refineRule (cfg : ClassCfg) (set : Option AddrSet) (flowtab : Option FlowTab) (p : Bytes)
    (l3 : Nat) : Rule :=
  if transportRule cfg p l3 ≠ .other then transportRule cfg p l3
  else if AddrMatch set p l3 then .addr
  else if flowtab.isSome ∧ HasPorts p l3 ∧ mtIsTlsPort cfg (sportAt p l3) (dportAt p l3) then .counted
  else .other

/-- The verdict of a rule: its class, and for a counted packet the class of a head or of the
others, by what `flow_seen` says. -/
def Rule.verdict (cls : Rule → Nat) (head : Nat) (flowtab : Option FlowTab) (flowCutoff : UInt32)
    (key : UInt64) : Rule → Nat × Option FlowTab
  | .counted => match flowtab with
    | none => (cls .other, none)
    | some f => (if (flowSeen f key).1 < flowCutoff then head else cls .other, some (flowSeen f key).2)
  | r => (cls r, flowtab)

def genericIndex : Rule → Nat
  | .addr => 2
  | _ => 0

def refineIndex : Rule → Nat
  | .dns => 0
  | .http => 1
  | .addr => 3
  | .syn => 5
  | _ => 2

section Verdict
variable {cls : Rule → Nat} {head : Nat} {flowtab : Option FlowTab} {flowCutoff : UInt32}
  {key key' : UInt64} {r r' : Rule}

theorem Rule.verdict_uncounted (hr : r ≠ .counted) :
    r.verdict cls head flowtab flowCutoff key = (cls r, flowtab) := by
  cases r <;> first | rfl | exact absurd rfl hr

/-- A rule that asks the table leaves another table than one that does not. -/
theorem Rule.verdict_counted (htab : flowtab.isSome) :
    (Rule.counted.verdict cls head flowtab flowCutoff key).2 ≠ flowtab := by
  obtain ⟨f, rfl⟩ := Option.isSome_iff_exists.mp htab
  exact fun h => flowSeen_ne f key (Option.some.inj h)

/-- Two rules of different classes give different verdicts. -/
theorem Rule.verdict_eq_iff (hcls : r ≠ .counted → r' ≠ .counted → cls r = cls r' → r = r')
    (hr : r = .counted → flowtab.isSome) (hr' : r' = .counted → flowtab.isSome)
    (hkey : r = .counted → key = key') :
    r.verdict cls head flowtab flowCutoff key = r'.verdict cls head flowtab flowCutoff key' ↔
      r = r' := by
  constructor
  · intro heq
    by_cases hc : r = .counted
    · by_cases hc' : r' = .counted
      · rw [hc, hc']
      · subst r
        rw [Rule.verdict_uncounted hc'] at heq
        exact absurd (congrArg Prod.snd heq) (Rule.verdict_counted (hr rfl))
    · by_cases hc' : r' = .counted
      · subst r'
        rw [Rule.verdict_uncounted hc] at heq
        exact absurd (congrArg Prod.snd heq.symm) (Rule.verdict_counted (hr' rfl))
      · rw [Rule.verdict_uncounted hc, Rule.verdict_uncounted hc'] at heq
        exact hcls hc hc' (congrArg Prod.fst heq)
  · rintro rfl
    by_cases hc : r = .counted
    · rw [hkey hc]
    · rw [Rule.verdict_uncounted hc, Rule.verdict_uncounted hc]

end Verdict

section Decided
variable (cfg : ClassCfg) (set : Option AddrSet) (flowtab : Option FlowTab) (flowCutoff : UInt32)
  (p : Bytes) (l3 : Nat)

theorem genericAt_eq_verdict : genericAt set flowtab flowCutoff p l3 =
    (genericRule set flowtab flowCutoff p l3).verdict genericIndex 1 flowtab flowCutoff
      (flowAt p l3).key := by
  unfold genericAt genericRule
  cases flowtab with
  | none => split_ifs <;> simp_all [Rule.verdict, genericIndex]
  | some f => split_ifs <;> simp_all [Rule.verdict, genericIndex]

theorem transportClass_eq_index :
    transportClass cfg p l3 = refineIndex (transportRule cfg p l3) := by
  unfold transportClass transportRule
  split_ifs <;> rfl

theorem transportRule_other_iff : transportRule cfg p l3 = .other ↔ transportClass cfg p l3 = 2 := by
  unfold transportClass transportRule
  split_ifs <;> simp

theorem transportRule_range :
    transportRule cfg p l3 ≠ .addr ∧ transportRule cfg p l3 ≠ .counted := by
  unfold transportRule
  split_ifs <;> exact ⟨nofun, nofun⟩

/-- The rules of `mt_classify` read the ports and what lies in front of them. -/
theorem transportRule_reach (h : transportRule cfg p l3 ≠ .other) :
    HasPorts p l3 ∧ l3 + 20 ≤ l4At p l3 ∧
      l4At p l3 + 4 ≤ (transportRule cfg p l3).reach p l3 := by
  unfold transportRule at h ⊢
  by_cases hports : HasPorts p l3
  · have hihl := hports.2.1
    refine ⟨hports, Nat.add_le_add_left hihl l3, ?_⟩
    rw [if_pos hports] at h ⊢
    split_ifs at h ⊢ with hd hf hs hw
    · exact Nat.le_refl _
    · exact Nat.add_le_add_left (by decide) _
    · have hhl := hw.1
      simp only [Rule.reach]
      omega
    · exact absurd rfl h
    · exact absurd rfl h
  · rw [if_neg hports] at h
    exact absurd rfl h

theorem refineAt_eq_verdict : refineAt cfg set flowtab flowCutoff p l3 =
    (refineRule cfg set flowtab p l3).verdict refineIndex 4 flowtab flowCutoff
      (flowAt p l3).key := by
  unfold refineAt refineRule
  by_cases hcls : transportClass cfg p l3 = 2
  · have hrule := (transportRule_other_iff cfg p l3).mpr hcls
    rw [if_neg (not_not.mpr hcls), if_neg (not_not.mpr hrule)]
    cases flowtab with
    | none => split_ifs <;> simp_all [Rule.verdict, refineIndex]
    | some f => split_ifs <;> simp_all [Rule.verdict, refineIndex]
  · have hrule : transportRule cfg p l3 ≠ .other := fun h =>
      hcls ((transportRule_other_iff cfg p l3).mp h)
    rw [if_pos hcls, if_pos hrule, Rule.verdict_uncounted (transportRule_range cfg p l3).2,
      transportClass_eq_index]

end Decided

/-! The unpadded frame is decided by the same rule exactly if the rule reads none of the padding. -/

section Unpadded
variable {p : Bytes} (pad : Bytes) {l3 : Nat} (h : l3 + 20 ≤ p.length)
include h

theorem genericRule_within (set : Option AddrSet) (flowtab : Option FlowTab) (flowCutoff : UInt32) :
    genericRule set flowtab flowCutoff p l3 = genericRule set flowtab flowCutoff (p ++ pad) l3 ↔
      (genericRule set flowtab flowCutoff (p ++ pad) l3).reach (p ++ pad) l3 ≤ p.length := by
  have hports := hasPorts_within pad h
  unfold genericRule
  by_cases hm : AddrMatch set p l3
  · rw [if_pos hm, if_pos ((addrMatch_append pad h set).mpr hm)]
    exact iff_of_true rfl h
  rw [if_neg hm, if_neg fun hm' => hm ((addrMatch_append pad h set).mp hm')]
  by_cases hq : flowtab.isSome ∧ flowCutoff ≠ 0 ∧ HasPorts (p ++ pad) l3
  · rw [if_pos hq]
    by_cases hreach : l4At (p ++ pad) l3 + 4 ≤ p.length
    · rw [if_pos ⟨hq.1, hq.2.1, hports.mpr ⟨hq.2.2, hreach⟩⟩]
      exact iff_of_true rfl hreach
    · rw [if_neg fun hp => hreach (hports.mp hp.2.2).2]
      exact iff_of_false nofun hreach
  · rw [if_neg hq, if_neg fun hp => hq ⟨hp.1, hp.2.1, (hports.mp hp.2.2).1⟩]
    exact iff_of_true rfl (Nat.zero_le _)

/-- A rule of `mt_classify` that reads padding leaves nothing that applies without it. -/
theorem transportRule_within (cfg : ClassCfg) :
    transportRule cfg p l3 =
      if (transportRule cfg (p ++ pad) l3).reach (p ++ pad) l3 ≤ p.length then
        transportRule cfg (p ++ pad) l3
      else .other := by
  have hports := hasPorts_within pad h
  have hflags := hasFlags_within pad h
  by_cases hp : HasPorts p l3
  · have hq := (hports.mp hp).1
    have hdns := isDns_append pad h hp cfg
    unfold transportRule
    rw [if_pos hp, if_pos hq]
    by_cases hd : IsDns cfg p l3
    · rw [if_pos hd, if_pos (hdns.mpr hd)]
      exact (if_pos (hports.mp hp).2).symm
    rw [if_neg hd, if_neg fun hd' => hd (hdns.mp hd')]
    by_cases hf : HasFlags p l3
    · have hsyn := isSyn_append pad h hf
      have hhttp := isHttp_within pad h cfg hp hf
      rw [if_pos hf, if_pos (hflags.mp hf).1]
      by_cases hs : IsSyn p l3
      · rw [if_pos hs, if_pos (hsyn.mpr hs)]
        exact (if_pos (hflags.mp hf).2).symm
      rw [if_neg hs, if_neg fun hs' => hs (hsyn.mp hs')]
      by_cases hw : IsHttp cfg (p ++ pad) l3
      · rw [if_pos hw]
        by_cases hpay : l4At (p ++ pad) l3 + tcpHlAt (p ++ pad) l3 < p.length
        · rw [if_pos (hhttp.mpr ⟨hw, hpay⟩)]
          exact (if_pos hpay).symm
        · rw [if_neg fun hw' => hpay (hhttp.mp hw').2]
          exact (if_neg hpay).symm
      · rw [if_neg hw, if_neg fun hw' => hw (hhttp.mp hw').1, ite_self]
    · rw [if_neg hf]
      by_cases hf' : HasFlags (p ++ pad) l3
      · have hshort : ¬ l4At (p ++ pad) l3 + 14 ≤ p.length := fun hl => hf (hflags.mpr ⟨hf', hl⟩)
        rw [if_pos hf']
        by_cases hs : IsSyn (p ++ pad) l3
        · rw [if_pos hs]
          exact (if_neg hshort).symm
        rw [if_neg hs]
        by_cases hw : IsHttp cfg (p ++ pad) l3
        · have hhl := hw.1
          rw [if_pos hw, if_neg (by simp only [Rule.reach]; omega)]
        · rw [if_neg hw, ite_self]
      · rw [if_neg hf', ite_self]
  · have hnone : transportRule cfg p l3 = .other := if_neg hp
    refine hnone.trans ?_
    by_cases ht : transportRule cfg (p ++ pad) l3 = .other
    · rw [ht, ite_self]
    · obtain ⟨hq, -, hreach⟩ := transportRule_reach cfg (p ++ pad) l3 ht
      exact (if_neg fun hl => hp (hports.mpr ⟨hq, hreach.trans hl⟩)).symm

theorem refineRule_within (cfg : ClassCfg) (set : Option AddrSet) (flowtab : Option FlowTab) :
    refineRule cfg set flowtab p l3 = refineRule cfg set flowtab (p ++ pad) l3 ↔
      (refineRule cfg set flowtab (p ++ pad) l3).reach (p ++ pad) l3 ≤ p.length := by
  have hports := hasPorts_within pad h
  have hrule := transportRule_within pad h cfg
  obtain ⟨haddr, hcounted⟩ := transportRule_range cfg (p ++ pad) l3
  unfold refineRule
  by_cases ht : transportRule cfg (p ++ pad) l3 = .other
  · rw [ht, ite_self] at hrule
    rw [if_neg (not_not.mpr hrule), if_neg (not_not.mpr ht)]
    by_cases hm : AddrMatch set p l3
    · rw [if_pos hm, if_pos ((addrMatch_append pad h set).mpr hm)]
      exact iff_of_true rfl h
    rw [if_neg hm, if_neg fun hm' => hm ((addrMatch_append pad h set).mp hm')]
    by_cases hp : HasPorts p l3
    · obtain ⟨hs, hd⟩ := ports_append pad h hp
      obtain ⟨hq, hreach⟩ := hports.mp hp
      rw [hs, hd]
      by_cases htls : flowtab.isSome ∧ mtIsTlsPort cfg (sportAt p l3) (dportAt p l3)
      · rw [if_pos ⟨htls.1, hp, htls.2⟩, if_pos ⟨htls.1, hq, htls.2⟩]
        exact iff_of_true rfl hreach
      · rw [if_neg fun hc => htls ⟨hc.1, hc.2.2⟩, if_neg fun hc => htls ⟨hc.1, hc.2.2⟩]
        exact iff_of_true rfl (Nat.zero_le _)
    · rw [if_neg fun hc => hp hc.2.1]
      by_cases hc : flowtab.isSome ∧ HasPorts (p ++ pad) l3 ∧
          mtIsTlsPort cfg (sportAt (p ++ pad) l3) (dportAt (p ++ pad) l3)
      · rw [if_pos hc]
        exact iff_of_false nofun fun hreach => hp (hports.mpr ⟨hc.2.1, hreach⟩)
      · rw [if_neg hc]
        exact iff_of_true rfl (Nat.zero_le _)
  · rw [if_pos ht]
    by_cases hreach : (transportRule cfg (p ++ pad) l3).reach (p ++ pad) l3 ≤ p.length
    · rw [if_pos hreach] at hrule
      rw [hrule, if_pos ht]
      exact iff_of_true rfl hreach
    · rw [if_neg hreach] at hrule
      rw [if_neg (not_not.mpr hrule)]
      refine iff_of_false (fun heq => ?_) hreach
      split at heq
      · exact haddr heq.symm
      split at heq
      · exact hcounted heq.symm
      · exact ht heq.symm

end Unpadded

/-! Whole frames. -/

/-- What makes `rule`, one of `rules`, decide a frame with the classes `cls`. -/
structure Decides (rules : List Rule) (rule : Bytes → Nat → Rule) (cls : Rule → Nat)
    (flowtab : Option FlowTab) : Prop where
  among : ∀ p l3, rule p l3 ∈ rules
  other : .other ∈ rules
  distinct : ∀ r ∈ rules, ∀ r' ∈ rules, r ≠ .counted → r' ≠ .counted → cls r = cls r' → r = r'
  counted : ∀ p l3, rule p l3 = .counted → flowtab.isSome ∧ HasPorts p l3
  reach : ∀ p l3, rule p l3 ≠ .other → l3 + 20 ≤ (rule p l3).reach p l3
  within : ∀ p pad l3, l3 + 20 ≤ p.length →
    (rule p l3 = rule (p ++ pad) l3 ↔ (rule (p ++ pad) l3).reach (p ++ pad) l3 ≤ p.length)

/-- The verdict on a frame: that of the rule at its header, or of `other` where there is none. -/
def verdictOn (rule : Bytes → Nat → Rule) (cls : Rule → Nat) (head : Nat)
    (flowtab : Option FlowTab) (flowCutoff : UInt32) (l2 : Nat) (p : Bytes) :
    Nat × Option FlowTab :=
  match header l2 p with
  | none => Rule.other.verdict cls head flowtab flowCutoff 0
  | some l3 => (rule p l3).verdict cls head flowtab flowCutoff (flowAt p l3).key

section Frames
variable {rules : List Rule} {rule : Bytes → Nat → Rule} {cls : Rule → Nat} {head : Nat}
  {flowtab : Option FlowTab} {flowCutoff : UInt32} {l2 : Nat}

/-- The frames on which padding goes unnoticed. -/
theorem Decides.unpadded_iff (hr : Decides rules rule cls flowtab) (p pad : Bytes) :
    verdictOn rule cls head flowtab flowCutoff l2 (p ++ pad) =
        verdictOn rule cls head flowtab flowCutoff l2 p ↔
      ∀ l3, header l2 (p ++ pad) = some l3 →
        (rule (p ++ pad) l3).reach (p ++ pad) l3 ≤ p.length := by
  unfold verdictOn
  cases hhdr : header l2 (p ++ pad) with
  | none =>
    have hnone : header l2 p = none := by
      cases hp : header l2 p with
      | none => rfl
      | some l3 => exact absurd (hhdr.symm.trans (headerFrom_append pad hp)) nofun
    rw [hnone]
    exact iff_of_true rfl nofun
  | some l3 =>
    simp only [Option.some.injEq, forall_eq']
    have hcounted := fun x hx => (hr.counted x l3 hx).1
    by_cases hlen : l3 + 20 ≤ p.length
    · have hp : header l2 p = some l3 := headerFrom_unpad hhdr hlen
      have hkey : rule p l3 = .counted → (flowAt p l3).key = (flowAt (p ++ pad) l3).key := by
        intro hc
        rw [flowAt_append pad hlen (hr.counted p l3 hc).2]
      rw [hp, ← hr.within p pad l3 hlen]
      exact eq_comm.trans (Rule.verdict_eq_iff (hr.distinct _ (hr.among _ _) _ (hr.among _ _))
        (hcounted p) (hcounted (p ++ pad)) hkey)
    · -- the search has gone through padding, so nothing is found without it
      have hp : header l2 p = none := by
        cases hp : header l2 p with
        | none => rfl
        | some l3' =>
          have hsame := hhdr.symm.trans (headerFrom_append pad hp)
          rw [Option.some_inj.mp hsame] at hlen
          exact absurd (headerFrom_some hp).2.1 hlen
      rw [hp]
      refine (eq_comm.trans (Rule.verdict_eq_iff (hr.distinct _ hr.other _ (hr.among _ _))
        nofun (hcounted (p ++ pad)) nofun)).trans ?_
      constructor
      · intro hother
        rw [← hother]
        exact Nat.zero_le _
      · intro hreach
        by_contra hne
        have hfar := hr.reach (p ++ pad) l3 (Ne.symm hne)
        omega

end Frames

section Decided
variable (cfg : ClassCfg) (set : Option AddrSet) (flowtab : Option FlowTab) (flowCutoff : UInt32)

theorem genericRule_decides : Decides [.addr, .counted, .other]
    (genericRule set flowtab flowCutoff) genericIndex flowtab where
  among p l3 := by
    unfold genericRule
    split_ifs <;> decide
  other := by decide
  distinct := by decide
  counted p l3 hc := by
    unfold genericRule at hc
    split_ifs at hc with _ h
    exact ⟨h.1, h.2.2⟩
  reach p l3 hne := by
    unfold genericRule at hne ⊢
    split_ifs at hne ⊢ with _ h
    · exact Nat.le_refl _
    · have hihl := h.2.2.2.1
      simp only [Rule.reach, l4At]
      omega
    · exact absurd rfl hne
  within p pad l3 hlen := genericRule_within pad hlen set flowtab flowCutoff

theorem refineRule_decides : Decides [.dns, .syn, .http, .addr, .counted, .other]
    (refineRule cfg set flowtab) refineIndex flowtab where
  among p l3 := by cases refineRule cfg set flowtab p l3 <;> decide
  other := by decide
  distinct := by decide
  counted p l3 hc := by
    unfold refineRule at hc
    split_ifs at hc with _ _ h
    · exact absurd hc (transportRule_range cfg p l3).2
    · exact ⟨h.1, h.2.1⟩
  reach p l3 hne := by
    unfold refineRule at hne ⊢
    split_ifs at hne ⊢ with ht _ h
    · have hreach := transportRule_reach cfg p l3 ht
      omega
    · exact Nat.le_refl _
    · have hihl := h.2.1.2.1
      simp only [Rule.reach, l4At]
      omega
    · exact absurd rfl hne
  within p pad l3 hlen := refineRule_within pad hlen cfg set flowtab

theorem genericClass_eq_verdict (p : Bytes) : genericClass cfg set flowtab flowCutoff p =
    verdictOn (genericRule set flowtab flowCutoff) genericIndex 1 flowtab flowCutoff
      cfg.l2Off.toNat p := by
  unfold genericClass verdictOn
  cases header cfg.l2Off.toNat p with
  | none => rfl
  | some l3 => exact genericAt_eq_verdict set flowtab flowCutoff p l3

theorem refineClass_eq_verdict (p : Bytes) : refineClass cfg set flowtab flowCutoff p =
    verdictOn (refineRule cfg set flowtab) refineIndex 4 flowtab flowCutoff cfg.l2Off.toNat p := by
  unfold refineClass verdictOn
  cases header cfg.l2Off.toNat p with
  | none => rfl
  | some l3 => exact refineAt_eq_verdict cfg set flowtab flowCutoff p l3

end Decided

/-! Frames that hold a complete datagram. -/

/-- Both classifiers decide the frame by rules that read its first `n` bytes only. -/
def DecidedWithin (cfg : ClassCfg) (set : Option AddrSet) (flowtab : Option FlowTab)
    (flowCutoff : UInt32) (p : Bytes) (l3 n : Nat) : Prop :=
  (genericRule set flowtab flowCutoff p l3).reach p l3 ≤ n ∧
    (refineRule cfg set flowtab p l3).reach p l3 ≤ n

/-- The HTTP rule applies to the header at `l3`. -/
def HttpApplies (cfg : ClassCfg) (p : Bytes) (l3 : Nat) : Prop :=
  HasPorts p l3 ∧ ¬ IsDns cfg p l3 ∧ HasFlags p l3 ∧ ¬ IsSyn p l3 ∧ IsHttp cfg p l3

theorem httpApplies_iff (cfg : ClassCfg) (p : Bytes) (l3 : Nat) :
    HttpApplies cfg p l3 ↔ transportClass cfg p l3 = 1 := by
  unfold HttpApplies transportClass
  split_ifs <;> simp_all

section Verdicts
variable (cfg : ClassCfg) (hoff : cfg.l2Off.toNat ≤ 64) (set : Option AddrSet)
  (flowtab : Option FlowTab) (flowCutoff : UInt32) {p q : Packet} {pad : Bytes}
  (hq : q.bytes = p.bytes ++ pad)
include hoff

include hq in
/-- Any frame: padding goes unnoticed if and only if no rule that decides reads it. -/
theorem paddingInvisible_iff : PaddingInvisible cfg set flowtab flowCutoff p q ↔
    ∀ l3, header cfg.l2Off.toNat q.bytes = some l3 →
      DecidedWithin cfg set flowtab flowCutoff q.bytes l3 p.bytes.length := by
  have hgeneric := @Decides.unpadded_iff _ _ _ 1 _ flowCutoff cfg.l2Off.toNat
    (genericRule_decides set flowtab flowCutoff) p.bytes pad
  have hrefine := @Decides.unpadded_iff _ _ _ 4 _ flowCutoff cfg.l2Off.toNat
    (refineRule_decides cfg set flowtab) p.bytes pad
  unfold PaddingInvisible
  rw [classifyGeneric_eq cfg hoff, classifyGeneric_eq cfg hoff, classifyRefine_eq cfg hoff,
    classifyRefine_eq cfg hoff, Except.ok.injEq, Except.ok.injEq, genericClass_eq_verdict,
    genericClass_eq_verdict, refineClass_eq_verdict, refineClass_eq_verdict, hq, hgeneric, hrefine]
  constructor
  · exact fun h l3 hhdr => ⟨h.1 l3 hhdr, h.2 l3 hhdr⟩
  · exact fun h => ⟨fun l3 hhdr => (h l3 hhdr).1, fun l3 hhdr => (h l3 hhdr).2⟩

theorem emptyNotHttp_iff {n : Nat} : EmptyNotHttp cfg set flowtab flowCutoff p q n ↔
    ∀ l3, header cfg.l2Off.toNat q.bytes = some l3 →
      EmptySegment p.bytes n → ¬ HttpApplies cfg q.bytes l3 := by
  unfold EmptyNotHttp
  rw [classifyRefine_eq cfg hoff]
  constructor
  · intro h l3 hhdr hempty hhttp
    refine h hempty (refineClass cfg set flowtab flowCutoff q.bytes).2 (congrArg Except.ok ?_)
    refine Prod.ext ?_ rfl
    rw [refineClass_found hhdr]
    exact (refineAt_http_iff cfg set flowtab flowCutoff _ _).mpr ((httpApplies_iff cfg _ _).mp hhttp)
  · intro h hempty f hf
    have hone : (refineClass cfg set flowtab flowCutoff q.bytes).1 = 1 := by rw [Except.ok.inj hf]
    cases hhdr : header cfg.l2Off.toNat q.bytes with
    | none =>
      rw [refineClass_not_found hhdr] at hone
      cases hone
    | some l3 =>
      rw [refineClass_found hhdr] at hone
      refine h l3 hhdr hempty ((httpApplies_iff cfg _ _).mpr ?_)
      exact (refineAt_http_iff cfg set flowtab flowCutoff _ _).mp hone

include hq in
/-- Where the search has found the datagram, one kind of segment is left. -/
theorem padding_located_iff {n : Nat} (hd : CompleteDatagram p.bytes n)
    (hhdr : header cfg.l2Off.toNat p.bytes = some n) :
    PaddingInvisible cfg set flowtab flowCutoff p q ∧
        EmptyNotHttp cfg set flowtab flowCutoff p q n ↔
      ¬ (pad ≠ [] ∧ BareOnWatchedPort cfg p.bytes n) := by
  have hhdr' : header cfg.l2Off.toNat q.bytes = some n := by
    rw [hq]
    exact headerFrom_append pad hhdr
  have hlen := (headerFrom_some hhdr).2.1
  have htrans := transportClass_padded cfg hlen hd pad
  simp only [PaddingInvisible, EmptyNotHttp, classifyGeneric_eq cfg hoff, classifyRefine_eq cfg hoff,
    genericClass_found hhdr, genericClass_found hhdr', refineClass_found hhdr,
    refineClass_found hhdr', Except.ok.injEq]
  rw [hq, genericAt_append pad hlen hd.hasPorts]
  simp only [true_and]
  constructor
  · rintro ⟨hsame, -⟩ hbare
    rw [if_pos hbare] at htrans
    have hone := (refineAt_http_iff cfg set flowtab flowCutoff _ _).mpr htrans
    rw [hsame] at hone
    exact hbare.2.1.not_http cfg ((refineAt_http_iff cfg set flowtab flowCutoff _ _).mp hone)
  · intro hbare
    rw [if_neg hbare] at htrans
    have hsame := refineAt_padded cfg set flowtab flowCutoff hlen hd.hasPorts htrans
    refine ⟨hsame, ?_⟩
    intro hempty f hf
    rw [hsame] at hf
    have hone : (refineAt cfg set flowtab flowCutoff p.bytes n).1 = 1 := by
      rw [Except.ok.inj hf]
    exact hempty.not_http cfg ((refineAt_http_iff cfg set flowtab flowCutoff _ _).mp hone)

end Verdicts

/-- Padding behind a complete datagram goes unnoticed: where the header search finds the datagram,
unless it is an empty segment on a watched port; elsewhere, if the rules that apply to what the
search takes for the header read none of the padding, and no empty segment is HTTP there. -/
theorem padding_invisible_iff (cfg : ClassCfg) (hoff : cfg.l2Off.toNat ≤ 64) (set : Option AddrSet)
    (flowtab : Option FlowTab) (flowCutoff : UInt32) (p q : Packet) (pad : Bytes)
    (hq : q.bytes = p.bytes ++ pad) (n : Nat) (hd : CompleteDatagram p.bytes n) :
    PaddingInvisible cfg set flowtab flowCutoff p q ∧
        EmptyNotHttp cfg set flowtab flowCutoff p q n ↔
      (header cfg.l2Off.toNat p.bytes = some n →
        ¬ (pad ≠ [] ∧ BareOnWatchedPort cfg p.bytes n)) ∧
      (header cfg.l2Off.toNat p.bytes ≠ some n →
        ∀ l3, header cfg.l2Off.toNat q.bytes = some l3 →
          DecidedWithin cfg set flowtab flowCutoff q.bytes l3 p.bytes.length ∧
            (EmptySegment p.bytes n → ¬ HttpApplies cfg q.bytes l3)) := by
  by_cases hhdr : header cfg.l2Off.toNat p.bytes = some n
  · rw [padding_located_iff cfg hoff set flowtab flowCutoff hq hd hhdr]
    exact ⟨fun h => ⟨fun _ => h, fun hne => absurd hhdr hne⟩, fun h => h.1 hhdr⟩
  · rw [paddingInvisible_iff cfg hoff set flowtab flowCutoff hq,
      emptyNotHttp_iff cfg hoff set flowtab flowCutoff]
    constructor
    · exact fun h => ⟨fun hloc => absurd hloc hhdr, fun _ l3 hl3 => ⟨h.1 l3 hl3, h.2 l3 hl3⟩⟩
    · exact fun h => ⟨fun l3 hl3 => (h.2 hhdr l3 hl3).1, fun l3 hl3 => (h.2 hhdr l3 hl3).2⟩

/-- A bare ACK from 10.0.0.1 port 40000 to 10.0.0.2 port 80. -/
def ackPacket : Packet where
  bytes := [0, 0, 0, 0, 0, 2, 0, 0, 0, 0, 0, 1, 0x08, 0x00,
    0x45, 0, 0, 40, 0, 0, 0, 0, 64, 6, 0, 0, 10, 0, 0, 1, 10, 0, 0, 2,
    0x9c, 0x40, 0x00, 0x50, 0, 0, 0, 1, 0, 0, 0, 1, 0x50, 0x10, 0, 64, 0, 0, 0, 0]
  small := by decide

/-- The same frame at the Ethernet minimum of 60 bytes. -/
def paddedAck : Packet where
  bytes := ackPacket.bytes ++ [0, 0, 0, 0, 0, 0]
  small := by decide

theorem ackPacket_complete : CompleteDatagram ackPacket.bytes 14 where
  version := by decide
  ihl := by decide
  unfragmented := by unfold Unfragmented; decide
  transport := by decide
  ends := by decide

/-- A UDP datagram with identification 17 behind a tag whose control word starts with 4. -/
def taggedDatagram : Packet where
  bytes := [0, 0, 0, 0, 0, 2, 0, 0, 0, 0, 0, 1, 0x81, 0x00, 0x4a, 0x00, 0x08, 0x00,
    0x45, 0, 0, 28, 0, 0x11, 0, 0, 64, 17, 0, 0, 10, 0, 0, 1, 10, 0, 0, 2,
    0x03, 0xe8, 0x07, 0xd0, 0, 8, 0, 0]
  small := by decide

def paddedTagged : Packet where
  bytes := taggedDatagram.bytes ++ List.replicate 14 0
  small := by decide

theorem taggedDatagram_complete : CompleteDatagram taggedDatagram.bytes 18 where
  version := by decide
  ihl := by decide
  unfragmented := by unfold Unfragmented; decide
  transport := by decide
  ends := by decide

/-- The bare ACK on a port that is not watched, and the tag taken for a header with ports in the
padding. -/
theorem padding_invisible_iff_unwatched :
    (PaddingInvisible ⟨53, [8080], [], 14, 1⟩ none none 0 ackPacket paddedAck ∧
      EmptyNotHttp ⟨53, [8080], [], 14, 1⟩ none none 0 ackPacket paddedAck 14) ∧
    ¬ (PaddingInvisible ⟨53, [], [], 14, 0⟩ none (flowtabBuild {} 4) 1 taggedDatagram paddedTagged ∧
      EmptyNotHttp ⟨53, [], [], 14, 0⟩ none (flowtabBuild {} 4) 1 taggedDatagram paddedTagged
        18) := by
  constructor
  · exact (padding_invisible_iff ⟨53, [8080], [], 14, 1⟩ (by decide) none none 0 ackPacket paddedAck
      [0, 0, 0, 0, 0, 0] rfl 14 ackPacket_complete).mpr
      ⟨fun _ => by decide, fun hne => absurd (by decide) hne⟩
  · intro h
    have hall := ((padding_invisible_iff ⟨53, [], [], 14, 0⟩ (by decide) none (flowtabBuild {} 4) 1
      taggedDatagram paddedTagged (List.replicate 14 0) rfl 18 taggedDatagram_complete).mp h).2
    have hwithin := (hall (by decide) 14 (by decide)).1.1
    exact absurd hwithin (by decide)

/-- Six bytes of Ethernet padding make HTTP of a bare ACK. -/
theorem padded_ack_is_http :
    CompleteDatagram ackPacket.bytes 14 ∧
      (classifyRefine ⟨53, [80], [], 14, 1⟩ none none 0 ackPacket.bytes ackPacket.caplen).map
        Prod.fst = .ok 2 ∧
      (classifyRefine ⟨53, [80], [], 14, 1⟩ none none 0 paddedAck.bytes paddedAck.caplen).map
        Prod.fst = .ok 1 ∧
      ¬ PaddingInvisible ⟨53, [80], [], 14, 1⟩ none none 0 ackPacket paddedAck := by
  have hack : (classifyRefine ⟨53, [80], [], 14, 1⟩ none none 0 ackPacket.bytes
      ackPacket.caplen).map Prod.fst = .ok 2 := by decide
  have hpadded : (classifyRefine ⟨53, [80], [], 14, 1⟩ none none 0 paddedAck.bytes
      paddedAck.caplen).map Prod.fst = .ok 1 := by decide
  refine ⟨ackPacket_complete, hack, hpadded, ?_⟩
  intro h
  rcases h with ⟨-, hsame⟩
  have hptr : setPtr none = none := rfl
  rw [hptr] at hsame
  rw [hsame, hack] at hpadded
  cases hpadded

end PcapyNg
