import Mathlib.Algebra.Order.BigOperators.Group.List
import Mathlib.Algebra.Order.Group.Nat
import PcapyNg.FilteredStats
import PcapyNg.Library.Snapshot
import PcapyNg.Library.Transitions

/-!
# Polls while the loop is counting

`FilteredCallBack` counts without the GIL and takes it for the callback only; `filtered_stats`
holds the GIL while it reads the counters one by one. So a poll may see a packet half counted and
the counters at different moments. A counter is read and written in one piece.
-/

namespace PcapyNg
open ReadLoop Snapshot Transitions
set_option autoImplicit false

/-- Where the capture thread is in `FilteredCallBack`. -/
inductive CountPhase where
  | between
  /-- the class is counted, the admit bit not yet tested -/
  | classified (k : Nat)
  /-- counted as admitted, the GIL not yet taken -/
  | waiting (k : Nat)
  /-- in the Python callback -/
  | calling (k : Nat)
  /-- the callback has raised: `pcap_breakloop` -/
  | stopped

/-- A poll made: the counters when it began, those it returned, those when it was over. -/
structure PollRecord where
  first : Nat → Nat
  shown : Nat → Nat
  last : Nat → Nat

/-- A run of `loop_filtered` under way. `ahead` are the classes of the packets to come, `begun` of
those counted by class, `settled` of those counted as admitted or dropped; `poll` is the poll under
way, which holds the GIL. -/
structure LiveState where
  live : List UInt64
  ahead : List Nat
  begun : List Nat
  settled : List Nat
  phase : CountPhase
  poll : Option (Collect Nat Nat)
  log : List PollRecord

def LiveState.start (ks : List Nat) : LiveState where
  live := List.replicate 8 0
  ahead := ks
  begun := []
  settled := []
  phase := .between
  poll := none
  log := []

/-- `s[i]`, as Python gets it -/
def LiveState.counter (s : LiveState) (i : Nat) : Nat := (s.live.getD i 0).toNat

/-- One step of the capture thread, or of a thread that polls `slots` counters. -/
inductive LiveStep (mask : Int32) (slots : Nat) (s : LiveState) : LiveState → Prop
  | classify {k : Nat} {ahead : List Nat} {live : List UInt64} (hphase : s.phase = .between)
      (hahead : s.ahead = k :: ahead) (hlive : bump s.live (2 + k) = .ok live) :
      LiveStep mask slots s
        { s with live := live, ahead := ahead, begun := s.begun ++ [k], phase := .classified k }
  | drop {k : Nat} {live : List UInt64} (hphase : s.phase = .classified k)
      (hmask : (mask >>> Int32.ofNat k) &&& 1 = 0) (hlive : bump s.live 1 = .ok live) :
      LiveStep mask slots s
        { s with live := live, settled := s.settled ++ [k], phase := .between }
  | deliver {k : Nat} {live : List UInt64} (hphase : s.phase = .classified k)
      (hmask : ¬ (mask >>> Int32.ofNat k) &&& 1 = 0) (hlive : bump s.live 0 = .ok live) :
      LiveStep mask slots s
        { s with live := live, settled := s.settled ++ [k], phase := .waiting k }
  -- `PyEval_RestoreThread` waits until no poll is under way
  | call {k : Nat} (hphase : s.phase = .waiting k) (hgil : s.poll = none) :
      LiveStep mask slots s { s with phase := .calling k }
  | returned {k : Nat} (hphase : s.phase = .calling k) (hgil : s.poll = none) :
      LiveStep mask slots s { s with phase := .between }
  | raised {k : Nat} (hphase : s.phase = .calling k) (hgil : s.poll = none) :
      LiveStep mask slots s { s with phase := .stopped }
  | pollStart (hgil : s.poll = none) :
      LiveStep mask slots s { s with poll := some (.start s.counter) }
  -- the order in which `Py_BuildValue` gets its arguments is not fixed
  | pollRead {c : Collect Nat Nat} {i : Nat} (hpoll : s.poll = some c) (hi : i < slots)
      (hgot : c.got i = none) :
      LiveStep mask slots s { s with poll := some (c.read s.counter i) }
  | pollEnd {c : Collect Nat Nat} {shown : Nat → Nat} (hpoll : s.poll = some c)
      (hall : ∀ i < slots, c.got i = some (shown i)) :
      LiveStep mask slots s
        { s with poll := none, log := s.log ++ [⟨c.first, shown, s.counter⟩] }

/-- The number of counters in the tuple: that of `reported`. -/
def pollSlots (profile : Int32) : Nat := if profile = 1 then 8 else 5

abbrev LiveRun (mask : Int32) (slots : Nat) (s₀ : LiveState) : LiveState → Prop :=
  Run (fun s (_ : Unit) s' => LiveStep mask slots s s') Unrestricted s₀

theorem LiveRun.next {mask : Int32} {slots : Nat} {s₀ s s' : LiveState}
    (hrun : LiveRun mask slots s₀ s) (hstep : LiveStep mask slots s s') :
    LiveRun mask slots s₀ s' :=
  Run.step (l := ()) hrun hstep trivial

/-! The counters between two steps. -/

/-- The counters when the packets `begun` are counted by class and of these `settled` as admitted
or dropped. -/
def midCounts (mask : Int32) (settled begun : List Nat) : List UInt64 :=
  UInt64.ofNat (settled.countP fun k => Admits mask k) ::
    UInt64.ofNat (settled.countP fun k => ¬ Admits mask k) :: tally begun

theorem midCounts_self (mask : Int32) (ks : List Nat) : midCounts mask ks ks = liveCounts mask ks :=
  rfl

section Mid
variable {mask : Int32} {settled begun : List Nat} {k : Nat}

theorem bump_class (hk : k < 6) :
    bump (midCounts mask settled begun) (2 + k) = .ok (midCounts mask settled (begun ++ [k])) := by
  have htwo : 2 + k = k + 1 + 1 := by omega
  rw [midCounts, htwo, bump_cons, bump_cons, bump_tally hk]
  rfl

theorem bump_dropped (h : ¬ Admits mask k) :
    bump (midCounts mask settled begun) 1 = .ok (midCounts mask (settled ++ [k]) begun) := by
  simp [midCounts, bump, h, List.countP_append, UInt64.ofNat_add]

theorem bump_admitted (h : Admits mask k) :
    bump (midCounts mask settled begun) 0 = .ok (midCounts mask (settled ++ [k]) begun) := by
  simp [midCounts, bump, h, List.countP_append, UInt64.ofNat_add]

/-- The number of packets counted by class, in a tuple with `m` classes. -/
def begunCount (m : Nat) (v : Nat → Nat) : Nat := ((List.range m).map fun k => v (2 + k)).sum

/-- The number of packets counted as admitted or dropped. -/
def settledCount (v : Nat → Nat) : Nat := v 0 + v 1

def asCounters (live : List UInt64) (i : Nat) : Nat := (live.getD i 0).toNat

theorem tally_getD {ks : List Nat} (hsize : ks.length < 2 ^ 64) (i : Nat) :
    ((tally ks).getD i 0).toNat = if i < 6 then ks.count i else 0 := by
  by_cases hi : i < 6
  · have hget : (tally ks).getD i 0 = UInt64.ofNat (ks.count i) := by
      simp [tally, List.getD_eq_getElem?_getD, hi]
    rw [if_pos hi, hget]
    exact UInt64.toNat_ofNat_of_lt' (List.count_le_length.trans_lt hsize)
  · have hget : (tally ks).getD i 0 = 0 := by
      simp [tally, List.getD_eq_getElem?_getD, hi]
    rw [if_neg hi, hget]
    rfl

theorem settledCount_mid (hsize : settled.length < 2 ^ 64) :
    settledCount (asCounters (midCounts mask settled begun)) = settled.length := by
  have hcount : ∀ p : Nat → Bool, (UInt64.ofNat (settled.countP p)).toNat = settled.countP p :=
    fun p => UInt64.toNat_ofNat_of_lt' (List.countP_le_length.trans_lt hsize)
  have hsplit := List.length_eq_countP_add_countP (fun k => decide (Admits mask k)) (l := settled)
  have h₀ : asCounters (midCounts mask settled begun) 0 = settled.countP _ := hcount _
  have h₁ : asCounters (midCounts mask settled begun) 1 = settled.countP _ := hcount _
  rw [settledCount, h₀, h₁, hsplit]
  simp

theorem begunCount_mid {m : Nat} (hm : m ≤ 6) (hsize : begun.length < 2 ^ 64)
    (hcls : ∀ k ∈ begun, k < m) :
    begunCount m (asCounters (midCounts mask settled begun)) = begun.length := by
  have hmap : ((List.range m).map fun k => asCounters (midCounts mask settled begun) (2 + k)) =
      (List.range m).map begun.count := by
    apply List.map_congr_left
    intro k hk
    have hlt : k < 6 := (List.mem_range.mp hk).trans_le hm
    have hshift : asCounters (midCounts mask settled begun) (2 + k) =
        ((tally begun).getD k 0).toNat := by
      rw [Nat.add_comm]
      rfl
    rw [hshift, tally_getD hsize, if_pos hlt]
  rw [begunCount, hmap, sum_counts hcls]

/-- Counting more packets makes no counter smaller. -/
theorem midCounts_le {settled' begun' : List Nat} (hs : settled.Sublist settled')
    (hb : begun.Sublist begun') (hsize : settled'.length < 2 ^ 64) (hsize' : begun'.length < 2 ^ 64)
    (i : Nat) : asCounters (midCounts mask settled begun) i ≤
      asCounters (midCounts mask settled' begun') i := by
  have hcount : ∀ p : Nat → Bool,
      (UInt64.ofNat (settled.countP p)).toNat ≤ (UInt64.ofNat (settled'.countP p)).toNat := by
    intro p
    have hle := hs.countP_le (p := p)
    have hlen : settled'.countP p ≤ settled'.length := List.countP_le_length
    rw [UInt64.toNat_ofNat_of_lt' (by omega : _ < 2 ^ 64),
      UInt64.toNat_ofNat_of_lt' (by omega : _ < 2 ^ 64)]
    exact hle
  match i with
  | 0 => exact hcount _
  | 1 => exact hcount _
  | i + 2 =>
    have hle : ((tally begun).getD i 0).toNat ≤ ((tally begun').getD i 0).toNat := by
      rw [tally_getD (hb.length_le.trans_lt hsize'), tally_getD hsize']
      split
      · exact hb.count_le i
      · exact Nat.le_refl 0
    exact hle

end Mid

/-! The invariants of a run with polls. -/

/-- The packet in hand that is counted by class alone. -/
def CountPhase.open : CountPhase → List Nat
  | classified k => [k]
  | _ => []

structure Counting (mask : Int32) (ks : List Nat) (s : LiveState) : Prop where
  live : s.live = midCounts mask s.settled s.begun
  split : s.begun ++ s.ahead = ks
  inHand : s.begun = s.settled ++ s.phase.open

section Run
variable {mask : Int32} {m : Nat} {ks : List Nat} {s s' : LiveState}

theorem Counting.start : Counting mask ks (LiveState.start ks) where
  live := rfl
  split := rfl
  inHand := rfl

theorem Counting.lengths (h : Counting mask ks s) :
    s.settled.length ≤ s.begun.length ∧ s.begun.length ≤ s.settled.length + 1 ∧
      s.begun.length ≤ ks.length := by
  have hopen : s.phase.open.length ≤ 1 := by
    cases s.phase <;> simp [CountPhase.open]
  have hbegun := congrArg List.length h.inHand
  have hsplit := congrArg List.length h.split
  rw [List.length_append] at hbegun hsplit
  omega

theorem Counting.mem (h : Counting mask ks s) {k : Nat} (hk : k ∈ s.begun) : k ∈ ks := by
  rw [← h.split]
  exact List.mem_append_left _ hk

/-- What one step does to the counters and to the packets counted. -/
theorem Counting.step (h : Counting mask ks s) (hks : ∀ k ∈ ks, k < 6) {slots : Nat}
    (hstep : LiveStep mask slots s s') :
    Counting mask ks s' ∧ s.settled.Sublist s'.settled ∧ s.begun.Sublist s'.begun := by
  have hlive := h.live
  have hsplit := h.split
  have hinHand := h.inHand
  cases hstep with
  | @classify k ahead live hphase hahead hbump =>
    have hsame : s.begun = s.settled := by
      rw [hinHand, hphase]
      exact List.append_nil _
    rw [hahead] at hsplit
    have hk : k < 6 := hks k (by rw [← hsplit]; simp)
    rw [hlive, bump_class hk] at hbump
    refine ⟨⟨(Except.ok.inj hbump).symm, ?_, ?_⟩, List.Sublist.refl _, List.sublist_append_left _ _⟩
    · rw [← hsplit, List.append_assoc]
      rfl
    · rw [hsame]
      rfl
  | @drop k live hphase hmask hbump =>
    rw [hphase, CountPhase.open] at hinHand
    have hk : k < 6 := hks k (h.mem (by rw [hinHand]; simp))
    rw [hlive, bump_dropped ((admit_bit_iff hk).mp hmask)] at hbump
    refine ⟨⟨(Except.ok.inj hbump).symm, hsplit, ?_⟩, List.sublist_append_left _ _, List.Sublist.refl _⟩
    rw [hinHand]
    exact (List.append_nil _).symm
  | @deliver k live hphase hmask hbump =>
    rw [hphase, CountPhase.open] at hinHand
    have hk : k < 6 := hks k (h.mem (by rw [hinHand]; simp))
    have hadmits : Admits mask k := not_not.mp fun hn => hmask ((admit_bit_iff hk).mpr hn)
    rw [hlive, bump_admitted hadmits] at hbump
    refine ⟨⟨(Except.ok.inj hbump).symm, hsplit, ?_⟩, List.sublist_append_left _ _, List.Sublist.refl _⟩
    rw [hinHand]
    exact (List.append_nil _).symm
  | call hphase hgil =>
    rw [hphase] at hinHand
    exact ⟨⟨hlive, hsplit, hinHand⟩, List.Sublist.refl _, List.Sublist.refl _⟩
  | returned hphase hgil =>
    rw [hphase] at hinHand
    exact ⟨⟨hlive, hsplit, hinHand⟩, List.Sublist.refl _, List.Sublist.refl _⟩
  | raised hphase hgil =>
    rw [hphase] at hinHand
    exact ⟨⟨hlive, hsplit, hinHand⟩, List.Sublist.refl _, List.Sublist.refl _⟩
  | pollStart hgil => exact ⟨⟨hlive, hsplit, hinHand⟩, List.Sublist.refl _, List.Sublist.refl _⟩
  | pollRead hpoll hi hgot =>
    exact ⟨⟨hlive, hsplit, hinHand⟩, List.Sublist.refl _, List.Sublist.refl _⟩
  | pollEnd hpoll hall =>
    exact ⟨⟨hlive, hsplit, hinHand⟩, List.Sublist.refl _, List.Sublist.refl _⟩

/-- A packet is counted as admitted or dropped at once behind its class. -/
def Near (m : Nat) (v : Nat → Nat) : Prop :=
  settledCount v ≤ begunCount m v ∧ begunCount m v ≤ settledCount v + 1

theorem Counting.near (h : Counting mask ks s) (hm : m ≤ 6) (hks : ∀ k ∈ ks, k < m)
    (hsize : ks.length < 2 ^ 64) : Near m s.counter := by
  obtain ⟨hle, hge, hlen⟩ := h.lengths
  have hcounter : s.counter = asCounters (midCounts mask s.settled s.begun) := by
    funext i
    rw [LiveState.counter, h.live]
    rfl
  rw [Near, hcounter, settledCount_mid (by omega),
    begunCount_mid hm (by omega) fun k hk => hks k (h.mem hk)]
  exact ⟨hle, hge⟩

/-- No counter goes down. -/
theorem Counting.counter_le (h : Counting mask ks s) (hks : ∀ k ∈ ks, k < 6)
    (hsize : ks.length < 2 ^ 64) {slots : Nat} (hstep : LiveStep mask slots s s') (i : Nat) :
    s.counter i ≤ s'.counter i := by
  obtain ⟨h', hsettled, hbegun⟩ := h.step hks hstep
  obtain ⟨hle, -, hlen⟩ := h'.lengths
  rw [LiveState.counter, LiveState.counter, h.live, h'.live]
  exact midCounts_le hsettled hbegun (by omega) (by omega) i

/-- What holds of a finished poll. -/
structure PollRecord.Ok (m : Nat) (p : PollRecord) : Prop where
  within : ∀ i < m + 2, p.first i ≤ p.shown i ∧ p.shown i ≤ p.last i
  once : p.last 0 ≤ p.first 0 + 1
  near : Near m p.first ∧ Near m p.last

/-- While a poll is under way one packet at most is counted as admitted: the capture thread then
waits for the GIL. -/
def OneAdmitted (first : Nat → Nat) (s : LiveState) : Prop :=
  s.counter 0 = first 0 ∨ (s.counter 0 ≤ first 0 + 1 ∧ ∃ k, s.phase = .waiting k)

structure PollInv (mask : Int32) (m : Nat) (ks : List Nat) (s : LiveState) : Prop where
  counting : Counting mask ks s
  poll : ∀ c, s.poll = some c → c.Within s.counter ∧ Near m c.first ∧ OneAdmitted c.first s ∧
    ∀ p ∈ s.log, ∀ i, p.last i ≤ c.first i
  log : ∀ p ∈ s.log, p.Ok m ∧ ∀ i, p.last i ≤ s.counter i
  order : s.log.Pairwise fun p q => ∀ i, p.last i ≤ q.first i

theorem PollInv.start : PollInv mask m ks (LiveState.start ks) where
  counting := Counting.start
  poll c hc := by cases hc
  log p hp := by cases hp
  order := List.Pairwise.nil

theorem OneAdmitted.bound {first : Nat → Nat} (h : OneAdmitted first s) :
    s.counter 0 ≤ first 0 + 1 := by
  rcases h with heq | ⟨hle, -⟩
  · omega
  · exact hle

/-- A step that only counts, poll or no poll. -/
theorem PollInv.count (h : PollInv mask m ks s) (hcounting : Counting mask ks s')
    (hpoll : s'.poll = s.poll) (hlog : s'.log = s.log) (hgrow : ∀ i, s.counter i ≤ s'.counter i)
    (honce : ∀ c, s.poll = some c → OneAdmitted c.first s → OneAdmitted c.first s') :
    PollInv mask m ks s' where
  counting := hcounting
  poll c hc := by
    rw [hpoll] at hc
    obtain ⟨hwithin, hnear, hadm, hlast⟩ := h.poll c hc
    rw [hlog]
    exact ⟨hwithin.grow hgrow, hnear, honce c hc hadm, hlast⟩
  log p hp := by
    rw [hlog] at hp
    exact ⟨(h.log p hp).1, fun i => ((h.log p hp).2 i).trans (hgrow i)⟩
  order := by
    rw [hlog]
    exact h.order

theorem Counting.counter_zero (h : Counting mask ks s) (hsize : ks.length < 2 ^ 64) :
    s.counter 0 = s.settled.countP fun k => Admits mask k := by
  have hlen := h.lengths
  have hcount : s.settled.countP (fun k => Admits mask k) ≤ s.settled.length :=
    List.countP_le_length
  rw [LiveState.counter, h.live]
  exact UInt64.toNat_ofNat_of_lt' (by omega : _ < 2 ^ 64)

theorem PollInv.step (h : PollInv mask m ks s) (hm : m ≤ 6) (hks : ∀ k ∈ ks, k < m)
    (hsize : ks.length < 2 ^ 64) (hstep : LiveStep mask (m + 2) s s') : PollInv mask m ks s' := by
  have hks6 : ∀ k ∈ ks, k < 6 := fun k hk => (hks k hk).trans_le hm
  obtain ⟨hcounting, -, -⟩ := h.counting.step hks6 hstep
  have hgrow := h.counting.counter_le hks6 hsize hstep
  have hnear := h.counting.near hm hks hsize
  have hzero := h.counting.counter_zero hsize
  have hzero' := hcounting.counter_zero hsize
  cases hstep with
  | classify hphase hahead hbump =>
    refine h.count hcounting rfl rfl hgrow fun c hc hadm => ?_
    rcases hadm with heq | ⟨-, k, hwait⟩
    · exact Or.inl (hzero'.trans (hzero.symm.trans heq))
    · cases hphase.symm.trans hwait
  | @drop k live hphase hmask hbump =>
    refine h.count hcounting rfl rfl hgrow fun c hc hadm => ?_
    have hk : k < 6 := by
      apply hks6 k (h.counting.mem _)
      rw [h.counting.inHand, hphase]
      simp [CountPhase.open]
    have hsame : (s.settled ++ [k]).countP (fun k => Admits mask k) =
        s.settled.countP fun k => Admits mask k := by
      simp [List.countP_append, (admit_bit_iff hk).mp hmask]
    rcases hadm with heq | ⟨-, k', hwait⟩
    · exact Or.inl ((hzero'.trans hsame).trans (hzero.symm.trans heq))
    · cases hphase.symm.trans hwait
  | @deliver k live hphase hmask hbump =>
    refine h.count hcounting rfl rfl hgrow fun c hc hadm => ?_
    rcases hadm with heq | ⟨-, k', hwait⟩
    · have hmore : (s.settled ++ [k]).countP (fun k => Admits mask k) ≤
          s.settled.countP (fun k => Admits mask k) + 1 := by
        rw [List.countP_append, List.countP_singleton]
        split <;> omega
      refine Or.inr ⟨?_, k, rfl⟩
      rw [← heq, hzero']
      exact hmore.trans_eq (congrArg (· + 1) hzero.symm)
    · cases hphase.symm.trans hwait
  | call hphase hgil =>
    refine h.count hcounting rfl rfl hgrow fun c hc _ => ?_
    cases hgil.symm.trans hc
  | returned hphase hgil =>
    refine h.count hcounting rfl rfl hgrow fun c hc _ => ?_
    cases hgil.symm.trans hc
  | raised hphase hgil =>
    refine h.count hcounting rfl rfl hgrow fun c hc _ => ?_
    cases hgil.symm.trans hc
  | pollStart hgil =>
    refine ⟨hcounting, fun c hc => ?_, h.log, h.order⟩
    cases hc
    exact ⟨.start _, hnear, Or.inl rfl, fun p hp => (h.log p hp).2⟩
  | pollRead hpoll hi hgot =>
    obtain ⟨hwithin, hfirst, hadm, hlast⟩ := h.poll _ hpoll
    refine ⟨hcounting, fun c hc => ?_, h.log, h.order⟩
    cases hc
    exact ⟨hwithin.read _, hfirst, hadm, hlast⟩
  | @pollEnd c shown hpoll hall =>
    obtain ⟨hwithin, hfirst, hadm, hlast⟩ := h.poll _ hpoll
    refine ⟨hcounting, nofun, ?_, ?_⟩
    · intro p hp
      rcases List.mem_append.mp hp with hp | hp
      · exact h.log p hp
      · obtain rfl := List.mem_singleton.mp hp
        refine ⟨⟨fun i hi => hwithin.between i _ (hall i hi), hadm.bound, hfirst, hnear⟩, fun i => ?_⟩
        exact le_refl _
    · apply List.pairwise_append.mpr
      refine ⟨h.order, List.pairwise_singleton _ _, fun p hp q hq => ?_⟩
      obtain rfl := List.mem_singleton.mp hq
      exact hlast p hp

theorem begunCount_between {p : PollRecord}
    (h : ∀ i < m + 2, p.first i ≤ p.shown i ∧ p.shown i ≤ p.last i) :
    begunCount m p.first ≤ begunCount m p.shown ∧ begunCount m p.shown ≤ begunCount m p.last := by
  constructor
  · apply List.sum_le_sum
    intro k hk
    have hlt := List.mem_range.mp hk
    exact (h (2 + k) (by omega)).1
  · apply List.sum_le_sum
    intro k hk
    have hlt := List.mem_range.mp hk
    exact (h (2 + k) (by omega)).2

theorem settledCount_between {p : PollRecord}
    (h : ∀ i < m + 2, p.first i ≤ p.shown i ∧ p.shown i ≤ p.last i) :
    settledCount p.first ≤ settledCount p.shown ∧ settledCount p.shown ≤ settledCount p.last := by
  have h₀ := h 0 (by omega)
  have h₁ := h 1 (by omega)
  unfold settledCount
  omega

theorem PollInv.run (hm : m ≤ 6) (hks : ∀ k ∈ ks, k < m) (hsize : ks.length < 2 ^ 64)
    (hrun : LiveRun mask (m + 2) (.start ks) s) : PollInv mask m ks s :=
  hrun.invariant PollInv.start fun _ _ _ h hstep _ => h.step hm hks hsize hstep

end Run

/-! The run of `loop_filtered` without polls is one of these runs. -/

section Callback
variable {f : PyFunc} (slots : Nat)

/-- `FilteredCallBack` in steps. -/
theorem filteredCallBack_steps {c c' : FilteredContext} {r : Record} {raised : Bool}
    (h : filteredCallBack f c r = .ok (c', raised)) :
    ∃ k, c.classify c.flowtab r = .ok (k, c'.flowtab) ∧ c'.admitMask = c.admitMask ∧
      ∀ s ahead, s.live = c.live → s.phase = .between → s.ahead = k :: ahead → s.poll = none →
        LiveRun c.admitMask slots s
          { s with
            live := c'.live
            ahead := ahead
            begun := s.begun ++ [k]
            settled := s.settled ++ [k]
            phase := if raised then .stopped else .between } := by
  rw [filteredCallBack] at h
  obtain ⟨⟨k, flowtab⟩, hk, h⟩ := bind_eq_ok.mp h
  obtain ⟨live, hclass, h⟩ := bind_eq_ok.mp h
  simp only at h
  split at h
  · rename_i hmask
    obtain ⟨dropped, hdropped, h⟩ := bind_eq_ok.mp h
    cases h
    refine ⟨k, hk, rfl, fun s ahead hlive hphase hahead _ => ?_⟩
    rw [← hlive] at hclass
    have hclassified : LiveStep c.admitMask slots s _ := .classify hphase hahead hclass
    exact LiveRun.next (LiveRun.next .nil hclassified) (.drop rfl hmask hdropped)
  · rename_i hmask
    obtain ⟨counted, hcounted, h⟩ := bind_eq_ok.mp h
    cases h
    refine ⟨k, hk, rfl, fun s ahead hlive hphase hahead hpoll => ?_⟩
    rw [← hlive] at hclass
    have hclassified : LiveStep c.admitMask slots s _ := .classify hphase hahead hclass
    have hadmitted := LiveRun.next (LiveRun.next .nil hclassified) (.deliver rfl hmask hcounted)
    have hcalled := LiveRun.next hadmitted (.call rfl hpoll)
    cases (c.py.callObject f ⟨r.hdr, r.data, some (profileBase c.cfg + k)⟩).2 with
    | true => exact LiveRun.next hcalled (.raised rfl hpoll)
    | false => exact LiveRun.next hcalled (.returned rfl hpoll)

/-- The run lemma: without polls, and as long as no callback raises. -/
theorem filtered_feed_steps {c last : FilteredContext} {recs : List Record} {ks : List Nat}
    {flowtab : Option FlowTab} (hks : classifyAll c.classify c.flowtab recs = .ok (ks, flowtab))
    (hfeed : feed (faultHandler (filteredCallBack f)) (.ok c) recs = .ok last)
    (hquiet : Quiet (faultHandler (filteredCallBack f)) (.ok c) recs) {s : LiveState}
    {ahead : List Nat} (hlive : s.live = c.live) (hphase : s.phase = .between)
    (hahead : s.ahead = ks ++ ahead) (hpoll : s.poll = none) :
    LiveRun c.admitMask slots s
      { s with live := last.live, ahead := ahead, begun := s.begun ++ ks, settled := s.settled ++ ks } := by
  induction recs generalizing c ks s with
  | nil =>
    cases hks
    cases hfeed
    obtain rfl : s.ahead = ahead := hahead
    rw [← hlive, List.append_nil, List.append_nil]
    exact .nil
  | cons r recs ih =>
    obtain ⟨k, f₁, ks₁, hk, hrest, rfl⟩ := classifyAll_cons_ok hks
    rw [feed, faultHandler] at hfeed
    rw [Quiet, faultHandler] at hquiet
    cases hstep : filteredCallBack f c r with
    | error e =>
      rw [hstep] at hfeed
      simp only [feed_fault] at hfeed
      cases hfeed
    | ok step =>
      rcases step with ⟨c', raised⟩
      rw [hstep] at hfeed hquiet
      obtain ⟨rfl, hquiet⟩ : raised = false ∧ _ := hquiet
      obtain ⟨k', hk', hmask, hsteps⟩ := filteredCallBack_steps slots hstep
      obtain ⟨-, hcfg, hioc, hcut, -⟩ := filteredCallBack_ok hstep
      have hsame : c'.classify = c.classify := by
        unfold Classifier.classify
        rw [hcfg, hioc, hcut]
      obtain ⟨rfl, rfl⟩ := Prod.mk.inj (Except.ok.inj (hk'.symm.trans hk))
      rw [← hsame] at hrest
      have hfirst := hsteps s (ks₁ ++ ahead) hlive hphase hahead hpoll
      have hlater := ih hrest hfeed hquiet (s := { s with
        live := c'.live
        ahead := ks₁ ++ ahead
        begun := s.begun ++ [k']
        settled := s.settled ++ [k']
        phase := .between }) rfl rfl rfl hpoll
      rw [hmask] at hlater
      simp only [List.append_assoc, List.singleton_append] at hlater
      rw [hphase]
      exact Run.trans hfirst hlater

end Callback

/-- Polls of `filtered_stats` against a running `loop_filtered`, in any interleaving: what a poll
returns lies between the counters of its beginning and of its end, no counter goes down from poll
to poll, and the sums differ by the packets settled during the poll and one more at most. -/
theorem live_polls_bounded (alloc : LoopAlloc) (args : LoopArgs) (cl : Classifier)
    (hsetup : loopSetup filteredProfileError alloc args = .ok (.ok cl)) (recs : List Record)
    (ks : List Nat) (flowtab : Option FlowTab) (hks : cl.classes recs = .ok (ks, flowtab))
    (hsize : recs.length < 2 ^ 64) (s : LiveState)
    (hrun : LiveRun args.admitMask (pollSlots args.profile) (.start ks) s) :
    let m := if args.profile = 1 then 6 else 3
    (∀ p ∈ s.log,
      let meanwhile := settledCount p.last - settledCount p.first
      (∀ i < pollSlots args.profile, p.first i ≤ p.shown i ∧ p.shown i ≤ p.last i) ∧
      p.last 0 ≤ p.first 0 + 1 ∧
      settledCount p.shown ≤ begunCount m p.shown + meanwhile ∧
      begunCount m p.shown ≤ settledCount p.shown + meanwhile + 1) ∧
    s.log.Pairwise (fun p q => ∀ i < pollSlots args.profile, p.shown i ≤ q.shown i) ∧
    s.begun ++ s.ahead = ks ∧
    (s.phase.open = [] → s.live = liveCounts args.admitMask s.begun) := by
  intro m
  have hlen : ks.length = recs.length := classifyAll_length hks
  have hslots : pollSlots args.profile = m + 2 := by
    show pollSlots args.profile = (if args.profile = 1 then 6 else 3) + 2
    rw [pollSlots]
    split <;> rfl
  have hm : m ≤ 6 := by
    show (if args.profile = 1 then 6 else 3) ≤ 6
    split <;> omega
  rw [hslots] at hrun ⊢
  have hinv := PollInv.run hm (classes_lt hsetup hks) (hlen.trans_lt hsize) hrun
  refine ⟨fun p hp => ?_, ?_, hinv.counting.split, fun hopen => ?_⟩
  · obtain ⟨hwithin, honce, hfirst, hlast⟩ := (hinv.log p hp).1
    refine ⟨hwithin, honce, ?_⟩
    obtain ⟨hbegun, hbegun'⟩ := begunCount_between hwithin
    obtain ⟨hsettled, hsettled'⟩ := settledCount_between hwithin
    unfold Near at hfirst hlast
    omega
  · apply hinv.order.imp_of_mem
    intro p q hp hq hpq i hi
    exact (((hinv.log p hp).1.within i hi).2.trans (hpq i)).trans ((hinv.log q hq).1.within i hi).1
  · have hsame : s.begun = s.settled := by
      rw [hinv.counting.inHand, hopen, List.append_nil]
    rw [hinv.counting.live, ← hsame, midCounts_self]

/-- The class of a packet is counted between two readings of one poll. -/
theorem live_polls_bounded_half_counted :
    ∃ s p, LiveRun 7 5 (.start [0]) s ∧ p ∈ s.log ∧ p.shown 2 = 0 ∧ p.last 2 = 1 ∧
      p.last 0 ≤ p.first 0 + 1 := by
  have h₁ : LiveRun 7 5 (.start [0]) _ := LiveRun.next .nil (.pollStart rfl)
  have h₂ := LiveRun.next h₁ (.pollRead (i := 2) rfl (by decide) rfl)
  have h₃ := LiveRun.next h₂ (.classify (k := 0) rfl rfl rfl)
  have h₄ := LiveRun.next h₃ (.pollRead (i := 0) rfl (by decide) rfl)
  have h₅ := LiveRun.next h₄ (.pollRead (i := 1) rfl (by decide) rfl)
  have h₆ := LiveRun.next h₅ (.pollRead (i := 3) rfl (by decide) rfl)
  have h₇ := LiveRun.next h₆ (.pollRead (i := 4) rfl (by decide) rfl)
  have h₈ := LiveRun.next h₇ (@LiveStep.pollEnd _ _ _ _ (fun _ => 0) rfl (by decide))
  have hpolls := live_polls_bounded {} { cnt := -1 } _ rfl [udpRecord] [0] _ rfl (by decide) _ h₈
  have honce := (hpolls.1 _ (List.mem_singleton.mpr rfl)).2.1
  exact ⟨_, _, h₈, List.mem_singleton.mpr rfl, rfl, rfl, honce⟩

end PcapyNg
