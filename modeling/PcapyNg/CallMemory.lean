import Mathlib.Tactic.Abel
import PcapyNg.Library.OwnedHeap
import PcapyNg.SetupFailures

/-!
# What one call of a callback loop owns

`loop`, `dispatch` and `loop_filtered` acquire references and blocks one by one, any of which
can fail, and give the GIL up around `pcap_loop`; the callbacks take it back for the time of a
call into Python. The functions are written here with every allocation, reference and thread
state in its place.
-/

namespace PcapyNg
open ReadLoop OwnedHeap
set_option autoImplicit false

inductive MemFault where
  | code (fault : Fault)
  | nullPointer
  | dangling
  | noGil
  deriving DecidableEq

/-- A `malloc`ed block, a reference owned by the C code, a buffer view; the GIL with the
thread state that holds it, and a thread state that has given it up. -/
inductive Held where
  | block
  | reference
  | view
  | gil
  | saved
  deriving DecidableEq

abbrev Mem := Prog Held MemFault

abbrev Pointer := Option Nat

def code {α : Type} (x : Except Fault α) : Mem α := lift (x.mapError .code)

def malloc (ok : Bool) : Mem Pointer := acquire .block ok

def free : Pointer → Mem Unit
  | none => pure ()
  | some n => release .dangling .block n

def access (n : Nat) : Mem Unit := use .dangling .block n

section Python
variable (ts : Nat)

/-- A function of Python's API that returns a new reference. -/
def newReference (ok : Bool) : Mem Pointer := do
  use .noGil .gil ts
  acquire .reference ok

def pyDecref : Pointer → Mem Unit
  | none => throw .nullPointer
  | some n => do
    use .noGil .gil ts
    release .dangling .reference n

def pyXdecref : Pointer → Mem Unit
  | none => pure ()
  | some n => pyDecref ts (some n)

def saveThread : Mem Unit := turn .noGil .gil .saved ts

def restoreThread : Mem Unit := turn .noGil .saved .gil ts

/-- The loop of `seq_to_ports` over the items. -/
def fillPorts (fast : Pointer) (ports : Nat) :
    List (Except PyExc Int64) → Mem (Except PyExc (List UInt16))
  | [] => return .ok []
  | .error e :: _ => do
    free (some ports)
    pyDecref ts fast
    return .error e
  | .ok v :: items => do
    access ports
    match ← fillPorts fast ports items with
    | .error e => return .error e
    | .ok vs => return .ok (portOf v :: vs)

/-- `seq_to_ports`: the array and what is in it. -/
def seqToPortsMem (ok : Bool) (seq : Option PySeq) : Mem (Except PyExc (Pointer × List UInt16)) :=
  match seq with
  | none => return .ok (none, [])
  | some .notSequence => return .error (.typeError "ports must be a sequence of ints")
  | some (.items items) => do
    let fast ← newReference ts true
    if items = [] then
      pyDecref ts fast
      return .ok (none, [])
    else
      match ← malloc ok with
      | none => do
        pyDecref ts fast
        return .error .memoryError
      | some ports =>
        match ← fillPorts ts fast ports items with
        | .error e => return .error e
        | .ok vs => do
          pyDecref ts fast
          return .ok (some ports, vs.take (UInt32.ofNat vs.length).toNat)

end Python

/-- `struct mt_ipset`: what is in it, and the blocks it and its slots lie in. -/
structure IpSetMem where
  table : IpSet
  set : Nat
  slots : Nat

def ipsetBuildMem (alloc : IpSetAlloc) (data : Bytes) : Mem (Option IpSetMem) := do
  match ← malloc alloc.set with
  | none => return none
  | some set =>
    match ← malloc alloc.slots with
    | none => do
      free (some set)
      return none
    | some slots => do
      access set
      access slots
      let table ← code (ipsetBuild {} data)
      return table.map fun t => ⟨t, set, slots⟩

def ipsetFree : Option IpSetMem → Mem Unit
  | none => pure ()
  | some s => do
    access s.set
    free (some s.slots)
    free (some s.set)

/-- `struct mt_flowtab` as it is built, and the blocks it, its keys and its counters lie in. -/
structure FlowTabMem where
  table : FlowTab
  tab : Nat
  keys : Nat
  cnt : Nat

def flowtabBuildMem (alloc : FlowTabAlloc) (bits : UInt32) : Mem (Option FlowTabMem) := do
  match ← malloc alloc.tab with
  | none => return none
  | some tab => do
    let keys ← malloc alloc.keys
    let cnt ← malloc alloc.cnt
    match keys, cnt with
    | some keys, some cnt => do
      access tab
      return (flowtabBuild {} bits).map fun t => ⟨t, tab, keys, cnt⟩
    | keys, cnt => do
      free keys
      free cnt
      free (some tab)
      return none

def flowtabFree : Option FlowTabMem → Mem Unit
  | none => pure ()
  | some f => do
    access f.tab
    free (some f.keys)
    free (some f.cnt)
    free (some f.tab)

/-- What the context of a classifying loop points to. -/
structure LoopBlocks where
  dpi : Pointer
  tls : Pointer
  ioc : Option IpSetMem
  flowtab : Option FlowTabMem

namespace LoopBlocks

def pointers (b : LoopBlocks) : List Nat :=
  b.dpi.toList ++ b.tls.toList ++ (b.ioc.toList.flatMap fun s => [s.set, s.slots]) ++
    b.flowtab.toList.flatMap fun f => [f.tab, f.keys, f.cnt]

/-- A packet is classified; which of the tables that takes is left open. -/
def read (b : LoopBlocks) : Mem Unit := b.pointers.forM access

def release (b : LoopBlocks) : Mem Unit := do
  ipsetFree b.ioc
  flowtabFree b.flowtab
  free b.dpi
  free b.tls

end LoopBlocks

section Python
variable (ts : Nat)

def buildIocMem (alloc : IpSetAlloc) (addrSet : Option Bytes) : Mem (Option IpSetMem) :=
  match addrSet with
  | none => pure none
  | some data => if 4 ≤ data.length then ipsetBuildMem alloc data else pure none

/-- `c.flow_cutoff ? flowtab_build(20) : NULL` -/
def cutoffTableMem (alloc : FlowTabAlloc) (flowCutoff : UInt32) : Mem (Option FlowTabMem) :=
  if flowCutoff ≠ 0 then flowtabBuildMem alloc 20 else pure none

/-- Everything before the loop; `cleanup` is what a failing path does first. -/
def loopSetupMem (cleanup : Mem Unit) (profileError : String) (alloc : LoopAlloc)
    (args : LoopArgs) : Mem (Except PyExc (Classifier × LoopBlocks)) := do
  if args.l2Offset < 0 ∨ args.l2Offset > 64 then
    cleanup
    return .error (.valueError "l2_offset out of range [0,64]")
  else if args.profile ≠ 0 ∧ args.profile ≠ 1 then
    cleanup
    return .error (.valueError profileError)
  else
    match ← seqToPortsMem ts alloc.dpi args.dpiPorts with
    | .error e => do
      cleanup
      free none
      return .error e
    | .ok (dpi, dpiPorts) =>
      match ← seqToPortsMem ts alloc.tls args.tlsPorts with
      | .error e => do
        cleanup
        free dpi
        free none
        return .error e
      | .ok (tls, tlsPorts) => do
        let ioc ← buildIocMem alloc.ipset args.addrSet
        let flowCutoff := if args.flowCutoff > 0 then args.flowCutoff.toUInt32 else 0
        let flowtab ← cutoffTableMem alloc.flowtab flowCutoff
        return .ok
          (⟨args.cfgOf dpiPorts tlsPorts, ioc.map IpSetMem.table, flowtab.map FlowTabMem.table,
            flowCutoff⟩, ⟨dpi, tls, ioc, flowtab⟩)

end Python

/-! What each step keeps. -/

section Steps
variable {ts : Nat} {own : Multiset (Held × Nat)}

theorem keeps_malloc (own : Multiset (Held × Nat)) (ok : Bool) :
    Keeps own (malloc ok) (fun p => owned .block p + own) fun p => p.isSome = ok :=
  keeps_acquire own .block ok

theorem keeps_free (p : Pointer) :
    Keeps (owned .block p + own) (free p) (fun _ => own) fun _ => True := by
  cases p with
  | none => exact Keeps.pure trivial (zero_add own)
  | some n => exact keeps_release MemFault.dangling

theorem keeps_free_null : Keeps own (free none) (fun _ => own) fun _ => True :=
  Keeps.pure trivial rfl

theorem keeps_access {n : Nat} (hn : (.block, n) ∈ own) :
    Keeps own (access n) (fun _ => own) fun _ => True :=
  keeps_use MemFault.dangling hn

theorem keeps_code {α : Type} {x : Except Fault α} {a : α} (hx : x = .ok a) :
    Keeps own (code x) (fun _ => own) (· = a) := by
  apply keeps_lift
  rw [hx]
  rfl

/-- The GIL of `ts` and `own`. -/
def withGil (ts : Nat) (own : Multiset (Held × Nat)) : Multiset (Held × Nat) := {(.gil, ts)} + own

/-- `own` while the GIL is given up. -/
def withoutGil (ts : Nat) (own : Multiset (Held × Nat)) : Multiset (Held × Nat) :=
  {(.saved, ts)} + own

theorem mem_withGil : (.gil, ts) ∈ withGil ts own :=
  Multiset.mem_add.mpr (Or.inl (Multiset.mem_singleton_self _))

/-- A rule about `own` holds under the GIL, which it does not touch. -/
theorem underGil {α : Type} {m : Mem α} {post : α → Multiset (Held × Nat)} {val : α → Prop}
    (hm : Keeps own m post val) : Keeps (withGil ts own) m (fun a => withGil ts (post a)) val := by
  apply Keeps.of_eq (add_comm _ _)
  exact (hm.frame {(.gil, ts)}).weaken (fun a _ => add_comm _ _) fun a ha => ha

theorem offGil {α : Type} {m : Mem α} {post : α → Multiset (Held × Nat)} {val : α → Prop}
    (hm : Keeps own m post val) :
    Keeps (withoutGil ts own) m (fun a => withoutGil ts (post a)) val := by
  apply Keeps.of_eq (add_comm _ _)
  exact (hm.frame {(.saved, ts)}).weaken (fun a _ => add_comm _ _) fun a ha => ha

theorem keeps_newReference (own : Multiset (Held × Nat)) (ok : Bool) :
    Keeps (withGil ts own) (newReference ts ok) (fun p => withGil ts (owned .reference p + own))
      fun p => p.isSome = ok := by
  unfold newReference
  apply Keeps.seq (keeps_use MemFault.noGil mem_withGil)
  exact underGil (keeps_acquire own .reference ok)

theorem keeps_pyDecref (n : Nat) :
    Keeps (withGil ts ({(.reference, n)} + own)) (pyDecref ts (some n)) (fun _ => withGil ts own)
      fun _ => True := by
  unfold pyDecref
  apply Keeps.seq (keeps_use MemFault.noGil mem_withGil)
  exact underGil (keeps_release MemFault.dangling)

theorem keeps_pyXdecref (p : Pointer) :
    Keeps (withGil ts (owned .reference p + own)) (pyXdecref ts p) (fun _ => withGil ts own)
      fun _ => True := by
  cases p with
  | none => exact Keeps.pure trivial (congrArg (withGil ts) (zero_add own))
  | some n => exact keeps_pyDecref n

theorem faults_pyDecref_null : Faults .nullPointer own (pyDecref ts none) := fun _ _ _ _ => rfl

theorem keeps_saveThread (own : Multiset (Held × Nat)) :
    Keeps (withGil ts own) (saveThread ts) (fun _ => withoutGil ts own) fun _ => True :=
  keeps_turn MemFault.noGil

theorem keeps_restoreThread (own : Multiset (Held × Nat)) :
    Keeps (withoutGil ts own) (restoreThread ts) (fun _ => withGil ts own) fun _ => True :=
  keeps_turn MemFault.noGil

end Steps

/-! Setting up a run. -/

section Setup
variable {ts : Nat} {own : Multiset (Held × Nat)}

/-- What the caller of `seq_to_ports` has to free. -/
def portsOwned : Except PyExc (Pointer × List UInt16) → Multiset (Held × Nat)
  | .error _ => 0
  | .ok (ports, _) => owned .block ports

theorem keeps_fillPorts (fast ports : Nat) (items : List (Except PyExc Int64)) :
    Keeps (withGil ts ({(.block, ports)} + ({(.reference, fast)} + own)))
      (fillPorts ts (some fast) ports items)
      (fun r => withGil ts
        (if r.isOk then {(.block, ports)} + ({(.reference, fast)} + own) else own))
      fun r => r = (items.mapM id).map fun vs => vs.map portOf := by
  induction items with
  | nil => exact Keeps.pure rfl rfl
  | cons item items ih =>
    cases item with
    | error e =>
      apply Keeps.seq (underGil (keeps_free (some ports)))
      apply Keeps.seq (keeps_pyDecref fast)
      exact Keeps.pure rfl rfl
    | ok v =>
      apply Keeps.seq (keeps_access (by simp [withGil]))
      apply Keeps.bind ih
      intro r hr
      have hcons : ((.ok v :: items : List (Except PyExc Int64)).mapM id).map (List.map portOf) =
          ((items.mapM id).map (List.map portOf)).map (portOf v :: ·) := by
        rw [List.mapM_cons]
        cases items.mapM id <;> rfl
      rw [hcons, ← hr]
      cases r with
      | error e => exact Keeps.pure rfl rfl
      | ok vs => exact Keeps.pure rfl rfl

theorem keeps_seqToPorts (ok : Bool) (seq : Option PySeq) :
    Keeps (withGil ts own) (seqToPortsMem ts ok seq) (fun r => withGil ts (portsOwned r + own))
      fun r => seqToPorts ok seq = r.map Prod.snd := by
  have hnone : own = portsOwned (.ok (none, [])) + own := (zero_add own).symm
  have herror : ∀ e, own = portsOwned (.error e) + own := fun _ => (zero_add own).symm
  rcases seq with - | - | items
  · exact Keeps.pure rfl (congrArg (withGil ts) hnone)
  · exact Keeps.pure rfl (congrArg (withGil ts) (herror _))
  unfold seqToPortsMem
  apply Keeps.bind (keeps_newReference own true)
  intro fast hfast
  obtain ⟨fast, rfl⟩ := Option.isSome_iff_exists.mp hfast
  cases items with
  | nil =>
    apply Keeps.seq (keeps_pyDecref fast)
    exact Keeps.pure rfl (congrArg (withGil ts) hnone)
  | cons item items =>
    apply Keeps.bind (underGil (keeps_malloc _ ok))
    intro ports hports
    cases ports with
    | none =>
      subst hports
      apply Keeps.of_eq (congrArg (withGil ts) (zero_add _))
      apply Keeps.seq (keeps_pyDecref fast)
      exact Keeps.pure rfl (congrArg (withGil ts) (herror _))
    | some ports =>
      subst hports
      apply Keeps.bind (keeps_fillPorts fast ports (item :: items))
      intro r hr
      have hseq : seqToPorts true (some (.items (item :: items))) =
          r.map fun vs => vs.take (UInt32.ofNat vs.length).toNat := by
        rw [hr, seqToPorts]
        simp only [Bool.not_true, Bool.false_eq_true, if_false]
        cases (item :: items).mapM id with
        | error e => rfl
        | ok vs => simp [Except.map, bind, Except.bind, pure, Except.pure]
      cases r with
      | error e => exact Keeps.pure hseq (congrArg (withGil ts) (herror _))
      | ok vs =>
        apply Keeps.of_eq (congrArg (withGil ts) (add_left_comm _ _ _))
        apply Keeps.seq (keeps_pyDecref fast)
        exact Keeps.pure hseq rfl

end Setup

/-! The tables and what points to them. -/

namespace IpSetMem

def own : Option IpSetMem → Multiset (Held × Nat)
  | none => 0
  | some s => {(.block, s.set)} + {(.block, s.slots)}

end IpSetMem

namespace FlowTabMem

def own : Option FlowTabMem → Multiset (Held × Nat)
  | none => 0
  | some f => {(.block, f.tab)} + ({(.block, f.keys)} + {(.block, f.cnt)})

end FlowTabMem

def LoopBlocks.own (b : LoopBlocks) : Multiset (Held × Nat) :=
  IpSetMem.own b.ioc + (FlowTabMem.own b.flowtab + (owned .block b.dpi + owned .block b.tls))

section Tables
variable {own : Multiset (Held × Nat)}

theorem keeps_ipsetBuild (alloc : IpSetAlloc) {data : Bytes} (hsmall : data.length / 4 ≤ 2 ^ 30) :
    Keeps own (ipsetBuildMem alloc data) (fun s => IpSetMem.own s + own)
      fun s => ipsetBuild alloc data = .ok (s.map IpSetMem.table) := by
  obtain ⟨t, ht, -⟩ := ipsetBuild_spec data hsmall
  unfold ipsetBuildMem
  apply Keeps.bind (keeps_malloc own alloc.set)
  intro set hset
  cases set with
  | none =>
    have hne : alloc ≠ {} := fun h => by simp [h] at hset
    exact Keeps.pure (ipsetBuild_starved hne data) rfl
  | some set =>
    apply Keeps.bind (keeps_malloc _ alloc.slots)
    intro slots hslots
    cases slots with
    | none =>
      have hne : alloc ≠ {} := fun h => by simp [h] at hslots
      apply Keeps.of_eq (zero_add _)
      apply Keeps.seq (keeps_free (some set))
      exact Keeps.pure (ipsetBuild_starved hne data) (zero_add own).symm
    | some slots =>
      have hboth : alloc = {} := by
        cases alloc
        simp_all
      subst hboth
      apply Keeps.seq (keeps_access (by simp))
      apply Keeps.seq (keeps_access (by simp))
      apply Keeps.bind (keeps_code ht)
      intro table htable
      rw [htable]
      refine Keeps.pure ht ?_
      change _ = {(Held.block, set)} + {(Held.block, slots)} + own
      rw [owned_some, owned_some, add_left_comm, add_assoc]

theorem keeps_flowtabBuild (alloc : FlowTabAlloc) (bits : UInt32) :
    Keeps own (flowtabBuildMem alloc bits) (fun f => FlowTabMem.own f + own)
      fun f => f.map FlowTabMem.table = flowtabBuild alloc bits := by
  have hnone : own = FlowTabMem.own none + own := (zero_add own).symm
  unfold flowtabBuildMem
  apply Keeps.bind (keeps_malloc own alloc.tab)
  intro tab htab
  cases tab with
  | none =>
    have hne : alloc ≠ {} := fun h => by simp [h] at htab
    exact Keeps.pure (flowtabBuild_starved hne bits).symm rfl
  | some tab =>
    apply Keeps.bind (keeps_malloc _ alloc.keys)
    intro keys hkeys
    apply Keeps.bind (keeps_malloc _ alloc.cnt)
    intro cnt hcnt
    have hfreed : Keeps (owned .block cnt + (owned .block keys + (owned .block (some tab) + own)))
        (do
          free keys
          free cnt
          free (some tab)
          return none : Mem (Option FlowTabMem)) (fun f => FlowTabMem.own f + own) (· = none) := by
      apply Keeps.of_eq (add_left_comm _ _ _)
      apply Keeps.seq (keeps_free keys)
      apply Keeps.seq (keeps_free cnt)
      apply Keeps.seq (keeps_free (some tab))
      exact Keeps.pure rfl hnone
    rcases keys with - | keys
    · apply hfreed.weaken (fun _ _ => rfl)
      intro f hf
      have hne : alloc ≠ {} := fun h => by simp [h] at hkeys
      rw [hf, flowtabBuild_starved hne]
      rfl
    rcases cnt with - | cnt
    · apply hfreed.weaken (fun _ _ => rfl)
      intro f hf
      have hne : alloc ≠ {} := fun h => by simp [h] at hcnt
      rw [hf, flowtabBuild_starved hne]
      rfl
    apply Keeps.seq (keeps_access (by simp))
    have hall : alloc = {} := by
      cases alloc
      simp_all
    subst hall
    refine Keeps.pure rfl ?_
    change _ = {(Held.block, tab)} + ({(Held.block, keys)} + {(Held.block, cnt)}) + own
    simp only [owned_some]
    abel

theorem keeps_ipsetFree (s : Option IpSetMem) :
    Keeps (IpSetMem.own s + own) (ipsetFree s) (fun _ => own) fun _ => True := by
  cases s with
  | none => exact Keeps.pure trivial (zero_add own)
  | some s =>
    have hswap : IpSetMem.own (some s) + own =
        owned .block (some s.slots) + (owned .block (some s.set) + own) := by
      change {(Held.block, s.set)} + {(Held.block, s.slots)} + own = _
      rw [owned_some, owned_some, add_left_comm, add_assoc]
    apply Keeps.of_eq hswap
    apply Keeps.seq (keeps_access (by simp))
    apply Keeps.seq (keeps_free (some s.slots))
    exact keeps_free (some s.set)

theorem keeps_flowtabFree (f : Option FlowTabMem) :
    Keeps (FlowTabMem.own f + own) (flowtabFree f) (fun _ => own) fun _ => True := by
  cases f with
  | none => exact Keeps.pure trivial (zero_add own)
  | some f =>
    have hswap : FlowTabMem.own (some f) + own = owned .block (some f.keys) +
        (owned .block (some f.cnt) + (owned .block (some f.tab) + own)) := by
      change {(Held.block, f.tab)} + ({(Held.block, f.keys)} + {(Held.block, f.cnt)}) + own = _
      simp only [owned_some]
      abel
    apply Keeps.of_eq hswap
    apply Keeps.seq (keeps_access (by simp))
    apply Keeps.seq (keeps_free (some f.keys))
    apply Keeps.seq (keeps_free (some f.cnt))
    exact keeps_free (some f.tab)

theorem keeps_release_blocks (b : LoopBlocks) :
    Keeps (b.own + own) b.release (fun _ => own) fun _ => True := by
  unfold LoopBlocks.own LoopBlocks.release
  simp only [add_assoc]
  apply Keeps.seq (keeps_ipsetFree b.ioc)
  apply Keeps.seq (keeps_flowtabFree b.flowtab)
  apply Keeps.seq (keeps_free b.dpi)
  exact keeps_free b.tls

theorem pointers_owned {b : LoopBlocks} {n : Nat} (hn : n ∈ b.pointers) : (.block, n) ∈ b.own := by
  rcases b with ⟨dpi, tls, ioc, flowtab⟩
  simp only [LoopBlocks.pointers, List.mem_append, List.mem_flatMap, Option.mem_toList] at hn
  simp only [LoopBlocks.own, Multiset.mem_add]
  rcases hn with ((rfl | rfl) | ⟨s, rfl, hs⟩) | ⟨f, rfl, hf⟩
  · simp
  · simp
  · left
    simpa [IpSetMem.own] using hs
  · right; left
    simpa [FlowTabMem.own, or_left_comm] using hf

theorem keeps_accesses {ns : List Nat} (h : ∀ n ∈ ns, (.block, n) ∈ own) :
    Keeps own (ns.forM access) (fun _ => own) fun _ => True := by
  induction ns with
  | nil => exact Keeps.pure trivial rfl
  | cons n ns ih =>
    apply Keeps.seq (keeps_access (h n (by simp)))
    exact ih fun k hk => h k (List.mem_cons_of_mem n hk)

theorem keeps_read (b : LoopBlocks) :
    Keeps (b.own + own) b.read (fun _ => b.own + own) fun _ => True := by
  apply keeps_accesses
  intro n hn
  exact Multiset.mem_add.mpr (Or.inl (pointers_owned hn))

end Tables

section Setup
variable {ts : Nat} {own : Multiset (Held × Nat)}

theorem keeps_buildIoc (alloc : IpSetAlloc) {addrSet : Option Bytes}
    (hsmall : ∀ data, addrSet = some data → data.length / 4 ≤ 2 ^ 30) :
    Keeps own (buildIocMem alloc addrSet) (fun s => IpSetMem.own s + own)
      fun s => ∀ lalloc : LoopAlloc, lalloc.ipset = alloc →
        buildIoc lalloc addrSet = .ok (s.map IpSetMem.table) := by
  have hnone : own = IpSetMem.own none + own := (zero_add own).symm
  unfold buildIocMem buildIoc
  cases addrSet with
  | none => exact Keeps.pure (fun _ _ => rfl) hnone
  | some data =>
    by_cases hlen : 4 ≤ data.length
    · simp only [if_pos hlen]
      apply (keeps_ipsetBuild alloc (hsmall data rfl)).weaken (fun _ _ => rfl)
      intro s hs lalloc hl
      rw [hl, hs]
    · simp only [if_neg hlen]
      exact Keeps.pure (fun _ _ => rfl) hnone

theorem keeps_cutoffTable (alloc : FlowTabAlloc) (flowCutoff : UInt32) :
    Keeps own (cutoffTableMem alloc flowCutoff) (fun f => FlowTabMem.own f + own)
      fun f => f.map FlowTabMem.table = if flowCutoff ≠ 0 then flowtabBuild alloc 20 else none := by
  unfold cutoffTableMem
  split
  · exact keeps_flowtabBuild alloc 20
  · exact Keeps.pure rfl (zero_add own).symm

/-- What is owned behind the set-up: nothing, or the tables and what `cleanup` gives back. -/
def setupOwned (extra : Multiset (Held × Nat)) :
    Except PyExc (Classifier × LoopBlocks) → Multiset (Held × Nat)
  | .error _ => 0
  | .ok (_, b) => b.own + extra

theorem keeps_loopSetup {extra : Multiset (Held × Nat)} {cleanup : Mem Unit}
    (hcleanup : ∀ own,
      Keeps (withGil ts (extra + own)) cleanup (fun _ => withGil ts own) fun _ => True)
    (text : String) (alloc : LoopAlloc) {args : LoopArgs}
    (hsmall : ∀ data, args.addrSet = some data → data.length / 4 ≤ 2 ^ 30) :
    Keeps (withGil ts (extra + own)) (loopSetupMem ts cleanup text alloc args)
      (fun r => withGil ts (setupOwned extra r + own))
      fun r => loopSetup text alloc args = .ok (r.map Prod.fst) := by
  have hraise : ∀ e, own = setupOwned extra (.error e) + own := fun _ => (zero_add own).symm
  unfold loopSetupMem loopSetup classCfg
  by_cases hoff : args.l2Offset < 0 ∨ args.l2Offset > 64
  · simp only [if_pos hoff]
    apply Keeps.seq (hcleanup own)
    exact Keeps.pure rfl (congrArg (withGil ts) (hraise _))
  simp only [if_neg hoff]
  by_cases hprof : args.profile ≠ 0 ∧ args.profile ≠ 1
  · simp only [if_pos hprof]
    apply Keeps.seq (hcleanup own)
    exact Keeps.pure rfl (congrArg (withGil ts) (hraise _))
  simp only [if_neg hprof]
  apply Keeps.bind (keeps_seqToPorts alloc.dpi args.dpiPorts)
  intro dpi hdpi
  cases dpi with
  | error e =>
    apply Keeps.of_eq (congrArg (withGil ts) (zero_add _))
    apply Keeps.seq (hcleanup own)
    apply Keeps.seq (keeps_free_null)
    refine Keeps.pure ?_ (congrArg (withGil ts) (hraise e))
    rw [hdpi]
    rfl
  | ok dpi =>
    rcases dpi with ⟨dpi, dpiPorts⟩
    apply Keeps.bind (keeps_seqToPorts alloc.tls args.tlsPorts)
    intro tls htls
    cases tls with
    | error e =>
      apply Keeps.of_eq (congrArg (withGil ts) ((zero_add _).trans (add_left_comm _ _ _)))
      apply Keeps.seq (hcleanup _)
      apply Keeps.seq (underGil (keeps_free dpi))
      apply Keeps.seq (keeps_free_null)
      refine Keeps.pure ?_ (congrArg (withGil ts) (hraise e))
      rw [hdpi, htls]
      rfl
    | ok tls =>
      rcases tls with ⟨tls, tlsPorts⟩
      apply Keeps.bind (underGil (keeps_buildIoc alloc.ipset hsmall))
      intro ioc hioc
      apply Keeps.bind (underGil (keeps_cutoffTable alloc.flowtab _))
      intro flowtab hflowtab
      refine Keeps.pure ?_ (congrArg (withGil ts) ?_)
      · simp only [hdpi, htls, hioc alloc rfl, hflowtab, bind, Except.bind]
        rfl
      · change _ = (LoopBlocks.own _ + extra) + own
        unfold LoopBlocks.own portsOwned
        abel

end Setup

end PcapyNg
