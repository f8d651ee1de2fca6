import PcapyNg.Library.Ownership
import PcapyNg.PcapObject

/-!
# Owners of captures and filter programs

libpcap allocates a `pcap_t` for every capture and code for every compiled filter. A Reader is to
own one `pcap_t`, which `close` or its deallocation closes, and a BPFProgram the code that its
deallocation frees; `compile` and `setfilter` hold others in local variables. Any libpcap call and
any allocation may fail.
-/

namespace PcapyNg
open Ownership
set_option autoImplicit false

/-- What libpcap allocates. The number stands for one allocation and is not used again. -/
inductive Resource where
  | pcap (pt : Nat)
  | code (bpf : Nat)
  deriving DecidableEq

def Resource.number : Resource → Nat
  | pcap pt => pt
  | code bpf => bpf

/-- A libpcap call: what it is called on and what it allocates, none where it fails. -/
inductive PcapCall where
  | openLive (pt : Option Nat)
  | create (pt : Option Nat)
  | openOffline (pt : Option Nat)
  | openDead (pp : Option Nat)
  | compile (pp : Nat) (bpf : Option Nat)
  | compileNopcap (bpf : Option Nat)
  | setfilter (pp : Nat) (bpf : Nat)
  | geterr (pp : Nat)
  | close (pp : Nat)
  | freecode (bpf : Nat)
  deriving DecidableEq

def gives (kind : Nat → Resource) : Option Nat → List (Event Resource)
  | none => []
  | some n => [.acquired (kind n)]

/-- `pcap_setfilter` copies the program: it uses the code and does not keep it. -/
def PcapCall.events : PcapCall → List (Event Resource)
  | openLive pt => gives .pcap pt
  | create pt => gives .pcap pt
  | openOffline pt => gives .pcap pt
  | openDead pp => gives .pcap pp
  | compile pp bpf => .used (.pcap pp) :: gives .code bpf
  | compileNopcap bpf => gives .code bpf
  | setfilter pp bpf => [.used (.pcap pp), .used (.code bpf)]
  | geterr pp => [.used (.pcap pp)]
  | close pp => [.released (.pcap pp)]
  | freecode bpf => [.released (.code bpf)]

/-- The field of a live `pcapobject` or `bpfobject`. -/
inductive PyObj where
  | reader (pcap : Option Nat)
  | program (bpf : Nat)
  deriving DecidableEq

def PyObj.resource : PyObj → Option Resource
  | reader pcap => pcap.map .pcap
  | program bpf => some (.code bpf)

/-- The libpcap calls made, the live objects, and the first number not given to anything. -/
structure World where
  calls : List PcapCall := []
  heap : Nat → Option PyObj := fun _ => none
  next : Nat := 0

/-- What a call meets: the exception of its arguments, of `PyType_Ready`, and what fails. -/
structure Choices where
  args : Option PyExc := none
  opens : Bool := true
  compiles : Bool := true
  sets : Bool := true
  /-- the text of `errbuff` or of `pcap_geterr` -/
  text : String := ""
  typeReady : Option PyExc := none
  memory : Bool := true

namespace World

def trace (w : World) : List (Event Resource) := w.calls.flatMap PcapCall.events

def held (w : World) (o : Nat) : Option Resource := (w.heap o).bind PyObj.resource

def call (w : World) (c : PcapCall) : World := { w with calls := w.calls ++ [c] }

def fresh (w : World) : World := { w with next := w.next + 1 }

def set (w : World) (o : Nat) (obj : Option PyObj) : World :=
  { w with heap := Function.update w.heap o obj }

/-- A libpcap call that allocates, and what it gives. -/
def acquire (w : World) (c : Option Nat → PcapCall) (ok : Bool) : World × Option Nat :=
  if ok then (w.fresh.call (c (some w.next)), some w.next) else (w.call (c none), none)

/-- `PyType_Ready`, then `PyObject_New` and the assignment of the fields. -/
def newObject (w : World) (ch : Choices) (noMemory : PyExc) (obj : PyObj) :
    World × PyOutcome Nat :=
  match ch.typeReady with
  | some e => (w, .raise e)
  | none =>
    if ch.memory then (w.fresh.set w.next (some obj), .ret w.next) else (w, .raise noMemory)

def newPcapobject (w : World) (ch : Choices) (pcap : Nat) : World × PyOutcome Nat :=
  w.newObject ch .memoryError (.reader (some pcap))

def newBpfobject (w : World) (ch : Choices) (bpfprog : Nat) : World × PyOutcome Nat :=
  w.newObject ch (.bpfError "Failed to create object") (.program bpfprog)

def openWith (c : Option Nat → PcapCall) (w : World) (ch : Choices) : World × PyOutcome Nat :=
  match ch.args with
  | some e => (w, .raise e)
  | none =>
    match w.acquire c ch.opens with
    | (w, none) => (w, .raise (.pcapError ch.text))
    | (w, some pt) => w.newPcapobject ch pt

def openLive (w : World) (ch : Choices) : World × PyOutcome Nat := openWith .openLive w ch

def pcapCreate (w : World) (ch : Choices) : World × PyOutcome Nat := openWith .create w ch

def openOffline (w : World) (ch : Choices) : World × PyOutcome Nat := openWith .openOffline w ch

def bpfCompile (w : World) (ch : Choices) : World × PyOutcome Nat :=
  match ch.args with
  | some e => (w, .raise e)
  | none =>
    match w.acquire .openDead ch.opens with
    -- NULL without an exception
    | (w, none) => (w, ⟨none, none⟩)
    | (w, some pp) =>
      match w.acquire (.compile pp) ch.compiles with
      -- `pcap_geterr(pp)` stands behind `pcap_close(pp)`
      | (w, none) => ((w.call (.close pp)).call (.geterr pp), .raise (.pcapError ch.text))
      | (w, some bpf) => (w.call (.close pp)).newBpfobject ch bpf

def pNewBpfobject (w : World) (ch : Choices) : World × PyOutcome Nat :=
  match ch.args with
  | some e => (w, .raise e)
  | none =>
    match w.acquire .compileNopcap ch.compiles with
    | (w, none) => (w, .raise (.bpfError "Couldn't compile BPF program"))
    | (w, some bpf) => w.newBpfobject ch bpf

def pSetfilter (w : World) (o : Nat) (ch : Choices) : World × PyOutcome Unit :=
  match w.heap o with
  | some (.reader none) => (w, .raise errClosed)
  | some (.reader (some pp)) =>
    match ch.args with
    | some e => (w, .raise e)
    | none =>
      match w.acquire (.compile pp) ch.compiles with
      | (w, none) => (w.call (.geterr pp), .raise (.pcapError ch.text))
      | (w, some bpf) =>
        if ch.sets then (w.call (.setfilter pp bpf), .ret ())
        else ((w.call (.setfilter pp bpf)).call (.geterr pp), .raise (.pcapError ch.text))
  | _ => (w, .raise (.pcapError "Not a pcap object"))

/-- `close` of an object that is no live Reader is not a call of this method. -/
def pClose (w : World) (o : Nat) : World × PyOutcome Unit :=
  match w.heap o with
  | some (.reader (some pp)) => ((w.call (.close pp)).set o (some (.reader none)), .ret ())
  | _ => (w, .ret ())

def pcapDealloc (w : World) (o : Nat) : World := (w.pClose o).1.set o none

def bpfprogDealloc (w : World) (o bpf : Nat) : World := (w.call (.freecode bpf)).set o none

/-- `tp_dealloc` of the object's type. -/
def dealloc (w : World) (o : Nat) : World :=
  match w.heap o with
  | some (.reader _) => w.pcapDealloc o
  | some (.program bpf) => w.bpfprogDealloc o bpf
  | none => w

end World

inductive BindingCall where
  | openLive (ch : Choices)
  | create (ch : Choices)
  | openOffline (ch : Choices)
  | compile (ch : Choices)
  | bpfProgram (ch : Choices)
  | setfilter (o : Nat) (ch : Choices)
  | close (o : Nat)
  | dealloc (o : Nat)

def World.after (w : World) : BindingCall → World
  | .openLive ch => (w.openLive ch).1
  | .create ch => (w.pcapCreate ch).1
  | .openOffline ch => (w.openOffline ch).1
  | .compile ch => (w.bpfCompile ch).1
  | .bpfProgram ch => (w.pNewBpfobject ch).1
  | .setfilter o ch => (w.pSetfilter o ch).1
  | .close o => (w.pClose o).1
  | .dealloc o => w.dealloc o

/-- `o` is a live object that has `r`, and its deallocation releases it. -/
def World.Owner (w : World) (o : Nat) (r : Resource) : Prop :=
  w.held o = some r ∧ (w.dealloc o).trace = w.trace ++ [.released r]

/-- Nothing is used or released after its release, and whatever was allocated has been released
once or has one owner. -/
structure World.OneOwner (w : World) : Prop where
  sound : Sound w.trace
  accounted : Accounted w.trace w.Owner

/-- When each of the calls returns. -/
def OneOwnerEach (w : World) : List BindingCall → Prop
  | [] => True
  | c :: cs => (w.after c).OneOwner ∧ OneOwnerEach (w.after c) cs

/-! When that is so. -/

def Choices.MakesObject (ch : Choices) : Prop := ch.typeReady = none ∧ ch.memory = true

/-- No object lacks its memory once libpcap has allocated, `compile` compiles what it is given,
and `setfilter` compiles nothing for an open Reader. -/
def Spares (w : World) : BindingCall → Prop
  | .openLive ch | .create ch | .openOffline ch =>
    ch.args = none → ch.opens = true → ch.MakesObject
  | .compile ch => ch.args = none → ch.opens = true → ch.compiles = true ∧ ch.MakesObject
  | .bpfProgram ch => ch.args = none → ch.compiles = true → ch.MakesObject
  | .setfilter o ch =>
    ch.args = none → ch.compiles = true → ∀ pp, w.heap o ≠ some (.reader (some pp))
  | .close _ => True
  | .dealloc _ => True

def SparesEach (w : World) : List BindingCall → Prop
  | [] => True
  | c :: cs => Spares w c ∧ SparesEach (w.after c) cs

/-- Between two calls `loose` is empty; within one it holds what the local variables own. -/
structure World.Inv (w : World) (loose : List Resource) : Prop where
  kept : Kept w.trace w.held loose
  below : ∀ r, .acquired r ∈ w.trace → r.number < w.next
  unborn : ∀ o, w.next ≤ o → w.heap o = none

namespace World

section Parts
variable {w : World} {c : PcapCall} {o : Nat} {obj : PyObj} {r : Resource}

@[simp] theorem trace_call : (w.call c).trace = w.trace ++ c.events := by
  simp only [trace, call, List.flatMap_append, List.flatMap_singleton]

theorem held_set {obj : Option PyObj} :
    (w.set o obj).held = Function.update w.held o (obj.bind PyObj.resource) := by
  funext o'
  by_cases ho : o' = o
  · subst ho
    simp only [held, set, Function.update_self]
  · simp only [held, set, Function.update_of_ne ho]

theorem held_cases (h : w.held o = some r) :
    (∃ pp, w.heap o = some (.reader (some pp)) ∧ r = .pcap pp) ∨
      ∃ bpf, w.heap o = some (.program bpf) ∧ r = .code bpf := by
  obtain ⟨obj, hobj, hr⟩ := Option.bind_eq_some_iff.mp h
  cases obj with
  | reader pcap =>
    obtain ⟨pp, hpp, hr⟩ := Option.map_eq_some_iff.mp hr
    exact Or.inl ⟨pp, by rw [hobj, hpp], hr.symm⟩
  | program bpf => exact Or.inr ⟨bpf, hobj, (Option.some.inj hr).symm⟩

/-- The deallocation of an owner releases what it has. -/
theorem dealloc_trace (h : w.held o = some r) :
    (w.dealloc o).trace = w.trace ++ [.released r] := by
  rcases held_cases h with hex | hex
  · rcases hex with ⟨pp, hheap, rfl⟩
    simp only [dealloc, pcapDealloc, pClose, hheap]
    exact trace_call
  · rcases hex with ⟨bpf, hheap, rfl⟩
    simp only [dealloc, bpfprogDealloc, hheap]
    exact trace_call

theorem owner_iff : w.Owner o r ↔ w.held o = some r :=
  ⟨fun h => h.1, fun h => ⟨h, dealloc_trace h⟩⟩

end Parts

namespace Inv
variable {w : World} {loose : List Resource} {r : Resource} {o : Nat}

theorem start : ({} : World).Inv [] where
  kept := Kept.start
  below := nofun
  unborn _ _ := rfl

theorem oneOwner (h : w.Inv []) : w.OneOwner :=
  ⟨h.kept.sound, h.kept.accounted fun _ _ => owner_iff⟩

theorem not_oneOwner (h : w.Inv (r :: loose)) : ¬ w.OneOwner :=
  fun hone => h.kept.not_accounted (fun _ _ => owner_iff) hone.accounted

theorem use (h : w.Inv loose) (c : PcapCall) (rs : List Resource) (hc : c.events = rs.map .used)
    (hlive : ∀ r ∈ rs, Live w.trace r) : (w.call c).Inv loose where
  kept := by
    rw [trace_call, hc]
    exact h.kept.useAll hlive
  below r hr := by
    rw [trace_call, hc] at hr
    rcases List.mem_append.mp hr with hr | hr
    · exact h.below r hr
    · obtain ⟨r', -, heq⟩ := List.mem_map.mp hr
      cases heq
  unborn := h.unborn

/-- A libpcap call that uses `rs` and allocates. -/
theorem acquire (h : w.Inv loose) (c : PcapCall) (rs : List Resource) (kind : Nat → Resource)
    (hc : c.events = rs.map .used ++ [.acquired (kind w.next)])
    (hkind : (kind w.next).number = w.next) (hlive : ∀ r ∈ rs, Live w.trace r) :
    (w.fresh.call c).Inv (kind w.next :: loose) where
  kept := by
    rw [trace_call, hc, ← List.append_assoc]
    apply (h.kept.useAll hlive).acquire
    intro hmem
    rcases List.mem_append.mp hmem with hmem | hmem
    · have hlt := h.below _ hmem
      omega
    · obtain ⟨r', -, heq⟩ := List.mem_map.mp hmem
      cases heq
  below r hr := by
    rw [trace_call, hc, ← List.append_assoc] at hr
    rcases List.mem_append.mp hr with hr | hr
    · rcases List.mem_append.mp hr with hr | hr
      · exact Nat.lt_succ_of_lt (h.below r hr)
      · obtain ⟨r', -, heq⟩ := List.mem_map.mp hr
        cases heq
    · cases List.mem_singleton.mp hr
      rw [hkind]
      exact Nat.lt_succ_self w.next
  unborn o ho := h.unborn o (Nat.le_of_succ_le ho)

theorem perm (h : w.Inv loose) {loose' : List Resource} (hp : loose.Perm loose') :
    w.Inv loose' :=
  ⟨h.kept.perm hp, h.below, h.unborn⟩

theorem release (h : w.Inv (r :: loose)) (c : PcapCall) (hc : c.events = [.released r]) :
    (w.call c).Inv loose where
  kept := by
    rw [trace_call, hc]
    exact h.kept.release
  below r' hr' := by
    rw [trace_call, hc] at hr'
    rcases List.mem_append.mp hr' with hr' | hr'
    · exact h.below r' hr'
    · cases List.mem_singleton.mp hr'
  unborn := h.unborn

/-- A new object becomes the owner. -/
theorem store (h : w.Inv (r :: loose)) {obj : PyObj} (hobj : obj.resource = some r) :
    (w.fresh.set w.next (some obj)).Inv loose where
  kept := by
    rw [held_set, Option.bind_some, hobj]
    exact h.kept.give (by rw [held, h.unborn w.next (Nat.le_refl _), Option.bind_none])
  below r' hr' := Nat.lt_succ_of_lt (h.below r' hr')
  unborn o ho := by
    have hne : o ≠ w.next := Nat.ne_of_gt ho
    exact (Function.update_of_ne hne _ _).trans (h.unborn o (Nat.le_of_succ_le ho))

theorem set_unborn (h : w.Inv loose) {obj : Option PyObj} (ho : w.heap o ≠ none) :
    ∀ o', w.next ≤ o' → (w.set o obj).heap o' = none := by
  intro o' ho'
  have hne : o' ≠ o := by
    intro heq
    exact ho (heq ▸ h.unborn o' ho')
  exact (Function.update_of_ne hne _ _).trans (h.unborn o' ho')

/-- The owner is set to something that owns nothing. -/
theorem take (h : w.Inv loose) (ho : w.held o = some r) (obj : Option PyObj)
    (hobj : obj.bind PyObj.resource = none) : (w.set o obj).Inv (r :: loose) where
  kept := by
    rw [held_set, hobj]
    exact h.kept.take ho
  below := h.below
  unborn := by
    apply h.set_unborn
    intro hnone
    rw [held, hnone] at ho
    cases ho

theorem forget (h : w.Inv loose) (ho : w.held o = none) (hheap : w.heap o ≠ none)
    {obj : Option PyObj} (hobj : obj.bind PyObj.resource = none) : (w.set o obj).Inv loose where
  kept := by
    rw [held_set, hobj, ← ho, Function.update_eq_self]
    exact h.kept
  below := h.below
  unborn := h.set_unborn hheap

theorem live (h : w.Inv loose) (ho : w.held o = some r) : ∀ r' ∈ [r], Live w.trace r' := by
  intro r' hr'
  rw [List.mem_singleton.mp hr']
  exact h.kept.held_live o r ho

end Inv

section Calls
variable {w : World} {o : Nat} {ch : Choices}

theorem inv_pClose (h : w.Inv []) : (w.pClose o).1.Inv [] := by
  unfold pClose
  split
  · next pp hheap =>
    have ho : w.held o = some (.pcap pp) := by rw [held, hheap]; rfl
    exact (h.take ho (some (.reader none)) rfl).release (.close pp) rfl
  · exact h

theorem heap_pClose {pcap : Option Nat} (hheap : w.heap o = some (.reader pcap)) :
    (w.pClose o).1.heap o = some (.reader none) := by
  cases pcap with
  | none => simp only [pClose, hheap]
  | some pp => simp only [pClose, hheap, set, Function.update_self]

theorem inv_dealloc (h : w.Inv []) : (w.dealloc o).Inv [] := by
  unfold dealloc
  split
  · next pcap hheap =>
    have hclosed := heap_pClose hheap
    apply (inv_pClose h).forget _ _ rfl
    · rw [held, hclosed]
      rfl
    · rw [hclosed]
      exact Option.some_ne_none _
  · next bpf hheap =>
    have ho : w.held o = some (.code bpf) := by rw [held, hheap]; rfl
    exact (h.take ho none rfl).release (.freecode bpf) rfl
  · exact h

/-- A call that spares leaves nothing loose, and any other breaks the rule. -/
def Verdict (spares : Prop) (w : World) : Prop := spares ∧ w.Inv [] ∨ ¬ spares ∧ ¬ w.OneOwner

theorem Verdict.congr {p q : Prop} (h : Verdict p w) (hpq : p ↔ q) : Verdict q w := by
  rw [← propext hpq]
  exact h

theorem newObject_verdict {r : Resource} {e : PyExc} {obj : PyObj} (h : w.Inv [r])
    (hobj : obj.resource = some r) : Verdict ch.MakesObject (w.newObject ch e obj).1 := by
  unfold newObject
  split
  · next e' htype =>
    refine Or.inr ⟨?_, h.not_oneOwner⟩
    intro hmakes
    rw [hmakes.1] at htype
    cases htype
  · next htype =>
    split
    · next hmemory => exact Or.inl ⟨⟨htype, hmemory⟩, h.store hobj⟩
    · next hmemory => exact Or.inr ⟨fun hmakes => hmemory hmakes.2, h.not_oneOwner⟩

theorem openWith_verdict {c : Option Nat → PcapCall} (hc : ∀ pt, (c pt).events = gives .pcap pt)
    (h : w.Inv []) :
    Verdict (ch.args = none → ch.opens = true → ch.MakesObject) (openWith c w ch).1 := by
  cases hargs : ch.args with
  | some e =>
    rw [openWith, hargs]
    exact Or.inl ⟨nofun, h⟩
  | none =>
    cases hopens : ch.opens with
    | false =>
      rw [openWith, hargs, hopens]
      exact Or.inl ⟨nofun, h.use (c none) [] (hc none) nofun⟩
    | true =>
      rw [openWith, hargs, hopens]
      have hopened := h.acquire (c (some w.next)) [] .pcap (hc (some w.next)) rfl nofun
      exact (newObject_verdict hopened rfl).congr ⟨fun hmakes _ _ => hmakes, fun h => h rfl rfl⟩

theorem pNewBpfobject_verdict (h : w.Inv []) :
    Verdict (ch.args = none → ch.compiles = true → ch.MakesObject) (w.pNewBpfobject ch).1 := by
  cases hargs : ch.args with
  | some e =>
    rw [pNewBpfobject, hargs]
    exact Or.inl ⟨nofun, h⟩
  | none =>
    cases hcompiles : ch.compiles with
    | false =>
      rw [pNewBpfobject, hargs, hcompiles]
      exact Or.inl ⟨nofun, h.use (.compileNopcap none) [] rfl nofun⟩
    | true =>
      rw [pNewBpfobject, hargs, hcompiles]
      have hcompiled := h.acquire (.compileNopcap (some w.next)) [] .code rfl rfl nofun
      exact (newObject_verdict hcompiled rfl).congr ⟨fun hmakes _ _ => hmakes, fun h => h rfl rfl⟩

/-- `pcap_geterr` on what has just been closed. -/
theorem not_oneOwner_geterr {pp : Nat} :
    ¬ ((w.call (.close pp)).call (.geterr pp)).OneOwner := by
  intro hone
  have hsound := hone.sound
  rw [trace_call, trace_call] at hsound
  exact (sound_used.mp hsound).2 (List.mem_append_right _ (List.mem_singleton_self _))

theorem bpfCompile_verdict (h : w.Inv []) :
    Verdict (ch.args = none → ch.opens = true → ch.compiles = true ∧ ch.MakesObject)
      (w.bpfCompile ch).1 := by
  cases hargs : ch.args with
  | some e =>
    rw [bpfCompile, hargs]
    exact Or.inl ⟨nofun, h⟩
  | none =>
    cases hopens : ch.opens with
    | false =>
      rw [bpfCompile, hargs, hopens]
      exact Or.inl ⟨nofun, h.use (.openDead none) [] rfl nofun⟩
    | true =>
      have hopened := h.acquire (.openDead (some w.next)) [] .pcap rfl rfl nofun
      cases hcompiles : ch.compiles with
      | false =>
        rw [bpfCompile, hargs, hopens, hcompiles]
        exact Or.inr ⟨fun h => (by cases (h rfl rfl).1), not_oneOwner_geterr⟩
      | true =>
        rw [bpfCompile, hargs, hopens, hcompiles]
        have hcompiled := hopened.acquire (.compile w.next (some (w.next + 1))) [.pcap w.next] .code
          rfl rfl hopened.kept.loose_live
        have hclosed := (hcompiled.perm (.swap _ _ _)).release (.close w.next) rfl
        exact (newObject_verdict hclosed rfl).congr
          ⟨fun hmakes _ _ => ⟨rfl, hmakes⟩, fun h => (h rfl rfl).2⟩

theorem pSetfilter_verdict (h : w.Inv []) :
    Verdict (ch.args = none → ch.compiles = true → ∀ pp, w.heap o ≠ some (.reader (some pp)))
      (w.pSetfilter o ch).1 := by
  unfold pSetfilter
  split
  · next hheap =>
    refine Or.inl ⟨?_, h⟩
    intro _ _ pp hpp
    rw [hheap] at hpp
    cases hpp
  · next pp hheap =>
    have ho : w.held o = some (.pcap pp) := by rw [held, hheap]; rfl
    cases hargs : ch.args with
    | some e => exact Or.inl ⟨nofun, h⟩
    | none =>
      cases hcompiles : ch.compiles with
      | false =>
        have hfailed := h.use (.compile pp none) [.pcap pp] rfl (h.live ho)
        exact Or.inl ⟨nofun, hfailed.use (.geterr pp) [.pcap pp] rfl (hfailed.live ho)⟩
      | true =>
        have hcompiled := h.acquire (.compile pp (some w.next)) [.pcap pp] .code rfl rfl (h.live ho)
        have hset := hcompiled.use (.setfilter pp w.next) [.pcap pp, .code w.next] rfl (by
          intro r hr
          rcases List.mem_cons.mp hr with rfl | hr
          · exact hcompiled.kept.held_live o _ ho
          · exact hcompiled.kept.loose_live r hr)
        -- the code stays loose, whether or not `pcap_setfilter` takes it
        refine Or.inr ⟨fun hclosed => hclosed rfl rfl pp hheap, ?_⟩
        cases ch.sets with
        | true => exact hset.not_oneOwner
        | false => exact (hset.use (.geterr pp) [.pcap pp] rfl (hset.live ho)).not_oneOwner
  · next hheap => exact Or.inl ⟨fun _ _ pp hpp => hheap pp hpp, h⟩

theorem after_verdict (h : w.Inv []) (c : BindingCall) : Verdict (Spares w c) (w.after c) := by
  cases c with
  | openLive ch => exact openWith_verdict (fun _ => rfl) h
  | create ch => exact openWith_verdict (fun _ => rfl) h
  | openOffline ch => exact openWith_verdict (fun _ => rfl) h
  | compile ch => exact bpfCompile_verdict h
  | bpfProgram ch => exact pNewBpfobject_verdict h
  | setfilter o ch => exact pSetfilter_verdict h
  | close o => exact Or.inl ⟨trivial, inv_pClose h⟩
  | dealloc o => exact Or.inl ⟨trivial, inv_dealloc h⟩

theorem oneOwnerEach_iff (h : w.Inv []) (calls : List BindingCall) :
    OneOwnerEach w calls ↔ SparesEach w calls := by
  induction calls generalizing w with
  | nil => exact Iff.rfl
  | cons c cs ih =>
    rcases after_verdict h c with ⟨hspares, hinv⟩ | ⟨hspares, hone⟩
    · exact and_congr (iff_of_true hinv.oneOwner hspares) (ih hinv)
    · exact iff_of_false (fun h => hone h.1) (fun h => hspares h.1)

end Calls

end World

/-- From the import of the module on, every resource has its one owner whenever a call returns just
if no call takes a path that drops one or closes too early. -/
theorem one_owner_each_iff (calls : List BindingCall) :
    OneOwnerEach {} calls ↔ SparesEach {} calls :=
  World.oneOwnerEach_iff World.Inv.start calls

/-- A filter that does not compile, a filter that is set, and a Reader without its memory. -/
theorem owners_lost :
    ¬ OneOwnerEach {} [.compile { compiles := false }] ∧
      ¬ OneOwnerEach {} [.openOffline {}, .setfilter 1 {}] ∧
      ¬ OneOwnerEach {} [.openOffline { memory := false }] := by
  simp only [World.oneOwnerEach_iff World.Inv.start]
  refine ⟨?_, ?_, ?_⟩
  · intro h
    cases (h.1 rfl rfl).1
  · intro h
    exact h.2.1 rfl rfl 0 rfl
  · intro h
    cases (h.1 rfl rfl).2

end PcapyNg
