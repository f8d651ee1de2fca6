import Mathlib.Logic.Function.Basic
import PcapyNg.Library.Transitions
import PcapyNg.PcapObject

/-!
# Threads, callbacks and the life of a capture handle

Binding code runs under the GIL. A method that reads packets gives the GIL up around its libpcap
call, and wherever Python code runs (between calls, in a callback, in the conversion of an
argument) any thread may call any method. `pp->pcap` is tested once, when a method is entered.
-/

namespace PcapyNg
open Transitions
set_option autoImplicit false

/-- A `pcap_t *` of a Reader: its one handle, or NULL. -/
inductive Ptr where
  | null
  | handle
  deriving DecidableEq

/-- What a method does behind its test of `pp->pcap`. -/
inductive Op where
  /-- arguments are converted, which may fail and, other than for a `char *`, may run Python code -/
  | parse (python : Bool)
  /-- a libpcap call on `pp->pcap` under the GIL -/
  | use
  /-- where the call before has failed: `pcap_geterr(pp->pcap)`, and NULL is returned -/
  | geterr
  /-- `PyEval_SaveThread`, a libpcap call on `pp->pcap`, `PyEval_RestoreThread` -/
  | blocking (callback : Bool)
  deriving DecidableEq

/-- The methods of a Reader, `close` and `__exit__` excepted. -/
inductive Method where
  | next
  | loop
  | dispatch
  | loopFiltered
  | loopToBuffer
  | nextBatch
  | setfilter
  | stats
  | dumpOpen
  | datalink
  | setdirection
  | setnonblock
  | getnonblock
  | setSnaplen
  | setPromisc
  | setTimeout
  | setBufferSize
  | setRfmon
  | activate
  | sendpacket
  | getfd
  | setFanout
  | getnet
  | getmask
  | enter
  | filteredStats
  deriving DecidableEq

def Method.body : Method → List Op
  | next => [.blocking false, .geterr]
  | loop => [.parse true, .blocking true, .geterr]
  | dispatch => [.parse true, .blocking true, .geterr]
  | loopFiltered => [.parse true, .blocking true, .geterr]
  | loopToBuffer => [.parse true, .blocking false]
  | nextBatch => [.parse true, .blocking false, .geterr]
  | setfilter => [.parse false, .use, .geterr, .use, .geterr]
  | stats => [.use, .geterr]
  | dumpOpen => [.parse false, .use, .geterr]
  | datalink => [.use]
  | setdirection => [.parse true, .use]
  | setnonblock => [.parse true, .use]
  | getnonblock => [.use]
  | setSnaplen => [.parse true, .use]
  | setPromisc => [.parse true, .use]
  | setTimeout => [.parse true, .use]
  | setBufferSize => [.parse true, .use]
  | setRfmon => [.parse true, .use]
  | activate => [.use]
  | sendpacket => [.parse true, .use, .geterr]
  | getfd => [.use]
  | setFanout => [.parse true, .use]
  | getnet => []
  | getmask => []
  | enter => []
  | filteredStats => []

/-- `if (!pp->pcap) return err_closed();` -/
def Method.checked : Method → Bool
  | filteredStats => false
  | _ => true

/-- A method call under way; `ops` is what it does next, `ctx` the handle that its callback context
holds. -/
inductive Frame where
  /-- binding code, under the GIL -/
  | running (ops : List Op)
  /-- the GIL is given up, libpcap not yet called -/
  | entering (ctx : Ptr) (callback : Bool) (ops : List Op)
  /-- inside the libpcap call on `p` -/
  | reading (p ctx : Ptr) (callback : Bool) (ops : List Op)
  /-- inside a Python callback of that call -/
  | calling (p ctx : Ptr) (ops : List Op)
  /-- the libpcap call is over, the GIL wanted back -/
  | leaving (ops : List Op)

/-- A Reader and the threads that use it; `isOpen` says that `pp->pcap` is the handle and that the
handle has not been passed to `pcap_close`. -/
structure ReaderState (Tid : Type) where
  isOpen : Bool
  alive : Bool
  gil : Option Tid
  stack : Tid → List Frame

inductive Label where
  | silent
  /-- a libpcap call is made, or goes on, on this pointer -/
  | uses (p : Ptr)
  /-- a method is called and goes on, or raises at once -/
  | called (m : Method) (refused : Option PyExc)
  | closes

/-- The thread with these calls under way runs Python code when it runs. -/
def InPython : List Frame → Prop
  | [] => True
  | .running (.parse true :: _) :: _ => True
  | .calling _ _ _ :: _ => True
  | _ => False

section Steps
variable {Tid : Type}

def ReaderState.ptr (s : ReaderState Tid) : Ptr := if s.isOpen then .handle else .null

theorem ptr_of_open {s : ReaderState Tid} (h : s.isOpen = true) : s.ptr = .handle := by
  rw [ReaderState.ptr, if_pos h]

variable [DecidableEq Tid]

namespace ReaderState

def setStack (s : ReaderState Tid) (t : Tid) (fs : List Frame) : ReaderState Tid :=
  { s with stack := Function.update s.stack t fs }

def setGil (s : ReaderState Tid) (gil : Option Tid) : ReaderState Tid := { s with gil := gil }

end ReaderState

inductive Step (s : ReaderState Tid) : Label → ReaderState Tid → Prop where
  | acquire (t : Tid) (hgil : s.gil = none) (hpy : InPython (s.stack t)) :
      Step s .silent (s.setGil (some t))
  | yield (t : Tid) (hgil : s.gil = some t) (hpy : InPython (s.stack t)) :
      Step s .silent (s.setGil none)
  | refuse (t : Tid) (m : Method) (hgil : s.gil = some t) (hpy : InPython (s.stack t))
      (halive : s.alive = true) (hm : m.checked = true) (hclosed : s.isOpen = false) :
      Step s (.called m (some errClosed)) s
  | call (t : Tid) (m : Method) (hgil : s.gil = some t) (hpy : InPython (s.stack t))
      (halive : s.alive = true) (hm : m.checked = true → s.isOpen = true) :
      Step s (.called m none) (s.setStack t (.running m.body :: s.stack t))
  | parsed (t : Tid) {python : Bool} {ops : List Op} {fs : List Frame} (hgil : s.gil = some t)
      (htop : s.stack t = .running (.parse python :: ops) :: fs) :
      Step s .silent (s.setStack t (.running ops :: fs))
  | argumentError (t : Tid) {python : Bool} {ops : List Op} {fs : List Frame}
      (hgil : s.gil = some t) (htop : s.stack t = .running (.parse python :: ops) :: fs) :
      Step s .silent (s.setStack t fs)
  | use (t : Tid) {ops : List Op} {fs : List Frame} (hgil : s.gil = some t)
      (htop : s.stack t = .running (.use :: ops) :: fs) :
      Step s (.uses s.ptr) (s.setStack t (.running ops :: fs))
  | failed (t : Tid) {ops : List Op} {fs : List Frame} (hgil : s.gil = some t)
      (htop : s.stack t = .running (.geterr :: ops) :: fs) :
      Step s (.uses s.ptr) (s.setStack t fs)
  | passed (t : Tid) {ops : List Op} {fs : List Frame} (hgil : s.gil = some t)
      (htop : s.stack t = .running (.geterr :: ops) :: fs) :
      Step s .silent (s.setStack t (.running ops :: fs))
  | release (t : Tid) {callback : Bool} {ops : List Op} {fs : List Frame} (hgil : s.gil = some t)
      (htop : s.stack t = .running (.blocking callback :: ops) :: fs) :
      Step s .silent ((s.setStack t (.entering s.ptr callback ops :: fs)).setGil none)
  -- `pp->pcap` is read again for the libpcap call, behind the release of the GIL
  | start (t : Tid) {ctx : Ptr} {callback : Bool} {ops : List Op} {fs : List Frame}
      (htop : s.stack t = .entering ctx callback ops :: fs) :
      Step s (.uses s.ptr) (s.setStack t (.reading s.ptr ctx callback ops :: fs))
  | goOn (t : Tid) {p ctx : Ptr} {callback : Bool} {ops : List Op} {fs : List Frame}
      (htop : s.stack t = .reading p ctx callback ops :: fs) : Step s (.uses p) s
  | deliver (t : Tid) {p ctx : Ptr} {ops : List Op} {fs : List Frame} (hgil : s.gil = none)
      (htop : s.stack t = .reading p ctx true ops :: fs) :
      Step s .silent ((s.setStack t (.calling p ctx ops :: fs)).setGil (some t))
  | returned (t : Tid) {p ctx : Ptr} {ops : List Op} {fs : List Frame} (hgil : s.gil = some t)
      (htop : s.stack t = .calling p ctx ops :: fs) :
      Step s .silent ((s.setStack t (.reading p ctx true ops :: fs)).setGil none)
  -- the callback has raised: `pcap_breakloop(pctx->ppcap_t)`
  | raised (t : Tid) {p ctx : Ptr} {ops : List Op} {fs : List Frame} (hgil : s.gil = some t)
      (htop : s.stack t = .calling p ctx ops :: fs) :
      Step s (.uses ctx) ((s.setStack t (.reading p ctx true ops :: fs)).setGil none)
  | finish (t : Tid) {p ctx : Ptr} {callback : Bool} {ops : List Op} {fs : List Frame}
      (htop : s.stack t = .reading p ctx callback ops :: fs) :
      Step s (.uses p) (s.setStack t (.leaving ops :: fs))
  | resume (t : Tid) {ops : List Op} {fs : List Frame} (hgil : s.gil = none)
      (htop : s.stack t = .leaving ops :: fs) :
      Step s .silent ((s.setStack t (.running ops :: fs)).setGil (some t))
  | done (t : Tid) {fs : List Frame} (hgil : s.gil = some t)
      (htop : s.stack t = .running [] :: fs) : Step s .silent (s.setStack t fs)
  /-- `close` and `__exit__` -/
  | close (t : Tid) (hgil : s.gil = some t) (hpy : InPython (s.stack t)) (halive : s.alive = true) :
      Step s .closes { s with isOpen := false }
  -- a call under way holds a reference to its Reader
  | dealloc (t : Tid) (hgil : s.gil = some t) (hidle : ∀ u, s.stack u = []) :
      Step s .silent { s with isOpen := false, alive := false }

end Steps

/-! What a call under way may still do. -/

def Op.touches : Op → Bool
  | parse _ => false
  | _ => true

def Method.NeedsHandle (m : Method) : Prop := ∃ op ∈ m.body, op.touches = true

/-- The call may still use the handle. -/
def Frame.Pending : Frame → Prop
  | running ops => ∃ op ∈ ops, op.touches = true
  | leaving ops => ∃ op ∈ ops, op.touches = true
  | _ => True

/-- Every pointer the call holds is the handle. -/
def Frame.Sound : Frame → Prop
  | entering ctx _ _ => ctx = .handle
  | reading p ctx _ _ => p = .handle ∧ ctx = .handle
  | calling p ctx _ => p = .handle ∧ ctx = .handle
  | _ => True

section Invariant
variable {Tid : Type}

namespace ReaderState

/-- A Reader just made: open, and no call under way. -/
def Fresh (s : ReaderState Tid) : Prop :=
  s.isOpen = true ∧ s.alive = true ∧ ∀ t, s.stack t = []

/-- No call under way may still use the handle. -/
def Unused (s : ReaderState Tid) : Prop := ∀ t, ∀ f ∈ s.stack t, ¬ f.Pending

end ReaderState

/-- libpcap is used on the live handle only, and a method that needs the handle raises ValueError
on a closed Reader. -/
def Safe (s : ReaderState Tid) : Label → Prop
  | .uses p => p = .handle ∧ s.isOpen = true
  | .called m refused => s.isOpen = false → m.NeedsHandle → refused = some errClosed
  | _ => True

/-- The Reader is not closed while a call under way may still use it. -/
def Orderly (s : ReaderState Tid) (l : Label) : Prop := l = .closes → s.Unused

def Inv (s : ReaderState Tid) : Prop :=
  ∀ t, ∀ f ∈ s.stack t, f.Sound ∧ (f.Pending → s.isOpen = true)

theorem Method.checked_of_needsHandle {m : Method} (h : m.NeedsHandle) : m.checked = true := by
  cases m with
  | filteredStats =>
    rcases h with ⟨op, hop, -⟩
    cases hop
  | _ => rfl

section Stacks
variable {s : ReaderState Tid} {t : Tid} {f : Frame} {fs : List Frame}

theorem Inv.top (hinv : Inv s) (htop : s.stack t = f :: fs) :
    f.Sound ∧ (f.Pending → s.isOpen = true) :=
  hinv t f (by rw [htop]; exact List.mem_cons_self)

theorem Inv.open_of_head (hinv : Inv s) {op : Op} {ops : List Op}
    (htop : s.stack t = .running (op :: ops) :: fs) (hop : op.touches = true) : s.isOpen = true :=
  (hinv.top htop).2 ⟨op, List.mem_cons_self, hop⟩

theorem unused_of_closed (hinv : Inv s) (hclosed : s.isOpen = false) :
    s.Unused := by
  intro t f hf hpending
  rw [(hinv t f hf).2 hpending] at hclosed
  cases hclosed

theorem inv_of_fresh (h : s.Fresh) : Inv s := by
  intro t f hf
  rw [h.2.2 t] at hf
  cases hf

variable [DecidableEq Tid]

theorem Inv.setStack (hinv : Inv s) {gs : List Frame}
    (hgs : ∀ g ∈ gs, g.Sound ∧ (g.Pending → s.isOpen = true)) : Inv (s.setStack t gs) := by
  intro u g hg
  by_cases hu : u = t
  · subst hu
    simp only [ReaderState.setStack, Function.update_self] at hg
    exact hgs g hg
  · simp only [ReaderState.setStack, Function.update_of_ne hu] at hg
    exact hinv u g hg

/-- The innermost call is over. -/
theorem Inv.pop (hinv : Inv s) (htop : s.stack t = f :: fs) : Inv (s.setStack t fs) := by
  apply hinv.setStack
  intro g hg
  apply hinv t g
  rw [htop]
  exact List.mem_cons_of_mem f hg

/-- The innermost call has moved on to `g`. -/
theorem Inv.replace (hinv : Inv s) (htop : s.stack t = f :: fs) {g : Frame} (hsound : g.Sound)
    (hpending : g.Pending → s.isOpen = true) : Inv (s.setStack t (g :: fs)) := by
  apply hinv.setStack
  intro g' hg'
  rcases List.mem_cons.mp hg' with rfl | hg'
  · exact ⟨hsound, hpending⟩
  · apply hinv t g'
    rw [htop]
    exact List.mem_cons_of_mem f hg'

/-- What is left of a method was there before. -/
theorem Inv.drop (hinv : Inv s) {op : Op} {ops : List Op}
    (htop : s.stack t = .running (op :: ops) :: fs) : Inv (s.setStack t (.running ops :: fs)) := by
  refine hinv.replace htop trivial ?_
  intro h
  rcases h with ⟨op', hop', htouches⟩
  exact (hinv.top htop).2 ⟨op', List.mem_cons_of_mem op hop', htouches⟩

end Stacks

variable [DecidableEq Tid]

theorem step_inv {s s' : ReaderState Tid} {l : Label} (hinv : Inv s) (hstep : Step s l s')
    (hl : Orderly s l) : Inv s' := by
  cases hstep with
  | acquire t hgil hpy => exact hinv
  | yield t hgil hpy => exact hinv
  | refuse t m hgil hpy halive hm hclosed => exact hinv
  | call t m hgil hpy halive hm =>
    apply hinv.setStack
    intro g hg
    rcases List.mem_cons.mp hg with rfl | hg
    · exact ⟨trivial, fun hneeds => hm (Method.checked_of_needsHandle hneeds)⟩
    · exact hinv t g hg
  | parsed t hgil htop => exact hinv.drop htop
  | argumentError t hgil htop => exact hinv.pop htop
  | use t hgil htop => exact hinv.drop htop
  | failed t hgil htop => exact hinv.pop htop
  | passed t hgil htop => exact hinv.drop htop
  | release t hgil htop =>
    have hopen := hinv.open_of_head htop rfl
    exact hinv.replace htop (ptr_of_open hopen) fun _ => hopen
  | start t htop =>
    obtain ⟨hsound, hopen⟩ := hinv.top htop
    exact hinv.replace htop ⟨ptr_of_open (hopen trivial), hsound⟩ fun _ => hopen trivial
  | goOn t htop => exact hinv
  | deliver t hgil htop =>
    obtain ⟨hsound, hopen⟩ := hinv.top htop
    exact hinv.replace htop hsound fun _ => hopen trivial
  | returned t hgil htop =>
    obtain ⟨hsound, hopen⟩ := hinv.top htop
    exact hinv.replace htop hsound fun _ => hopen trivial
  | raised t hgil htop =>
    obtain ⟨hsound, hopen⟩ := hinv.top htop
    exact hinv.replace htop hsound fun _ => hopen trivial
  | finish t htop => exact hinv.replace htop trivial fun _ => (hinv.top htop).2 trivial
  | resume t hgil htop => exact hinv.replace htop trivial (hinv.top htop).2
  | done t hgil htop => exact hinv.pop htop
  | close t hgil hpy halive =>
    intro u f hf
    exact ⟨(hinv u f hf).1, fun hpending => absurd hpending (hl rfl u f hf)⟩
  | dealloc t hgil hidle =>
    intro u f hf
    change f ∈ s.stack u at hf
    rw [hidle u] at hf
    cases hf

theorem run_inv {s₀ s : ReaderState Tid} (h₀ : s₀.Fresh) (hrun : Run Step Orderly s₀ s) : Inv s :=
  hrun.invariant (inv_of_fresh h₀) fun _ _ _ => step_inv

theorem step_safe {s s' : ReaderState Tid} {l : Label} (hinv : Inv s) (hstep : Step s l s') :
    Safe s l := by
  cases hstep with
  | refuse t m hgil hpy halive hm hclosed => exact fun _ _ => rfl
  | call t m hgil hpy halive hm =>
    intro hclosed hneeds
    have hopen := hm (Method.checked_of_needsHandle hneeds)
    rw [hopen] at hclosed
    cases hclosed
  | use t hgil htop =>
    have hopen := hinv.open_of_head htop rfl
    exact ⟨ptr_of_open hopen, hopen⟩
  | failed t hgil htop =>
    have hopen := hinv.open_of_head htop rfl
    exact ⟨ptr_of_open hopen, hopen⟩
  | start t htop =>
    have hopen := (hinv.top htop).2 trivial
    exact ⟨ptr_of_open hopen, hopen⟩
  | goOn t htop => exact ⟨(hinv.top htop).1.1, (hinv.top htop).2 trivial⟩
  | raised t hgil htop => exact ⟨(hinv.top htop).1.2, (hinv.top htop).2 trivial⟩
  | finish t htop => exact ⟨(hinv.top htop).1.1, (hinv.top htop).2 trivial⟩
  | _ => trivial

end Invariant

/-! A close in use goes wrong. -/

section Converse
variable {Tid : Type}

theorem not_safe_uses {s : ReaderState Tid} (hclosed : s.isOpen = false) (p : Ptr) :
    ¬ Safe s (.uses p) := by
  intro h
  rw [h.2] at hclosed
  cases hclosed

/-- A call under way that need not hold the GIL. -/
def Frame.Waiting : Frame → Prop
  | running ops => InPython [.running ops]
  | _ => True

/-- Below a call is Python code, and a call that needs the GIL holds it. -/
def Disciplined (s : ReaderState Tid) : Prop :=
  ∀ t f fs, s.stack t = f :: fs → (∀ g ∈ fs, InPython [g]) ∧ (s.gil ≠ some t → f.Waiting)

theorem inPython_cons {f : Frame} (fs : List Frame) : InPython (f :: fs) ↔ InPython [f] := by
  cases f with
  | running ops =>
    cases ops with
    | nil => exact Iff.rfl
    | cons op ops =>
      cases op with
      | parse python => cases python <;> exact Iff.rfl
      | _ => exact Iff.rfl
  | _ => exact Iff.rfl

theorem waiting_of_inPython {f : Frame} {fs : List Frame} (h : InPython (f :: fs)) : f.Waiting := by
  cases f with
  | running ops => exact (inPython_cons fs).mp h
  | _ => trivial

theorem disciplined_of_fresh {s : ReaderState Tid} (h : s.Fresh) : Disciplined s := by
  intro t f fs hstack
  rw [h.2.2 t] at hstack
  cases hstack

variable [DecidableEq Tid]

theorem Disciplined.move {s : ReaderState Tid} (hd : Disciplined s) {t : Tid} {gil : Option Tid}
    {gs : List Frame} (hothers : s.gil = none ∨ s.gil = some t ∨ gil = s.gil)
    (htop : ∀ g gs', gs = g :: gs' →
      (∀ x ∈ gs', InPython [x]) ∧ (gil ≠ some t → g.Waiting)) :
    Disciplined ((s.setStack t gs).setGil gil) := by
  intro u f fs hstack
  by_cases hu : u = t
  · subst hu
    simp only [ReaderState.setGil, ReaderState.setStack, Function.update_self] at hstack
    exact htop f fs hstack
  · simp only [ReaderState.setGil, ReaderState.setStack, Function.update_of_ne hu] at hstack
    obtain ⟨hbelow, hwaiting⟩ := hd u f fs hstack
    refine ⟨hbelow, fun hgil => hwaiting ?_⟩
    rcases hothers with h | h | h
    · rw [h]
      exact (Option.some_ne_none u).symm
    · rw [h]
      intro heq
      exact hu (Option.some.inj heq).symm
    · rw [← h]
      exact hgil

/-- The innermost call has moved on, under the GIL or to where it does without. -/
theorem Disciplined.replace {s : ReaderState Tid} (hd : Disciplined s) {t : Tid} {gil : Option Tid}
    {f g : Frame} {fs : List Frame} (hstack : s.stack t = f :: fs)
    (hothers : s.gil = none ∨ s.gil = some t ∨ gil = s.gil) (hg : gil = some t ∨ g.Waiting) :
    Disciplined ((s.setStack t (g :: fs)).setGil gil) := by
  apply hd.move hothers
  intro g' gs' heq
  obtain ⟨rfl, rfl⟩ := List.cons.inj heq
  exact ⟨(hd t f fs hstack).1, fun hgil => hg.resolve_left hgil⟩

theorem Disciplined.pop {s : ReaderState Tid} (hd : Disciplined s) {t : Tid} {f : Frame}
    {fs : List Frame} (hstack : s.stack t = f :: fs) (hgil : s.gil = some t) :
    Disciplined (s.setStack t fs) := by
  apply hd.move (Or.inr (Or.inr rfl))
  intro g gs' heq
  subst heq
  refine ⟨fun x hx => (hd t f _ hstack).1 x (List.mem_cons_of_mem g hx), fun h => ?_⟩
  exact absurd hgil h

theorem step_disciplined {s s' : ReaderState Tid} {l : Label} (hd : Disciplined s)
    (hstep : Step s l s') : Disciplined s' := by
  cases hstep with
  | acquire t hgil hpy =>
    intro u f fs hstack
    obtain ⟨hbelow, hwaiting⟩ := hd u f fs hstack
    exact ⟨hbelow, fun _ => hwaiting (by rw [hgil]; exact (Option.some_ne_none u).symm)⟩
  | yield t hgil hpy =>
    intro u f fs hstack
    obtain ⟨hbelow, hwaiting⟩ := hd u f fs hstack
    refine ⟨hbelow, fun _ => ?_⟩
    by_cases hu : s.gil = some u
    · obtain rfl : t = u := Option.some.inj (hgil.symm.trans hu)
      change s.stack t = f :: fs at hstack
      rw [hstack] at hpy
      exact waiting_of_inPython hpy
    · exact hwaiting hu
  | refuse => exact hd
  | call t m hgil hpy halive hm =>
    apply hd.move (Or.inr (Or.inr rfl))
    intro g gs' heq
    obtain ⟨rfl, rfl⟩ := List.cons.inj heq
    refine ⟨fun x hx => ?_, fun h => absurd hgil h⟩
    cases hstack : s.stack t with
    | nil =>
      rw [hstack] at hx
      cases hx
    | cons f fs =>
      rw [hstack] at hx hpy
      rcases List.mem_cons.mp hx with rfl | hx
      · exact (inPython_cons fs).mp hpy
      · exact (hd t f fs hstack).1 x hx
  | parsed t hgil htop => exact hd.replace htop (Or.inr (Or.inr rfl)) (Or.inl hgil)
  | argumentError t hgil htop => exact hd.pop htop hgil
  | use t hgil htop => exact hd.replace htop (Or.inr (Or.inr rfl)) (Or.inl hgil)
  | failed t hgil htop => exact hd.pop htop hgil
  | passed t hgil htop => exact hd.replace htop (Or.inr (Or.inr rfl)) (Or.inl hgil)
  | release t hgil htop => exact hd.replace htop (Or.inr (Or.inl hgil)) (Or.inr trivial)
  | start t htop => exact hd.replace htop (Or.inr (Or.inr rfl)) (Or.inr trivial)
  | goOn => exact hd
  | deliver t hgil htop => exact hd.replace htop (Or.inl hgil) (Or.inl rfl)
  | returned t hgil htop => exact hd.replace htop (Or.inr (Or.inl hgil)) (Or.inr trivial)
  | raised t hgil htop => exact hd.replace htop (Or.inr (Or.inl hgil)) (Or.inr trivial)
  | finish t htop => exact hd.replace htop (Or.inr (Or.inr rfl)) (Or.inr trivial)
  | resume t hgil htop => exact hd.replace htop (Or.inl hgil) (Or.inl rfl)
  | done t hgil htop => exact hd.pop htop hgil
  | close => exact hd
  | dealloc => exact hd

/-- Some run from here uses a closed handle. -/
abbrev UsesClosed (s : ReaderState Tid) : Prop := GoesWrong Step Unrestricted Safe s

section Closed
variable {s : ReaderState Tid} {t : Tid} {fs : List Frame}

/-- Binding code that comes to a use of the handle. -/
theorem wrong_of_ops {ops : List Op} (hclosed : s.isOpen = false) (hgil : s.gil = some t)
    (htop : s.stack t = .running ops :: fs) (htouches : ∃ op ∈ ops, op.touches = true) :
    UsesClosed s := by
  induction ops generalizing s with
  | nil =>
    rcases htouches with ⟨op, hop, -⟩
    cases hop
  | cons op ops ih =>
    cases op with
    | parse python =>
      apply GoesWrong.later (.parsed t hgil htop) trivial
      apply @ih (s.setStack t (.running ops :: fs)) hclosed hgil (Function.update_self t _ _)
      rcases htouches with ⟨op, hop, htouches⟩
      rcases List.mem_cons.mp hop with rfl | hop
      · cases htouches
      · exact ⟨op, hop, htouches⟩
    | use => exact .now (.use t hgil htop) (not_safe_uses hclosed _)
    | geterr => exact .now (.failed t hgil htop) (not_safe_uses hclosed _)
    | blocking callback =>
      apply GoesWrong.later (.release t hgil htop) trivial
      exact .now (.start t (Function.update_self t _ _)) (not_safe_uses hclosed _)

theorem step_leave {ops : List Op} (hgil : s.gil = some t) (htop : s.stack t = .running ops :: fs)
    (hno : ¬ ∃ op ∈ ops, op.touches = true) : Step s .silent (s.setStack t fs) := by
  cases ops with
  | nil => exact .done t hgil htop
  | cons op ops =>
    cases op with
    | parse python => exact .argumentError t hgil htop
    | _ => exact absurd ⟨_, List.mem_cons_self, rfl⟩ hno

theorem inPython_of_forall (h : ∀ g ∈ fs, InPython [g]) : InPython fs := by
  cases fs with
  | nil => trivial
  | cons g fs => exact (inPython_cons fs).mpr (h g List.mem_cons_self)

theorem wrong_of_running {ops : List Op} (hclosed : s.isOpen = false) (hgil : s.gil = some t)
    (hd : Disciplined s) (htop : s.stack t = .running ops :: fs)
    (hpending : (∃ op ∈ ops, op.touches = true) ∨ ∃ f ∈ fs, f.Pending)
    (ih : ∀ s' : ReaderState Tid, s'.isOpen = false → s'.gil = none → Disciplined s' →
      s'.stack t = fs → (∃ f ∈ fs, f.Pending) → UsesClosed s') : UsesClosed s := by
  by_cases htouches : ∃ op ∈ ops, op.touches = true
  · exact wrong_of_ops hclosed hgil htop htouches
  · have hleave := step_leave hgil htop htouches
    have hstack : (s.setStack t fs).stack t = fs := Function.update_self t _ _
    have hpy : InPython ((s.setStack t fs).stack t) := by
      rw [hstack]
      exact inPython_of_forall (hd t _ _ htop).1
    have hyield : Step (s.setStack t fs) .silent ((s.setStack t fs).setGil none) :=
      .yield t hgil hpy
    apply GoesWrong.later hleave trivial
    apply GoesWrong.later hyield trivial
    have hd' := step_disciplined (step_disciplined hd hleave) hyield
    exact ih _ hclosed rfl hd' hstack (hpending.resolve_left htouches)

/-- A closed Reader under a call that still wants the handle: the calls above that one come to
their end, and it goes on. -/
theorem wrong_of_pending (hclosed : s.isOpen = false) (hgil : s.gil = none) (hd : Disciplined s)
    (hstack : s.stack t = fs) (hpending : ∃ f ∈ fs, f.Pending) : UsesClosed s := by
  induction fs generalizing s with
  | nil =>
    rcases hpending with ⟨f, hf, -⟩
    cases hf
  | cons f fs ih =>
    have hwaiting : f.Waiting := by
      apply (hd t f fs hstack).2
      rw [hgil]
      exact (Option.some_ne_none t).symm
    cases f with
    | running ops =>
      have hpy : InPython (s.stack t) := by
        rw [hstack]
        exact (inPython_cons fs).mpr hwaiting
      have hstep : Step s .silent (s.setGil (some t)) := .acquire t hgil hpy
      apply GoesWrong.later hstep trivial
      exact wrong_of_running hclosed rfl (step_disciplined hd hstep) hstack
        ((List.exists_mem_cons_iff _ _ _).mp hpending) fun s' => @ih s'
    | entering ctx callback ops => exact .now (.start t hstack) (not_safe_uses hclosed _)
    | reading p ctx callback ops => exact .now (.goOn t hstack) (not_safe_uses hclosed _)
    | calling p ctx ops =>
      have hpy : InPython (s.stack t) := by
        rw [hstack]
        trivial
      have hstep : Step s .silent (s.setGil (some t)) := .acquire t hgil hpy
      apply GoesWrong.later hstep trivial
      exact .now (.raised t rfl hstack) (not_safe_uses hclosed _)
    | leaving ops =>
      have hstep := Step.resume t hgil hstack
      apply GoesWrong.later hstep trivial
      exact wrong_of_running hclosed rfl (step_disciplined hd hstep) (Function.update_self t _ _)
        ((List.exists_mem_cons_iff _ _ _).mp hpending) fun s' => @ih s'

end Closed

theorem run_disciplined {allowed : ReaderState Tid → Label → Prop} {s₀ s : ReaderState Tid}
    (h₀ : s₀.Fresh) (hrun : Run Step allowed s₀ s) : Disciplined s :=
  hrun.invariant (disciplined_of_fresh h₀) fun _ _ _ hd hstep _ => step_disciplined hd hstep

theorem step_closed {s s' : ReaderState Tid} {l : Label} (hstep : Step s l s')
    (hclosed : s.isOpen = false) : s'.isOpen = false := by
  cases hstep with
  | close => rfl
  | dealloc => rfl
  | _ => exact hclosed

/-- A Reader closed out of use stays out of use. -/
theorem not_usesClosed {s : ReaderState Tid} (hinv : Inv s) (hclosed : s.isOpen = false) :
    ¬ UsesClosed s := by
  apply not_goesWrong_of_invariant (I := fun s => Inv s ∧ s.isOpen = false)
  · intro s l s' hkept hstep _
    have horderly : Orderly s l := fun _ => unused_of_closed hkept.1 hkept.2
    exact ⟨step_inv hkept.1 hstep horderly, step_closed hstep hkept.2⟩
  · intro s l s' hkept hstep
    exact step_safe hkept.1 hstep
  · exact ⟨hinv, hclosed⟩

theorem wrong_of_close {s s' : ReaderState Tid} (hd : Disciplined s) (hstep : Step s .closes s')
    (hused : ¬ s.Unused) : UsesClosed s' := by
  have hd' := step_disciplined hd hstep
  cases hstep with
  | close t hgil hpy halive =>
    have hyield : Step { s with isOpen := false } .silent
        (ReaderState.setGil { s with isOpen := false } none) := .yield t hgil hpy
    apply GoesWrong.later hyield trivial
    unfold ReaderState.Unused at hused
    push Not at hused
    rcases hused with ⟨u, hpending⟩
    exact wrong_of_pending rfl rfl (step_disciplined hd' hyield) rfl hpending

end Converse

/-- In every run of any threads that closes the Reader only where no call under way may still use
the handle, libpcap is used on the live handle only and closed Readers refuse; and from any other
close on, some run uses the closed handle. -/
theorem closed_handle_unused_iff {Tid : Type} [DecidableEq Tid] (s₀ s : ReaderState Tid)
    (h₀ : s₀.Fresh) (hrun : Run Step Orderly s₀ s) :
    (∀ l s', Step s l s' → Safe s l) ∧
    ∀ s', Step s .closes s' →
      ((∀ s₁ l s₂, Run Step Unrestricted s' s₁ → Step s₁ l s₂ → Safe s₁ l) ↔ s.Unused) := by
  have hinv := run_inv h₀ hrun
  refine ⟨fun l s' hstep => step_safe hinv hstep, fun s' hclose => ?_⟩
  rw [← not_goesWrong_iff]
  constructor
  · intro hsafe
    by_contra hused
    exact hsafe (wrong_of_close (run_disciplined h₀ hrun) hclose hused)
  · intro hunused
    apply not_usesClosed (step_inv hinv hclose fun _ => hunused)
    cases hclose with
    | close => rfl

/-- A Reader just opened, the GIL free. -/
def opened : ReaderState Bool := ⟨true, true, none, fun _ => []⟩

/-- One thread is in `next`, and the other one waits to close the Reader. -/
def nextUnderWay : ReaderState Bool :=
  ⟨true, true, some false,
    Function.update (fun _ => []) true [.reading .handle .handle false [.geterr]]⟩

theorem closed_handle_unused_iff_next :
    opened.Fresh ∧ Run Step Orderly opened nextUnderWay ∧ Safe nextUnderWay (.uses .handle) ∧
    ¬ ∀ s₁ l s₂, Run Step Unrestricted { nextUnderWay with isOpen := false } s₁ → Step s₁ l s₂ →
      Safe s₁ l := by
  have hfresh : opened.Fresh := ⟨rfl, rfl, fun _ => rfl⟩
  have hkept : ∀ s : ReaderState Bool, ∀ l : Label, l ≠ .closes → Orderly s l :=
    fun s l hne heq => absurd heq hne
  have hrun : Run Step Orderly opened nextUnderWay := by
    have hstart : Run Step Orderly opened opened := .nil
    have hentered := hstart.step (.acquire true rfl trivial) (hkept _ _ nofun)
    have hcalled := hentered.step (.call true .next rfl trivial rfl fun _ => rfl) (hkept _ _ nofun)
    have hreleased := hcalled.step (.release true rfl rfl) (hkept _ _ nofun)
    have hstarted := hreleased.step (.start true rfl) (hkept _ _ nofun)
    have hother := hstarted.step (.acquire false rfl trivial) (hkept _ _ nofun)
    simpa [nextUnderWay, opened, ReaderState.setStack, ReaderState.setGil, Function.update_idem,
      ReaderState.ptr] using hother
  have hsettled := closed_handle_unused_iff opened nextUnderWay hfresh hrun
  refine ⟨hfresh, hrun, hsettled.1 _ _ (.goOn true rfl), fun hsafe => ?_⟩
  have hunused := (hsettled.2 _ (.close false rfl trivial rfl)).mp hsafe
  exact hunused true _ List.mem_cons_self trivial

/-- The callback of `loop` has closed its Reader and come back. -/
def closedInLoop : ReaderState Bool :=
  ⟨false, true, none,
    Function.update (fun _ => []) true [.reading .handle .handle true [.geterr]]⟩

theorem close_in_callback :
    opened.Fresh ∧ Run Step Unrestricted opened closedInLoop ∧
    Step closedInLoop (.uses .handle) closedInLoop ∧ ¬ Safe closedInLoop (.uses .handle) := by
  have hrun : Run Step Unrestricted opened closedInLoop := by
    have hstart : Run Step Unrestricted opened opened := .nil
    have hentered := hstart.step (.acquire true rfl trivial) trivial
    have hcalled := hentered.step (.call true .loop rfl trivial rfl fun _ => rfl) trivial
    have hparsed := hcalled.step (.parsed true rfl rfl) trivial
    have hreleased := hparsed.step (.release true rfl rfl) trivial
    have hstarted := hreleased.step (.start true rfl) trivial
    have hdelivered := hstarted.step (.deliver true rfl rfl) trivial
    have hclosed := hdelivered.step (.close true rfl trivial rfl) trivial
    have hreturned := hclosed.step (.returned true rfl rfl) trivial
    simpa [closedInLoop, opened, ReaderState.setStack, ReaderState.setGil, Function.update_idem,
      ReaderState.ptr] using hreturned
  exact ⟨⟨rfl, rfl, fun _ => rfl⟩, hrun, .goOn true rfl, not_safe_uses rfl _⟩

end PcapyNg
