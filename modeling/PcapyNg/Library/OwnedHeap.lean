import Mathlib.Algebra.Order.Group.Multiset
import Mathlib.Tactic.Common

/-!
# Programs that own what they acquire

A heap knows what is live; releasing or using anything else is a fault. `Keeps` says of a
program that it runs without a fault from any heap where it owns `own`, ends owning what its
result says, and leaves everything else alone; `Faults` that it cannot get around a fault.
-/

namespace PcapyNg.OwnedHeap
set_option autoImplicit false

variable {κ ε α β : Type}

structure Heap (κ : Type) where
  live : Multiset (κ × Nat)
  next : Nat

/-- A number is live for one thing only, and what is acquired next gets a new one. -/
structure Heap.Sound (h : Heap κ) : Prop where
  nodup : (h.live.map Prod.snd).Nodup
  fresh : ∀ x ∈ h.live, x.2 < h.next

abbrev Prog (κ ε : Type) := StateT (Heap κ) (Except ε)

section Steps
variable [DecidableEq κ]

/-- A number for something new, or nothing where the allocation fails. -/
def acquire (k : κ) (ok : Bool) : Prog κ ε (Option Nat) := fun h =>
  if ok then .ok (some h.next, ⟨(k, h.next) ::ₘ h.live, h.next + 1⟩) else .ok (none, h)

def release (fault : ε) (k : κ) (n : Nat) : Prog κ ε Unit := fun h =>
  if (k, n) ∈ h.live then .ok ((), ⟨h.live.erase (k, n), h.next⟩) else .error fault

def use (fault : ε) (k : κ) (n : Nat) : Prog κ ε Unit := fun h =>
  if (k, n) ∈ h.live then .ok ((), h) else .error fault

/-- What was live as a `k` is live as a `k'`. -/
def turn (fault : ε) (k k' : κ) (n : Nat) : Prog κ ε Unit := fun h =>
  if (k, n) ∈ h.live then .ok ((), ⟨(k', n) ::ₘ h.live.erase (k, n), h.next⟩) else .error fault

end Steps

/-- A computation that does not touch the heap. -/
def lift (x : Except ε α) : Prog κ ε α := fun h => x.map fun a => (a, h)

/-- What a pointer owns; NULL owns nothing. -/
def owned (k : κ) : Option Nat → Multiset (κ × Nat)
  | none => 0
  | some n => {(k, n)}

@[simp] theorem owned_none (k : κ) : owned k none = 0 := rfl

@[simp] theorem owned_some (k : κ) (n : Nat) : owned k (some n) = {(k, n)} := rfl

def Keeps (own : Multiset (κ × Nat)) (m : Prog κ ε α) (post : α → Multiset (κ × Nat))
    (val : α → Prop) : Prop :=
  ∀ h frame, h.Sound → h.live = own + frame →
    ∃ a h', m h = .ok (a, h') ∧ h'.Sound ∧ h'.live = post a + frame ∧ val a

def Faults (fault : ε) (own : Multiset (κ × Nat)) (m : Prog κ ε α) : Prop :=
  ∀ h frame, h.Sound → h.live = own + frame → m h = .error fault

section Rules
variable {own : Multiset (κ × Nat)} {m : Prog κ ε α} {f : α → Prog κ ε β}
  {post : α → Multiset (κ × Nat)} {post' : β → Multiset (κ × Nat)} {val : α → Prop}
  {val' : β → Prop} {fault : ε}

theorem run_bind {h h' : Heap κ} {a : α} (hm : m h = .ok (a, h')) : (m >>= f) h = f a h' := by
  simp only [bind, StateT.bind, Except.bind, hm]

theorem run_bind_error {h : Heap κ} (hm : m h = .error fault) : (m >>= f) h = .error fault := by
  simp only [bind, StateT.bind, Except.bind, hm]

theorem Keeps.pure {a : α} (hval : val a) (hpost : own = post a) :
    Keeps own (Pure.pure a : Prog κ ε α) post val := by
  intro h frame hsound hlive
  exact ⟨a, h, rfl, hsound, hpost ▸ hlive, hval⟩

theorem Keeps.bind (hm : Keeps own m post val) (hf : ∀ a, val a → Keeps (post a) (f a) post' val') :
    Keeps own (m >>= f) post' val' := by
  intro h frame hsound hlive
  obtain ⟨a, h₁, hrun, hsound₁, hlive₁, hval⟩ := hm h frame hsound hlive
  obtain ⟨b, h₂, hrun₂, hrest⟩ := hf a hval h₁ frame hsound₁ hlive₁
  exact ⟨b, h₂, (run_bind hrun).trans hrun₂, hrest⟩

/-- A step whose result is not looked at. -/
theorem Keeps.seq {n : Prog κ ε β} {own' : Multiset (κ × Nat)}
    (hm : Keeps own m (fun _ => own') val) (hn : Keeps own' n post' val') :
    Keeps own (m >>= fun _ => n) post' val' :=
  hm.bind fun _ _ => hn

theorem Faults.bind_left (hm : Faults fault own m) : Faults fault own (m >>= f) := by
  intro h frame hsound hlive
  exact run_bind_error (hm h frame hsound hlive)

theorem Faults.bind_right (hm : Keeps own m post val)
    (hf : ∀ a, val a → Faults fault (post a) (f a)) : Faults fault own (m >>= f) := by
  intro h frame hsound hlive
  obtain ⟨a, h₁, hrun, hsound₁, hlive₁, hval⟩ := hm h frame hsound hlive
  exact (run_bind hrun).trans (hf a hval h₁ frame hsound₁ hlive₁)

theorem Faults.seq {n : Prog κ ε β} {own' : Multiset (κ × Nat)}
    (hm : Keeps own m (fun _ => own') val) (hn : Faults fault own' n) :
    Faults fault own (m >>= fun _ => n) :=
  Faults.bind_right hm fun _ _ => hn

/-- What a program does not own it keeps for those who do. -/
theorem Keeps.frame (hm : Keeps own m post val) (rest : Multiset (κ × Nat)) :
    Keeps (own + rest) m (fun a => post a + rest) val := by
  intro h frame hsound hlive
  rw [add_assoc] at hlive
  obtain ⟨a, h₁, hrun, hsound₁, hlive₁, hval⟩ := hm h (rest + frame) hsound hlive
  rw [← add_assoc] at hlive₁
  exact ⟨a, h₁, hrun, hsound₁, hlive₁, hval⟩

theorem Faults.frame (hm : Faults fault own m) (rest : Multiset (κ × Nat)) :
    Faults fault (own + rest) m := by
  intro h frame hsound hlive
  rw [add_assoc] at hlive
  exact hm h (rest + frame) hsound hlive

theorem Keeps.weaken {post'' : α → Multiset (κ × Nat)} {val'' : α → Prop}
    (hm : Keeps own m post val) (hpost : ∀ a, val a → post a = post'' a)
    (hval : ∀ a, val a → val'' a) : Keeps own m post'' val'' := by
  intro h frame hsound hlive
  obtain ⟨a, h₁, hrun, hsound₁, hlive₁, hv⟩ := hm h frame hsound hlive
  exact ⟨a, h₁, hrun, hsound₁, hpost a hv ▸ hlive₁, hval a hv⟩

theorem Keeps.of_eq {own' : Multiset (κ × Nat)} (h : own' = own) (hm : Keeps own m post val) :
    Keeps own' m post val := h ▸ hm

theorem keeps_lift {x : Except ε α} {a : α} (hx : x = .ok a) :
    Keeps own (lift x) (fun _ => own) (· = a) := by
  intro h frame hsound hlive
  subst hx
  exact ⟨a, h, rfl, hsound, hlive, rfl⟩

theorem keeps_acquire (own : Multiset (κ × Nat)) (k : κ) (ok : Bool) :
    Keeps own (acquire k ok : Prog κ ε (Option Nat)) (fun p => owned k p + own)
      fun p => p.isSome = ok := by
  intro h frame hsound hlive
  cases ok with
  | false => exact ⟨none, h, rfl, hsound, by simpa using hlive, rfl⟩
  | true =>
    refine ⟨some h.next, _, rfl, ⟨?_, ?_⟩, ?_, rfl⟩
    · rw [Multiset.map_cons]
      apply Multiset.nodup_cons.mpr ⟨?_, hsound.nodup⟩
      intro hmem
      rcases Multiset.mem_map.mp hmem with ⟨x, hx, hnext⟩
      exact Nat.lt_irrefl _ (hnext ▸ hsound.fresh x hx)
    · intro x hx
      rcases Multiset.mem_cons.mp hx with rfl | hx
      · exact Nat.lt_succ_self _
      · exact Nat.lt_succ_of_lt (hsound.fresh x hx)
    · change (k, h.next) ::ₘ h.live = {(k, h.next)} + own + frame
      rw [hlive, add_assoc, Multiset.singleton_add]

variable [DecidableEq κ] {k k' : κ} {n : Nat}

/-- What is owned is live, and the rest is what is left without it. -/
theorem owned_live {h : Heap κ} {frame : Multiset (κ × Nat)} {x : κ × Nat}
    (hlive : h.live = {x} + own + frame) : x ∈ h.live ∧ h.live.erase x = own + frame := by
  rw [hlive, add_assoc, Multiset.singleton_add]
  exact ⟨Multiset.mem_cons_self _ _, Multiset.erase_cons_head _ _⟩

theorem keeps_release (fault : ε) :
    Keeps ({(k, n)} + own) (release fault k n) (fun _ => own) fun _ => True := by
  intro h frame hsound hlive
  obtain ⟨hmem, hrest⟩ := owned_live hlive
  refine ⟨(), _, if_pos hmem, ⟨?_, ?_⟩, hrest, trivial⟩
  · exact Multiset.nodup_of_le (Multiset.map_le_map (Multiset.erase_le _ _)) hsound.nodup
  · intro x hx
    exact hsound.fresh x (Multiset.mem_of_mem_erase hx)

theorem keeps_use (fault : ε) (hmem : (k, n) ∈ own) :
    Keeps own (use fault k n) (fun _ => own) fun _ => True := by
  intro h frame hsound hlive
  have hmem' : (k, n) ∈ h.live := by
    rw [hlive]
    exact Multiset.mem_add.mpr (Or.inl hmem)
  exact ⟨(), h, if_pos hmem', hsound, hlive, trivial⟩

theorem keeps_turn (fault : ε) :
    Keeps ({(k, n)} + own) (turn fault k k' n) (fun _ => {(k', n)} + own) fun _ => True := by
  intro h frame hsound hlive
  obtain ⟨hmem, hrest⟩ := owned_live hlive
  have hnums : (((k', n) ::ₘ h.live.erase (k, n)).map Prod.snd) = h.live.map Prod.snd := by
    rw [Multiset.map_cons]
    exact (Multiset.cons_erase hmem ▸ (Multiset.map_cons Prod.snd (k, n) _)).symm
  refine ⟨(), _, if_pos hmem, ⟨?_, ?_⟩, ?_, trivial⟩
  · change (((k', n) ::ₘ h.live.erase (k, n)).map Prod.snd).Nodup
    rw [hnums]
    exact hsound.nodup
  · intro x hx
    rcases Multiset.mem_cons.mp hx with rfl | hx
    · exact hsound.fresh (k, n) hmem
    · exact hsound.fresh x (Multiset.mem_of_mem_erase hx)
  · change (k', n) ::ₘ h.live.erase (k, n) = _
    rw [hrest, add_assoc, Multiset.singleton_add]

end Rules
end PcapyNg.OwnedHeap
