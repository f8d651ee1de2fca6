import PcapyNg.PacketView

/-!
# Classifying a sequence of packets

One packet after the other, the flow table carried along.
-/

namespace PcapyNg
set_option autoImplicit false

variable {ρ : Type}

def classifyAll (classify : Option FlowTab → ρ → Except Fault (Nat × Option FlowTab)) :
    Option FlowTab → List ρ → Except Fault (List Nat × Option FlowTab)
  | flowtab, [] => .ok ([], flowtab)
  | flowtab, p :: ps => do
    let (k, flowtab) ← classify flowtab p
    let (ks, flowtab) ← classifyAll classify flowtab ps
    return (k :: ks, flowtab)

section Faulting
variable {classify : Option FlowTab → ρ → Except Fault (Nat × Option FlowTab)}

theorem classifyAll_cons_ok {flowtab flowtab' : Option FlowTab} {p : ρ} {ps : List ρ} {ks : List Nat}
    (h : classifyAll classify flowtab (p :: ps) = .ok (ks, flowtab')) :
    ∃ k f ks', classify flowtab p = .ok (k, f) ∧ classifyAll classify f ps = .ok (ks', flowtab') ∧
      ks = k :: ks' := by
  rw [classifyAll] at h
  obtain ⟨⟨k, f⟩, hk, h⟩ := bind_eq_ok.mp h
  obtain ⟨⟨ks', f'⟩, hks, h⟩ := bind_eq_ok.mp h
  cases h
  exact ⟨k, f, ks', hk, hks, rfl⟩

theorem classifyAll_length {flowtab flowtab' : Option FlowTab} {ps : List ρ} {ks : List Nat}
    (h : classifyAll classify flowtab ps = .ok (ks, flowtab')) : ks.length = ps.length := by
  induction ps generalizing flowtab ks with
  | nil => cases h; rfl
  | cons p ps ih =>
    obtain ⟨k, f, ks', -, hks, rfl⟩ := classifyAll_cons_ok h
    rw [List.length_cons, List.length_cons, ih hks]

theorem classifyAll_append_ok {flowtab flowtab' : Option FlowTab} {xs ys : List ρ} {ks : List Nat}
    (h : classifyAll classify flowtab (xs ++ ys) = .ok (ks, flowtab')) :
    ∃ ks₁ f ks₂, classifyAll classify flowtab xs = .ok (ks₁, f) ∧
      classifyAll classify f ys = .ok (ks₂, flowtab') ∧ ks = ks₁ ++ ks₂ := by
  induction xs generalizing flowtab ks with
  | nil => exact ⟨[], flowtab, ks, rfl, h, rfl⟩
  | cons x xs ih =>
    obtain ⟨k, f, ks', hk, hrest, rfl⟩ := classifyAll_cons_ok h
    obtain ⟨ks₁, f₁, ks₂, h₁, h₂, rfl⟩ := ih hrest
    refine ⟨k :: ks₁, f₁, ks₂, ?_, h₂, rfl⟩
    rw [classifyAll, hk]
    simp only [bind, Except.bind, h₁]
    rfl

theorem classifyAll_mem {P : Nat → Prop} (hP : ∀ flowtab p k f, classify flowtab p = .ok (k, f) → P k)
    {flowtab flowtab' : Option FlowTab} {ps : List ρ} {ks : List Nat}
    (h : classifyAll classify flowtab ps = .ok (ks, flowtab')) : ∀ k ∈ ks, P k := by
  induction ps generalizing flowtab ks with
  | nil =>
    cases h
    simp
  | cons p ps ih =>
    obtain ⟨k, f, ks', hk, hks, rfl⟩ := classifyAll_cons_ok h
    rw [List.forall_mem_cons]
    exact ⟨hP _ _ _ _ hk, ih hks⟩

end Faulting

def classAll (cl : Option FlowTab → ρ → Nat × Option FlowTab) :
    Option FlowTab → List ρ → List Nat × Option FlowTab
  | flowtab, [] => ([], flowtab)
  | flowtab, p :: ps =>
    let rest := classAll cl (cl flowtab p).2 ps
    ((cl flowtab p).1 :: rest.1, rest.2)

theorem classifyAll_eq {classify : Option FlowTab → ρ → Except Fault (Nat × Option FlowTab)}
    {cl : Option FlowTab → ρ → Nat × Option FlowTab}
    (h : ∀ flowtab p, classify flowtab p = .ok (cl flowtab p)) (flowtab : Option FlowTab)
    (ps : List ρ) : classifyAll classify flowtab ps = .ok (classAll cl flowtab ps) := by
  induction ps generalizing flowtab with
  | nil => rfl
  | cons p ps ih =>
    rw [classifyAll, h, classAll]
    simp only [bind, Except.bind, ih]
    rfl

section Pure
variable (cl : Option FlowTab → ρ → Nat × Option FlowTab)

theorem classAll_append (flowtab : Option FlowTab) (xs ys : List ρ) :
    classAll cl flowtab (xs ++ ys) =
      ((classAll cl flowtab xs).1 ++ (classAll cl (classAll cl flowtab xs).2 ys).1,
        (classAll cl (classAll cl flowtab xs).2 ys).2) := by
  induction xs generalizing flowtab with
  | nil => rfl
  | cons x xs ih => simp only [List.cons_append, classAll, ih]

@[simp] theorem classAll_length (flowtab : Option FlowTab) (ps : List ρ) :
    (classAll cl flowtab ps).1.length = ps.length := by
  induction ps generalizing flowtab with
  | nil => rfl
  | cons p ps ih => simp only [classAll, List.length_cons, ih]

theorem classAll_getElem (flowtab : Option FlowTab) (pre : List ρ) (p : ρ)
    (post : List ρ) :
    (classAll cl flowtab (pre ++ p :: post)).1[pre.length]? =
      some (cl (classAll cl flowtab pre).2 p).1 := by
  rw [classAll_append, classAll]
  simp

end Pure
end PcapyNg
