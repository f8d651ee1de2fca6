import Mathlib.Logic.Function.Basic
import Mathlib.Logic.ExistsUnique
import Mathlib.Data.List.Nodup

/-!
# Resources and their owners

A resource is acquired, used and released, and a trace lists these events in order. Between two
calls of a program each resource that is not released belongs to one of its objects; within a
call it may also be loose, held by a local variable only. The rules say how a call may move
resources about and keep the account.
-/

namespace PcapyNg.Ownership
set_option autoImplicit false

universe u v
variable {ρ : Type u} {ι : Type v}

inductive Event (ρ : Type u) where
  | acquired (r : ρ)
  | used (r : ρ)
  | released (r : ρ)
  deriving DecidableEq

/-- `e'` may follow `e`: what is released is neither used nor released again. -/
def Event.Allows : Event ρ → Event ρ → Prop
  | released r, used r' => r ≠ r'
  | released r, released r' => r ≠ r'
  | _, _ => True

def Sound (tr : List (Event ρ)) : Prop := tr.Pairwise Event.Allows

def Live (tr : List (Event ρ)) (r : ρ) : Prop := .acquired r ∈ tr ∧ .released r ∉ tr

/-- Every resource is released exactly once, or not yet and `owns` holds of one owner. -/
def Accounted [DecidableEq ρ] (tr : List (Event ρ)) (owns : ι → ρ → Prop) : Prop :=
  ∀ r, .acquired r ∈ tr → tr.count (.released r) = 1 ∨
    tr.count (.released r) = 0 ∧ ∃! i, owns i r

/-- The account within a call: `held` is what the objects own, `loose` what they do not. -/
structure Kept (tr : List (Event ρ)) (held : ι → Option ρ) (loose : List ρ) : Prop where
  sound : Sound tr
  known : ∀ r, .released r ∈ tr → .acquired r ∈ tr
  nodup : loose.Nodup
  loose_live : ∀ r ∈ loose, Live tr r
  held_live : ∀ i r, held i = some r → Live tr r
  held_once : ∀ i j r, held i = some r → held j = some r → i = j
  apart : ∀ r ∈ loose, ∀ i, held i ≠ some r
  settled : ∀ r, Live tr r → r ∈ loose ∨ ∃ i, held i = some r

section Traces
variable {tr : List (Event ρ)} {e : Event ρ} {r : ρ}

theorem sound_concat : Sound (tr ++ [e]) ↔ Sound tr ∧ ∀ e' ∈ tr, e'.Allows e := by
  rw [Sound, List.pairwise_append]
  constructor
  · intro h
    rcases h with ⟨htr, -, hcross⟩
    exact ⟨htr, fun e' he' => hcross e' he' e (List.mem_singleton_self e)⟩
  · intro h
    refine ⟨h.1, List.pairwise_singleton _ _, ?_⟩
    intro e' he' e'' he''
    rw [List.mem_singleton.mp he'']
    exact h.2 e' he'

theorem sound_acquired : Sound (tr ++ [.acquired r]) ↔ Sound tr := by
  rw [sound_concat]
  apply and_iff_left
  intro e' _
  cases e' <;> exact trivial

theorem allows_used : e.Allows (.used r) ↔ e ≠ .released r := by
  cases e <;> simp [Event.Allows]

theorem allows_released : e.Allows (.released r) ↔ e ≠ .released r := by
  cases e <;> simp [Event.Allows]

theorem sound_used : Sound (tr ++ [.used r]) ↔ Sound tr ∧ .released r ∉ tr := by
  simp only [sound_concat, allows_used]
  exact and_congr_right fun _ => List.forall_mem_ne'

theorem sound_released : Sound (tr ++ [.released r]) ↔ Sound tr ∧ .released r ∉ tr := by
  simp only [sound_concat, allows_released]
  exact and_congr_right fun _ => List.forall_mem_ne'

theorem Sound.released_once [DecidableEq ρ] (hsound : Sound tr) (hr : .released r ∈ tr) :
    tr.count (.released r) = 1 := by
  induction tr with
  | nil => cases hr
  | cons e tr ih =>
    obtain ⟨hhead, htail⟩ := List.pairwise_cons.mp hsound
    by_cases he : e = .released r
    · subst he
      have hnot : .released r ∉ tr := fun h => hhead _ h rfl
      rw [List.count_cons_self, List.count_eq_zero.mpr hnot]
    · rw [List.count_cons_of_ne he]
      exact ih htail ((List.mem_cons.mp hr).resolve_left (Ne.symm he))

theorem live_concat (hr : e ≠ .acquired r) (hr' : e ≠ .released r) :
    Live (tr ++ [e]) r ↔ Live tr r := by
  simp only [Live, List.mem_append, List.mem_singleton, hr.symm, hr'.symm, or_false]

theorem live_used {r' : ρ} : Live (tr ++ [.used r']) r ↔ Live tr r :=
  live_concat nofun nofun

theorem live_acquired {r' : ρ} (h : r' ≠ r) : Live (tr ++ [.acquired r']) r ↔ Live tr r :=
  live_concat (fun heq => h (Event.acquired.inj heq)) nofun

theorem live_released {r' : ρ} (h : r' ≠ r) : Live (tr ++ [.released r']) r ↔ Live tr r :=
  live_concat nofun (fun heq => h (Event.released.inj heq))

theorem not_live_released : ¬ Live (tr ++ [.released r]) r := by
  intro h
  exact h.2 (List.mem_append_right tr (List.mem_singleton_self _))

end Traces

section Updates
variable [DecidableEq ι] {held : ι → Option ρ} {i j : ι} {r r' : ρ}

theorem update_some_iff :
    Function.update held i (some r) j = some r' ↔ j = i ∧ r' = r ∨ j ≠ i ∧ held j = some r' := by
  by_cases hji : j = i
  · subst hji
    simp [eq_comm]
  · simp [hji]

theorem update_none_iff :
    Function.update held i none j = some r ↔ j ≠ i ∧ held j = some r := by
  by_cases hji : j = i
  · subst hji
    simp
  · simp [hji]

end Updates

namespace Kept
variable {tr : List (Event ρ)} {held : ι → Option ρ} {loose : List ρ} {r : ρ} {i : ι}

theorem start : Kept ([] : List (Event ρ)) (fun _ : ι => none) [] where
  sound := List.Pairwise.nil
  known := nofun
  nodup := List.nodup_nil
  loose_live := nofun
  held_live := nofun
  held_once := nofun
  apart := nofun
  settled _ h := nomatch h.1

theorem perm (h : Kept tr held loose) {loose' : List ρ} (hp : loose.Perm loose') :
    Kept tr held loose' where
  sound := h.sound
  known := h.known
  nodup := hp.nodup_iff.mp h.nodup
  loose_live r hr := h.loose_live r (hp.mem_iff.mpr hr)
  held_live := h.held_live
  held_once := h.held_once
  apart r hr := h.apart r (hp.mem_iff.mpr hr)
  settled r hr := (h.settled r hr).imp_left hp.mem_iff.mp

/-- A resource not known before. -/
theorem acquire (h : Kept tr held loose) (hr : .acquired r ∉ tr) :
    Kept (tr ++ [.acquired r]) held (r :: loose) := by
  have hnew : ∀ {r'}, Live tr r' → r ≠ r' := by
    intro r' hlive heq
    exact hr (heq ▸ hlive.1)
  have hkeep : ∀ {r'}, Live tr r' → Live (tr ++ [.acquired r]) r' :=
    fun hlive => (live_acquired (hnew hlive)).mpr hlive
  have hself : Live (tr ++ [.acquired r]) r := by
    refine ⟨List.mem_append_right tr (List.mem_singleton_self _), ?_⟩
    intro hmem
    rcases List.mem_append.mp hmem with hmem | hmem
    · exact hr (h.known r hmem)
    · cases List.mem_singleton.mp hmem
  refine ⟨sound_acquired.mpr h.sound, ?_, ?_, ?_, ?_, h.held_once, ?_, ?_⟩
  · intro r' hmem
    rcases List.mem_append.mp hmem with hmem | hmem
    · exact List.mem_append_left _ (h.known r' hmem)
    · cases List.mem_singleton.mp hmem
  · apply List.nodup_cons.mpr
    exact ⟨fun hmem => hnew (h.loose_live r hmem) rfl, h.nodup⟩
  · intro r' hmem
    rcases List.mem_cons.mp hmem with rfl | hmem
    · exact hself
    · exact hkeep (h.loose_live r' hmem)
  · intro i r' hi
    exact hkeep (h.held_live i r' hi)
  · intro r' hmem i
    rcases List.mem_cons.mp hmem with rfl | hmem
    · exact fun hi => hnew (h.held_live i r' hi) rfl
    · exact h.apart r' hmem i
  · intro r' hlive
    by_cases heq : r = r'
    · exact Or.inl (heq ▸ List.mem_cons_self)
    · exact (h.settled r' ((live_acquired heq).mp hlive)).imp_left (List.mem_cons_of_mem r)

theorem use (h : Kept tr held loose) (hlive : Live tr r) : Kept (tr ++ [.used r]) held loose where
  sound := sound_used.mpr ⟨h.sound, hlive.2⟩
  known r' hmem := by
    rcases List.mem_append.mp hmem with hmem | hmem
    · exact List.mem_append_left _ (h.known r' hmem)
    · cases List.mem_singleton.mp hmem
  nodup := h.nodup
  loose_live r' hmem := live_used.mpr (h.loose_live r' hmem)
  held_live i r' hi := live_used.mpr (h.held_live i r' hi)
  held_once := h.held_once
  apart := h.apart
  settled r' hr' := h.settled r' (live_used.mp hr')

theorem useAll (h : Kept tr held loose) {rs : List ρ} (hlive : ∀ r ∈ rs, Live tr r) :
    Kept (tr ++ rs.map .used) held loose := by
  induction rs generalizing tr with
  | nil =>
    rw [List.map_nil, List.append_nil]
    exact h
  | cons r rs ih =>
    rw [List.map_cons, List.append_cons]
    apply ih (h.use (hlive r List.mem_cons_self))
    intro r' hmem
    exact live_used.mpr (hlive r' (List.mem_cons_of_mem r hmem))

theorem release (h : Kept tr held (r :: loose)) : Kept (tr ++ [.released r]) held loose := by
  obtain ⟨hnot, hnodup⟩ := List.nodup_cons.mp h.nodup
  have hlive := h.loose_live r List.mem_cons_self
  refine ⟨sound_released.mpr ⟨h.sound, hlive.2⟩, ?_, hnodup, ?_, ?_, h.held_once, ?_, ?_⟩
  · intro r' hmem
    apply List.mem_append_left
    rcases List.mem_append.mp hmem with hmem | hmem
    · exact h.known r' hmem
    · cases List.mem_singleton.mp hmem
      exact hlive.1
  · intro r' hmem
    refine (live_released ?_).mpr (h.loose_live r' (List.mem_cons_of_mem r hmem))
    intro heq
    exact hnot (heq ▸ hmem)
  · intro i r' hi
    refine (live_released ?_).mpr (h.held_live i r' hi)
    intro heq
    exact h.apart r List.mem_cons_self i (heq ▸ hi)
  · intro r' hmem
    exact h.apart r' (List.mem_cons_of_mem r hmem)
  · intro r' hr'
    have hne : r ≠ r' := by
      intro heq
      exact not_live_released (heq ▸ hr')
    refine (h.settled r' ((live_released hne).mp hr')).imp_left ?_
    intro hmem
    exact (List.mem_cons.mp hmem).resolve_left hne.symm

variable [DecidableEq ι]

/-- An object that owns nothing becomes the owner. -/
theorem give (h : Kept tr held (r :: loose)) (hi : held i = none) :
    Kept tr (Function.update held i (some r)) loose := by
  obtain ⟨hnot, hnodup⟩ := List.nodup_cons.mp h.nodup
  refine ⟨h.sound, h.known, hnodup, ?_, ?_, ?_, ?_, ?_⟩
  · intro r' hmem
    exact h.loose_live r' (List.mem_cons_of_mem r hmem)
  · intro j r' hj
    rcases update_some_iff.mp hj with ⟨-, rfl⟩ | ⟨-, hj⟩
    · exact h.loose_live r' List.mem_cons_self
    · exact h.held_live j r' hj
  · intro j k r' hj hk
    rcases update_some_iff.mp hj with ⟨rfl, rfl⟩ | ⟨-, holds⟩
    · rcases update_some_iff.mp hk with ⟨rfl, -⟩ | ⟨-, holds'⟩
      · rfl
      · exact absurd holds' (h.apart r' List.mem_cons_self k)
    · rcases update_some_iff.mp hk with ⟨-, rfl⟩ | ⟨-, holds'⟩
      · exact absurd holds (h.apart r' List.mem_cons_self j)
      · exact h.held_once j k r' holds holds'
  · intro r' hmem j hj
    rcases update_some_iff.mp hj with ⟨-, rfl⟩ | ⟨-, hj⟩
    · exact hnot hmem
    · exact h.apart r' (List.mem_cons_of_mem r hmem) j hj
  · intro r' hlive
    rcases h.settled r' hlive with hmem | hex
    · rcases List.mem_cons.mp hmem with rfl | hmem
      · exact Or.inr ⟨i, Function.update_self i _ held⟩
      · exact Or.inl hmem
    · rcases hex with ⟨j, hj⟩
      have hji : j ≠ i := by
        intro heq
        rw [heq, hi] at hj
        cases hj
      exact Or.inr ⟨j, update_some_iff.mpr (Or.inr ⟨hji, hj⟩)⟩

theorem take (h : Kept tr held loose) (hi : held i = some r) :
    Kept tr (Function.update held i none) (r :: loose) := by
  refine ⟨h.sound, h.known, ?_, ?_, ?_, ?_, ?_, ?_⟩
  · apply List.nodup_cons.mpr
    exact ⟨fun hmem => h.apart r hmem i hi, h.nodup⟩
  · intro r' hmem
    rcases List.mem_cons.mp hmem with rfl | hmem
    · exact h.held_live i r' hi
    · exact h.loose_live r' hmem
  · intro j r' hj
    exact h.held_live j r' (update_none_iff.mp hj).2
  · intro j k r' hj hk
    exact h.held_once j k r' (update_none_iff.mp hj).2 (update_none_iff.mp hk).2
  · intro r' hmem j hj
    rcases List.mem_cons.mp hmem with rfl | hmem
    · exact (update_none_iff.mp hj).1 (h.held_once j i r' (update_none_iff.mp hj).2 hi)
    · exact h.apart r' hmem j (update_none_iff.mp hj).2
  · intro r' hlive
    rcases h.settled r' hlive with hmem | hex
    · exact Or.inl (List.mem_cons_of_mem r hmem)
    · rcases hex with ⟨j, hj⟩
      by_cases hji : j = i
      · rw [hji, hi] at hj
        exact Or.inl (Option.some.inj hj ▸ List.mem_cons_self)
      · exact Or.inr ⟨j, update_none_iff.mpr ⟨hji, hj⟩⟩

omit [DecidableEq ι]
variable [DecidableEq ρ] {owns : ι → ρ → Prop}

/-- A call that ends with nothing loose leaves every resource accounted for. -/
theorem accounted (h : Kept tr held []) (howns : ∀ i r, owns i r ↔ held i = some r) :
    Accounted tr owns := by
  intro r hr
  by_cases hrel : .released r ∈ tr
  · exact Or.inl (h.sound.released_once hrel)
  · refine Or.inr ⟨List.count_eq_zero.mpr hrel, ?_⟩
    rcases h.settled r ⟨hr, hrel⟩ with hmem | hex
    · cases hmem
    · rcases hex with ⟨i, hi⟩
      refine ⟨i, (howns i r).mpr hi, ?_⟩
      intro j hj
      exact h.held_once j i r ((howns j r).mp hj) hi

/-- What is loose when a call ends is lost. -/
theorem not_accounted (h : Kept tr held (r :: loose)) (howns : ∀ i r, owns i r ↔ held i = some r) :
    ¬ Accounted tr owns := by
  intro hall
  have hlive := h.loose_live r List.mem_cons_self
  rcases hall r hlive.1 with hone | ⟨-, hex⟩
  · rw [List.count_eq_zero.mpr hlive.2] at hone
    cases hone
  · rcases hex.exists with ⟨i, hi⟩
    exact h.apart r List.mem_cons_self i ((howns i r).mp hi)

end Kept

end PcapyNg.Ownership
