import Mathlib.Data.List.Basic
import Mathlib.Tactic.Common

/-!
# Reading records into a handler that may ask to stop

A read hands over records one by one until a count is reached, the source ends, or the
handler has asked for a break, which is looked at before every record. A loop repeats
reads. Both are relations, so that an implementation is free in what they leave open;
`Reads.quiet` and `Reads.broke` say what any implementation delivers.
-/

namespace PcapyNg.ReadLoop
set_option autoImplicit false

universe u v
variable {ρ : Type u} {σ : Type v}

inductive Ending where
  | eof
  | error
  deriving DecidableEq

structure Source (ρ : Type u) where
  pending : List ρ
  ending : Ending
  brk : Bool := false
  deriving DecidableEq

/-- The new state, and whether a break is asked for. -/
abbrev Handler (σ : Type v) (ρ : Type u) := σ → ρ → σ × Bool

section Runs
variable (h : Handler σ ρ)

/-- One read of `cnt` records, any number if `cnt` is not positive, of which `n` are already
delivered: source and state before, value returned, source and state after. -/
inductive Reads (cnt : Int) : Nat → Source ρ → σ → Int → Source ρ → σ → Prop where
  | broken (rs : List ρ) (e : Ending) (s : σ) : Reads cnt 0 ⟨rs, e, true⟩ s (-2) ⟨rs, e, false⟩ s
  | leaves {n : Nat} (rs : List ρ) (e : Ending) (s : σ) (hn : 0 < n) :
      Reads cnt n ⟨rs, e, true⟩ s n ⟨rs, e, true⟩ s
  | eof {n : Nat} {ret : Int} (s : σ) (hret : ret = n ∨ ret = 0) :
      Reads cnt n ⟨[], .eof, false⟩ s ret ⟨[], .eof, false⟩ s
  | error {n : Nat} (s : σ) : Reads cnt n ⟨[], .error, false⟩ s (-1) ⟨[], .error, false⟩ s
  | last {n : Nat} (r : ρ) (rs : List ρ) (e : Ending) (s : σ) (hcnt : (n : Int) + 1 = cnt) :
      Reads cnt n ⟨r :: rs, e, false⟩ s cnt ⟨rs, e, (h s r).2⟩ (h s r).1
  | next {n : Nat} {r : ρ} {rs : List ρ} {e : Ending} {s : σ} {ret : Int} {src' : Source ρ} {s' : σ}
      (hcnt : (n : Int) + 1 ≠ cnt)
      (hrest : Reads cnt (n + 1) ⟨rs, e, (h s r).2⟩ (h s r).1 ret src' s') :
      Reads cnt n ⟨r :: rs, e, false⟩ s ret src' s'

/-- Reads until one returns no positive number or `cnt` records are done. -/
inductive Loops : Int → Source ρ → σ → Int → Source ρ → σ → Prop where
  | stop {cnt ret : Int} {src src' : Source ρ} {s s' : σ}
      (hread : Reads h cnt 0 src s ret src' s') (hret : ret ≤ 0) : Loops cnt src s ret src' s'
  | done {cnt ret : Int} {src src' : Source ρ} {s s' : σ}
      (hread : Reads h cnt 0 src s ret src' s') (hret : 0 < ret) (hcnt : 0 < cnt ∧ cnt ≤ ret) :
      Loops cnt src s 0 src' s'
  | again {cnt n ret : Int} {src src₁ src' : Source ρ} {s s₁ s' : σ}
      (hread : Reads h cnt 0 src s n src₁ s₁) (hret : 0 < n) (hcnt : ¬ (0 < cnt ∧ cnt ≤ n))
      (hrest : Loops (if 0 < cnt then cnt - n else cnt) src₁ s₁ ret src' s') :
      Loops cnt src s ret src' s'

def feed : σ → List ρ → σ
  | s, [] => s
  | s, r :: rs => feed (h s r).1 rs

/-- No record of the list makes the handler ask for a break. -/
def Quiet : σ → List ρ → Prop
  | _, [] => True
  | s, r :: rs => (h s r).2 = false ∧ Quiet (h s r).1 rs

end Runs

/-- The records delivered when nothing asks for a break. -/
def due (cnt : Int) (rs : List ρ) : List ρ := if 0 < cnt then rs.take cnt.toNat else rs

/-- The source ends in an error before `cnt` records are delivered. -/
def CutShort (cnt : Int) (src : Source ρ) : Prop :=
  src.ending = .error ∧ ¬ (0 < cnt ∧ cnt ≤ src.pending.length)

instance (cnt : Int) (src : Source ρ) : Decidable (CutShort cnt src) := by
  unfold CutShort
  infer_instance

theorem due_nil (cnt : Int) : due cnt ([] : List ρ) = [] := by simp [due]

theorem due_one (r : ρ) (rs : List ρ) : due 1 (r :: rs) = [r] := by simp [due]

theorem due_cons {cnt : Int} (hcnt : cnt ≤ 0 ∨ 1 < cnt) (r : ρ) (rs : List ρ) :
    due cnt (r :: rs) = r :: due (cnt - 1) rs := by
  rcases hcnt with hcnt | hcnt
  · rw [due, due, if_neg (by omega), if_neg (by omega)]
  · have htake : cnt.toNat = (cnt - 1).toNat + 1 := by omega
    rw [due, due, if_pos (by omega), if_pos (by omega), htake, List.take_succ_cons]

theorem due_of_all {cnt : Int} {rs : List ρ} (hcnt : cnt ≤ 0 ∨ rs.length ≤ cnt) : due cnt rs = rs := by
  rw [due]
  split
  · exact List.take_of_length_le (by omega)
  · rfl

theorem due_prefix (cnt : Int) (rs : List ρ) : due cnt rs ++ rs.drop (due cnt rs).length = rs := by
  rw [due]
  split
  · exact List.prefix_iff_eq_append.mp (List.take_prefix _ _)
  · simp

theorem due_length_le {cnt : Int} (hcnt : 0 < cnt) (rs : List ρ) : (due cnt rs).length ≤ cnt := by
  rw [due, if_pos hcnt, List.length_take]
  omega

theorem due_split {cnt : Int} {rs pre post : List ρ} {r : ρ} (h : due cnt rs = pre ++ r :: post) :
    rs = pre ++ r :: (post ++ rs.drop (due cnt rs).length) := by
  rw [← List.cons_append, ← List.append_assoc, ← h, due_prefix]

theorem due_limit {cnt : Int} {rs pre post : List ρ} {r : ρ} (h : due cnt rs = pre ++ r :: post) :
    cnt ≤ 0 ∨ pre.length < cnt := by
  by_cases hcnt : 0 < cnt
  · have hle := due_length_le hcnt rs
    rw [h, List.length_append, List.length_cons] at hle
    push_cast at hle
    omega
  · exact Or.inl (by omega)

section Feed
variable {h : Handler σ ρ}

theorem quiet_append (s : σ) (xs ys : List ρ) :
    Quiet h s (xs ++ ys) ↔ Quiet h s xs ∧ Quiet h (feed h s xs) ys := by
  induction xs generalizing s with
  | nil => simp [Quiet, feed]
  | cons x xs ih => simp only [List.cons_append, Quiet, feed, ih, and_assoc]

/-- A handler is quiet on a list, or there is a first record that makes it ask for a break. -/
theorem quiet_or_break (s : σ) (rs : List ρ) :
    Quiet h s rs ∨ ∃ pre r post, rs = pre ++ r :: post ∧ Quiet h s pre ∧
      (h (feed h s pre) r).2 = true := by
  induction rs generalizing s with
  | nil => exact Or.inl trivial
  | cons r rs ih =>
    cases hb : (h s r).2 with
    | true => exact Or.inr ⟨[], r, rs, rfl, trivial, hb⟩
    | false =>
      rcases ih (h s r).1 with hq | ⟨pre, x, post, rfl, hq, hx⟩
      · exact Or.inl ⟨hb, hq⟩
      · exact Or.inr ⟨r :: pre, x, post, rfl, ⟨hb, hq⟩, hx⟩

theorem quiet_of_never (hn : ∀ s r, (h s r).2 = false) (s : σ) (rs : List ρ) : Quiet h s rs := by
  induction rs generalizing s with
  | nil => trivial
  | cons r rs ih => exact ⟨hn s r, ih _⟩

theorem feed_append (s : σ) (xs ys : List ρ) : feed h s (xs ++ ys) = feed h (feed h s xs) ys := by
  induction xs generalizing s with
  | nil => rfl
  | cons x xs ih => exact ih _

end Feed

/-- The handler asks for a break at the record that completes the count, and not before. -/
def BreaksOnLast (h : Handler σ ρ) (s : σ) (cnt : Int) (rs : List ρ) : Prop :=
  ∃ pre r post, rs = pre ++ r :: post ∧ cnt = pre.length + 1 ∧ Quiet h s pre ∧
    (h (feed h s pre) r).2 = true

section Outcomes
variable {h : Handler σ ρ} {cnt ret : Int} {e : Ending} {s s' : σ} {src' : Source ρ}

theorem Reads.flagged {n : Nat} {rs : List ρ} (hr : Reads h cnt n ⟨rs, e, true⟩ s ret src' s') :
    s' = s ∧ (n = 0 ∧ ret = -2 ∧ src' = ⟨rs, e, false⟩ ∨ 0 < n ∧ ret = n ∧ src' = ⟨rs, e, true⟩) := by
  cases hr with
  | broken => exact ⟨rfl, Or.inl ⟨rfl, rfl, rfl⟩⟩
  | leaves _ _ _ hn => exact ⟨rfl, Or.inr ⟨hn, rfl, rfl⟩⟩

/-- While no break is asked for, a read delivers what is due. -/
theorem Reads.quiet {n : Nat} {rs : List ρ} (hr : Reads h cnt n ⟨rs, e, false⟩ s ret src' s')
    (hlim : cnt ≤ 0 ∨ n < cnt) (hq : Quiet h s (due (cnt - n) rs)) :
    s' = feed h s (due (cnt - n) rs) ∧
      src' = ⟨rs.drop (due (cnt - n) rs).length, e, false⟩ ∧
      ((0 < cnt ∧ cnt ≤ n + rs.length ∧ ret = cnt) ∨
        ((cnt ≤ 0 ∨ n + rs.length < cnt) ∧
          (e = .eof ∧ (ret = n + rs.length ∨ ret = 0) ∨ e = .error ∧ ret = -1))) := by
  induction rs generalizing n s with
  | nil =>
    have hopen : cnt ≤ 0 ∨ (n : Int) + ([] : List ρ).length < cnt := by simpa using hlim
    rw [due_nil]
    cases hr with
    | eof _ hret => exact ⟨rfl, rfl, Or.inr ⟨hopen, Or.inl ⟨rfl, by simpa using hret⟩⟩⟩
    | error => exact ⟨rfl, rfl, Or.inr ⟨hopen, Or.inr ⟨rfl, rfl⟩⟩⟩
  | cons r rs ih =>
    cases hr with
    | last _ _ _ _ hcnt =>
      rw [(by omega : cnt - n = 1), due_one] at hq ⊢
      refine ⟨rfl, ?_, Or.inl ⟨by omega, by simp; omega, rfl⟩⟩
      rw [hq.1]
      rfl
    | next hcnt hrest =>
      rw [due_cons (by omega)] at hq ⊢
      have hstep : cnt - n - 1 = cnt - (n + 1 : Nat) := by omega
      rw [hstep] at hq ⊢
      rw [hq.1] at hrest
      obtain ⟨hs, hsrc, hret⟩ := ih hrest (by omega) hq.2
      refine ⟨hs, hsrc, ?_⟩
      simp only [List.length_cons]
      push_cast at hret ⊢
      rcases hret with ⟨h0, hle, rfl⟩ | ⟨hopen, ⟨he, hval⟩ | hend⟩
      · exact Or.inl ⟨h0, by omega, rfl⟩
      · exact Or.inr ⟨by omega, Or.inl ⟨he, by omega⟩⟩
      · exact Or.inr ⟨by omega, Or.inr hend⟩

/-- The first record that asks for a break is the last one a read delivers. -/
theorem Reads.broke {n : Nat} {pre post : List ρ} {r : ρ}
    (hr : Reads h cnt n ⟨pre ++ r :: post, e, false⟩ s ret src' s') (hq : Quiet h s pre)
    (hb : (h (feed h s pre) r).2 = true) (hlim : cnt ≤ 0 ∨ n + pre.length < cnt) :
    s' = feed h s (pre ++ [r]) ∧ src' = ⟨post, e, true⟩ ∧ ret = n + pre.length + 1 := by
  induction pre generalizing n s with
  | nil =>
    rw [feed] at hb
    simp only [List.nil_append, List.length_nil] at hr hlim ⊢
    cases hr with
    | last _ _ _ _ hcnt => exact ⟨rfl, by rw [hb], by omega⟩
    | next hcnt hrest =>
      rw [hb] at hrest
      obtain ⟨hs, hret⟩ := hrest.flagged
      rcases hret with ⟨hn, -, -⟩ | ⟨-, hret, hsrc⟩
      · omega
      · exact ⟨hs, hsrc, by rw [hret]; push_cast; omega⟩
  | cons x pre ih =>
    simp only [List.cons_append, List.length_cons] at hr hlim ⊢
    push_cast at hlim ⊢
    cases hr with
    | last _ _ _ _ hcnt => omega
    | next hcnt hrest =>
      rw [hq.1] at hrest
      obtain ⟨hs, hsrc, hret⟩ := ih hrest hq.2 hb (by push_cast; omega)
      refine ⟨hs, hsrc, ?_⟩
      push_cast at hret
      omega

theorem Reads.quiet_start {rs : List ρ} (hr : Reads h cnt 0 ⟨rs, e, false⟩ s ret src' s')
    (hq : Quiet h s (due cnt rs)) :
    s' = feed h s (due cnt rs) ∧ src' = ⟨rs.drop (due cnt rs).length, e, false⟩ ∧
      if CutShort cnt ⟨rs, e, false⟩ then ret = -1 else 0 ≤ ret := by
  have hzero : cnt - ((0 : Nat) : Int) = cnt := by omega
  obtain ⟨hs, hsrc, hret⟩ := hr.quiet (by omega) (by rw [hzero]; exact hq)
  rw [hzero] at hs hsrc
  refine ⟨hs, hsrc, ?_⟩
  rcases hret with ⟨h0, hle, rfl⟩ | ⟨hopen, hend⟩
  · rw [if_neg fun hc => hc.2 ⟨h0, by simpa using hle⟩]
    omega
  · rcases hend with ⟨rfl, hval⟩ | ⟨rfl, rfl⟩
    · rw [if_neg (by simp [CutShort])]
      omega
    · rw [if_pos ⟨rfl, by simp only; omega⟩]

theorem Reads.broke_start {rs pre post : List ρ} {r : ρ}
    (hr : Reads h cnt 0 ⟨rs, e, false⟩ s ret src' s') (hdue : due cnt rs = pre ++ r :: post)
    (hq : Quiet h s pre) (hb : (h (feed h s pre) r).2 = true) : s' = feed h s (pre ++ [r]) := by
  rw [due_split hdue] at hr
  have hlim := due_limit hdue
  exact (hr.broke hq hb (by push_cast; omega)).1

theorem Loops.flagged {rs : List ρ} (hl : Loops h cnt ⟨rs, e, true⟩ s ret src' s') :
    s' = s ∧ ret = -2 ∧ src' = ⟨rs, e, false⟩ := by
  cases hl with
  | stop hread =>
    obtain ⟨hs, ⟨-, hret, hsrc⟩ | ⟨hn, -⟩⟩ := hread.flagged
    · exact ⟨hs, hret, hsrc⟩
    · omega
  | done hread hpos =>
    obtain ⟨-, ⟨-, hret, -⟩ | ⟨hn, -⟩⟩ := hread.flagged <;> omega
  | again hread hpos =>
    obtain ⟨-, ⟨-, hret, -⟩ | ⟨hn, -⟩⟩ := hread.flagged <;> omega

theorem Loops.exhausted (hl : Loops h cnt ⟨[], .eof, false⟩ s ret src' s') :
    s' = s ∧ ret = 0 ∧ src' = ⟨[], .eof, false⟩ := by
  cases hl with
  | stop hread =>
    cases hread with
    | eof _ hret => exact ⟨rfl, by simpa using hret, rfl⟩
  | done hread hpos =>
    cases hread with
    | eof _ hret => simp at hret; omega
  | again hread hpos =>
    cases hread with
    | eof _ hret => simp at hret; omega

/-- While no break is asked for, a loop delivers what is due and fails if it is cut short. -/
theorem Loops.quiet {rs : List ρ} (hl : Loops h cnt ⟨rs, e, false⟩ s ret src' s')
    (hq : Quiet h s (due cnt rs)) :
    s' = feed h s (due cnt rs) ∧ src' = ⟨rs.drop (due cnt rs).length, e, false⟩ ∧
      ret = if CutShort cnt ⟨rs, e, false⟩ then -1 else 0 := by
  have hlim : cnt ≤ 0 ∨ ((0 : Nat) : Int) < cnt := by omega
  rw [← Int.sub_zero cnt, ← Int.natCast_zero] at hq
  cases hl with
  | stop hread hret =>
    obtain ⟨hs, hsrc, ⟨h0, hle, rfl⟩ | ⟨hopen, hend⟩⟩ := hread.quiet hlim hq
    · omega
    · simp only [Int.natCast_zero, Int.sub_zero, Int.zero_add] at hs hsrc hend hopen
      refine ⟨hs, hsrc, ?_⟩
      rcases hend with ⟨rfl, hval⟩ | ⟨rfl, rfl⟩
      · rw [if_neg (by simp [CutShort])]
        omega
      · rw [if_pos ⟨rfl, by simp only; omega⟩]
  | done hread hpos hcnt =>
    obtain ⟨hs, hsrc, ⟨h0, hle, rfl⟩ | ⟨hopen, hend⟩⟩ := hread.quiet hlim hq
    · simp only [Int.natCast_zero, Int.sub_zero, Int.zero_add] at hs hsrc hle
      exact ⟨hs, hsrc, by rw [if_neg fun hc => hc.2 ⟨h0, hle⟩]⟩
    · rcases hend with ⟨-, hval⟩ | ⟨-, hval⟩ <;> omega
  | again hread hpos hcnt hrest =>
    obtain ⟨hs, hsrc, ⟨h0, hle, rfl⟩ | ⟨hopen, hend⟩⟩ := hread.quiet hlim hq
    · omega
    · simp only [Int.natCast_zero, Int.sub_zero, Int.zero_add] at hs hsrc hend hopen
      rcases hend with ⟨rfl, hval⟩ | ⟨-, hval⟩
      · -- the first read ended at the end of the file, so the second delivers nothing
        have hall : due cnt rs = rs := due_of_all (by omega)
        rw [hall, List.drop_length] at hsrc
        subst hsrc
        obtain ⟨hs', hret, hsrc'⟩ := hrest.exhausted
        rw [hall, List.drop_length]
        rw [hall] at hs
        exact ⟨hs'.trans hs, hsrc', by rw [hret, if_neg (by simp [CutShort])]⟩
      · omega

/-- The first record that asks for a break is the last one a loop delivers; the break goes
unnoticed when that record also completes the count. -/
theorem Loops.broke {pre post : List ρ} {r : ρ}
    (hl : Loops h cnt ⟨pre ++ r :: post, e, false⟩ s ret src' s') (hq : Quiet h s pre)
    (hb : (h (feed h s pre) r).2 = true) (hlim : cnt ≤ 0 ∨ pre.length < cnt) :
    s' = feed h s (pre ++ [r]) ∧ (ret = if cnt = pre.length + 1 then 0 else -2) ∧
      src' = ⟨post, e, decide (cnt = pre.length + 1)⟩ := by
  have hlim' : cnt ≤ 0 ∨ ((0 : Nat) : Int) + pre.length < cnt := by omega
  cases hl with
  | stop hread hret =>
    obtain ⟨-, -, hval⟩ := hread.broke hq hb hlim'
    omega
  | done hread hpos hcnt =>
    obtain ⟨hs, hsrc, hval⟩ := hread.broke hq hb hlim'
    have hlast : cnt = pre.length + 1 := by omega
    exact ⟨hs, by rw [if_pos hlast], by rw [hsrc, decide_eq_true hlast]⟩
  | again hread hpos hcnt hrest =>
    obtain ⟨hs, rfl, hval⟩ := hread.broke hq hb hlim'
    obtain ⟨hs', hret, hsrc⟩ := hrest.flagged
    have hlast : ¬ cnt = pre.length + 1 := by omega
    exact ⟨hs'.trans hs, by rw [hret, if_neg hlast], by rw [hsrc, decide_eq_false hlast]⟩

theorem Loops.broke_due {rs pre post : List ρ} {r : ρ} (hl : Loops h cnt ⟨rs, e, false⟩ s ret src' s')
    (hdue : due cnt rs = pre ++ r :: post) (hq : Quiet h s pre)
    (hb : (h (feed h s pre) r).2 = true) :
    s' = feed h s (pre ++ [r]) ∧ ret = if cnt = pre.length + 1 then 0 else -2 := by
  rw [due_split hdue] at hl
  obtain ⟨hs, hret, -⟩ := hl.broke hq hb (due_limit hdue)
  exact ⟨hs, hret⟩

/-! What a run takes off the source, it has handed over. -/

theorem Reads.consumes {n : Nat} {src : Source ρ} (hr : Reads h cnt n src s ret src' s') :
    ∃ done, src.pending = done ++ src'.pending ∧ s' = feed h s done ∧
      src'.ending = src.ending := by
  induction hr with
  | broken => exact ⟨[], rfl, rfl, rfl⟩
  | leaves => exact ⟨[], rfl, rfl, rfl⟩
  | eof => exact ⟨[], rfl, rfl, rfl⟩
  | error => exact ⟨[], rfl, rfl, rfl⟩
  | last r rs => exact ⟨[r], rfl, rfl, rfl⟩
  | @next n r rs e s ret src' s' _ _ ih =>
    rcases ih with ⟨done, hpending, hs, hending⟩
    refine ⟨r :: done, ?_, hs, hending⟩
    rw [List.cons_append, ← hpending]

theorem Loops.consumes {src : Source ρ} (hl : Loops h cnt src s ret src' s') :
    ∃ done, src.pending = done ++ src'.pending ∧ s' = feed h s done ∧
      src'.ending = src.ending := by
  induction hl with
  | stop hread => exact hread.consumes
  | done hread => exact hread.consumes
  | again hread _ _ _ ih =>
    obtain ⟨done, hpending, hs, hending⟩ := hread.consumes
    rcases ih with ⟨more, hpending', hs', hending'⟩
    refine ⟨done ++ more, ?_, ?_, hending'.trans hending⟩
    · rw [List.append_assoc, ← hpending', hpending]
    · rw [hs', hs, feed_append]

/-! The break flag a run leaves behind. -/

theorem Reads.flag_iff {rs : List ρ} (hr : Reads h cnt 0 ⟨rs, e, false⟩ s ret src' s') :
    src'.brk = true ↔ ¬ Quiet h s (due cnt rs) := by
  rcases quiet_or_break (h := h) s (due cnt rs) with hq | ⟨pre, r, post, hdue, hq, hb⟩
  · obtain ⟨-, hsrc, -⟩ := hr.quiet_start hq
    rw [hsrc]
    exact iff_of_false Bool.false_ne_true (not_not.mpr hq)
  · have hlim := due_limit hdue
    rw [hdue]
    rw [due_split hdue] at hr
    obtain ⟨-, hsrc, -⟩ := hr.broke hq hb (by push_cast; omega)
    rw [hsrc]
    apply iff_of_true rfl
    intro hquiet
    have hlast := ((quiet_append s pre (r :: post)).mp hquiet).2.1
    rw [hb] at hlast
    cases hlast

theorem Reads.ne_broken {rs : List ρ} (hr : Reads h cnt 0 ⟨rs, e, false⟩ s ret src' s') :
    ret ≠ -2 := by
  rcases quiet_or_break (h := h) s (due cnt rs) with hq | ⟨pre, r, post, hdue, hq, hb⟩
  · obtain ⟨-, -, hret⟩ := hr.quiet_start hq
    split at hret <;> omega
  · have hlim := due_limit hdue
    rw [due_split hdue] at hr
    obtain ⟨-, -, hret⟩ := hr.broke hq hb (by push_cast; omega)
    omega

theorem first_break_length {pre pre' post post' : List ρ} {r r' : ρ}
    (heq : pre ++ r :: post = pre' ++ r' :: post') (hq : Quiet h s pre)
    (hb : (h (feed h s pre) r).2 = true) (hq' : Quiet h s pre')
    (hb' : (h (feed h s pre') r').2 = true) : pre.length = pre'.length := by
  induction pre generalizing s pre' with
  | nil =>
    cases pre' with
    | nil => rfl
    | cons x pre' =>
      cases heq
      exact absurd (hb.symm.trans hq'.1) (by decide)
  | cons x pre ih =>
    cases pre' with
    | nil =>
      cases heq
      exact absurd (hb'.symm.trans hq.1) (by decide)
    | cons y pre' =>
      obtain ⟨rfl, hrest⟩ := List.cons.inj heq
      exact congrArg (· + 1) (ih hrest hq.2 hb hq'.2 hb')

theorem breaksOnLast_iff {pre post : List ρ} {r : ρ} (hq : Quiet h s pre)
    (hb : (h (feed h s pre) r).2 = true) :
    BreaksOnLast h s cnt (pre ++ r :: post) ↔ cnt = pre.length + 1 := by
  constructor
  · intro hex
    rcases hex with ⟨pre', r', post', heq, hcnt, hq', hb'⟩
    rw [hcnt, first_break_length heq hq hb hq' hb']
  · intro hcnt
    exact ⟨pre, r, post, rfl, hcnt, hq, hb⟩

theorem not_breaksOnLast {rs : List ρ} (hq : Quiet h s (due cnt rs)) :
    ¬ BreaksOnLast h s cnt rs := by
  intro hex
  rcases hex with ⟨pre, r, post, rfl, hcnt, -, hb⟩
  have hdue : due cnt (pre ++ r :: post) = pre ++ [r] := by
    have htake : cnt.toNat = (pre ++ [r]).length := by
      rw [List.length_append, List.length_singleton]
      omega
    rw [due, if_pos (by omega), List.append_cons pre r post]
    exact List.take_left' htake.symm
  rw [hdue] at hq
  have hlast := ((quiet_append s pre [r]).mp hq).2.1
  rw [hb] at hlast
  cases hlast

theorem Loops.flag_iff {rs : List ρ} (hl : Loops h cnt ⟨rs, e, false⟩ s ret src' s') :
    src'.brk = true ↔ BreaksOnLast h s cnt rs := by
  rcases quiet_or_break (h := h) s (due cnt rs) with hq | ⟨pre, r, post, hdue, hq, hb⟩
  · obtain ⟨-, hsrc, -⟩ := hl.quiet hq
    rw [hsrc]
    exact iff_of_false Bool.false_ne_true (not_breaksOnLast hq)
  · have hlim := due_limit hdue
    rw [due_split hdue] at hl ⊢
    obtain ⟨-, -, hsrc⟩ := hl.broke hq hb hlim
    rw [hsrc, breaksOnLast_iff hq hb, decide_eq_true_eq]

/-- A loop is broken off by the handler, which is called last for that. -/
theorem Loops.asked {rs : List ρ} (hl : Loops h cnt ⟨rs, e, false⟩ s ret src' s') (hret : ret = -2) :
    ∃ s₀ r, (h s₀ r).2 = true ∧ s' = (h s₀ r).1 := by
  rcases quiet_or_break (h := h) s (due cnt rs) with hq | ⟨pre, r, post, hdue, hq, hb⟩
  · obtain ⟨-, -, hval⟩ := hl.quiet hq
    split at hval <;> omega
  · obtain ⟨hs, -⟩ := hl.broke_due hdue hq hb
    refine ⟨feed h s pre, r, hb, ?_⟩
    rw [hs, feed_append]
    rfl

end Outcomes

/-! An implementation: one read, and a loop that reads at most twice, since a read that stops
short of the count and of the end has left the break flag set. -/

section Implementation
variable (h : Handler σ ρ) (cnt : Int)

def read : Nat → List ρ → Ending → Bool → σ → Int × Source ρ × σ
  | n, rs, e, true, s => if n = 0 then (-2, ⟨rs, e, false⟩, s) else (n, ⟨rs, e, true⟩, s)
  | n, [], .eof, false, s => (n, ⟨[], .eof, false⟩, s)
  | _, [], .error, false, s => (-1, ⟨[], .error, false⟩, s)
  | n, r :: rs, e, false, s =>
    if (n : Int) + 1 = cnt then (cnt, ⟨rs, e, (h s r).2⟩, (h s r).1)
    else read (n + 1) rs e (h s r).2 (h s r).1

def loop (src : Source ρ) (s : σ) : Int × Source ρ × σ :=
  let (n, src₁, s₁) := read h cnt 0 src.pending src.ending src.brk s
  if n ≤ 0 then (n, src₁, s₁)
  else if 0 < cnt ∧ cnt ≤ n then (0, src₁, s₁)
  else read h (if 0 < cnt then cnt - n else cnt) 0 src₁.pending src₁.ending src₁.brk s₁

theorem read_reads (n : Nat) (rs : List ρ) (e : Ending) (brk : Bool) (s : σ) :
    Reads h cnt n ⟨rs, e, brk⟩ s (read h cnt n rs e brk s).1 (read h cnt n rs e brk s).2.1
      (read h cnt n rs e brk s).2.2 := by
  induction rs generalizing n brk s with
  | nil =>
    cases brk with
    | true =>
      rw [read]
      split
      · subst n
        exact .broken [] e s
      · exact .leaves [] e s (by omega)
    | false =>
      cases e with
      | eof => exact .eof s (Or.inl rfl)
      | error => exact .error s
  | cons r rs ih =>
    cases brk with
    | true =>
      rw [read]
      split
      · subst n
        exact .broken (r :: rs) e s
      · exact .leaves (r :: rs) e s (by omega)
    | false =>
      rw [read]
      split
      · rename_i hcnt
        exact .last r rs e s hcnt
      · rename_i hcnt
        exact .next hcnt (ih (n + 1) (h s r).2 (h s r).1)

variable {h cnt}

theorem Reads.stopped {n : Nat} {src src' : Source ρ} {s s' : σ} {ret : Int}
    (hr : Reads h cnt n src s ret src' s') (hret : 0 < ret) :
    (0 < cnt ∧ cnt ≤ ret) ∨ src'.brk = true ∨ src' = ⟨[], .eof, false⟩ := by
  induction hr with
  | broken => omega
  | leaves => exact Or.inr (Or.inl rfl)
  | eof => exact Or.inr (Or.inr rfl)
  | error => omega
  | last => exact Or.inl ⟨hret, Int.le_refl _⟩
  | next _ _ ih => exact ih hret

variable (h cnt)

theorem loop_loops (src : Source ρ) (s : σ) :
    Loops h cnt src s (loop h cnt src s).1 (loop h cnt src s).2.1 (loop h cnt src s).2.2 := by
  have hread := read_reads h cnt 0 src.pending src.ending src.brk s
  rw [loop]
  generalize read h cnt 0 src.pending src.ending src.brk s = first at hread
  rcases first with ⟨n, src₁, s₁⟩
  simp only at hread ⊢
  by_cases hn : n ≤ 0
  · rw [if_pos hn]
    exact .stop hread hn
  · rw [if_neg hn]
    by_cases hcnt : 0 < cnt ∧ cnt ≤ n
    · rw [if_pos hcnt]
      exact .done hread (by omega) hcnt
    · rw [if_neg hcnt]
      refine .again hread (by omega) hcnt (.stop (read_reads h _ 0 _ _ _ s₁) ?_)
      rcases hread.stopped (by omega) with hdone | hbrk | rfl
      · exact absurd hdone hcnt
      · rw [hbrk, read, if_pos rfl]
        exact Int.negSucc_le_zero 1
      · rw [read]
        exact Int.le_refl 0

end Implementation
end PcapyNg.ReadLoop
