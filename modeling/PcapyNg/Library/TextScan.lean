import Mathlib.Data.List.Basic
import Mathlib.Tactic.Common

/-!
# Scanning a text that ends in a sentinel

A scanner reads one element after the other through a pointer and gives up at the first one
that does not fit. `Scans` says that it reads exactly the words of a language, and that it
never reads beyond the sentinel. Scanners put together from the rules below are of that kind.
-/

namespace PcapyNg.TextScan
set_option autoImplicit false

universe u v w x
variable {ε : Type u} {β : Type v} {α γ : Type w}

/-- From a memory and a position: a fault, no match, or a value and the next position. -/
def Scanner (ε : Type u) (β : Type v) (α : Type w) : Type (max u v w) :=
  List β → Nat → Except ε (Option (α × Nat))

instance : Monad (Scanner ε β) where
  pure a := fun _ i => .ok (some (a, i))
  bind S T := fun mem i =>
    match S mem i with
    | .error e => .error e
    | .ok none => .ok none
    | .ok (some (a, j)) => T a mem j

theorem bind_none {S : Scanner ε β α} {mem : List β} {i : Nat} (h : S mem i = .ok none)
    (T : α → Scanner ε β γ) : (S >>= T) mem i = .ok none := by
  simp only [Bind.bind, h]

theorem bind_some {S : Scanner ε β α} {mem : List β} {i : Nat} {a : α} {j : Nat}
    (h : S mem i = .ok (some (a, j))) (T : α → Scanner ε β γ) :
    (S >>= T) mem i = T a mem j := by
  simp only [Bind.bind, h]

/-- The element at the pointer, which moves on if `f` accepts it; `fault` beyond the memory. -/
def item (fault : ε) (f : β → Option α) : Scanner ε β α := fun mem i =>
  match mem[i]? with
  | none => .error fault
  | some b => .ok ((f b).map fun a => (a, i + 1))

/-- `S` finds `a` in front of any text exactly where a word of `L a` stands, and never faults on
a text that the sentinel `stop` ends. -/
def Scans (stop : β) (S : Scanner ε β α) (L : α → List β → Prop) : Prop :=
  ∀ mem i text rest, mem.drop i = text ++ stop :: rest → stop ∉ text →
    ∃ o, S mem i = .ok o ∧
      ∀ a j, o = some (a, j) ↔ ∃ word after, text = word ++ after ∧ L a word ∧ j = i + word.length

variable {stop : β}

theorem Scans.pure (a : α) :
    Scans stop (Pure.pure a : Scanner ε β α) fun b word => b = a ∧ word = [] := by
  intro mem i text rest htext hstop
  refine ⟨some (a, i), rfl, fun b j => ?_⟩
  constructor
  · intro h
    cases h
    exact ⟨[], text, rfl, ⟨rfl, rfl⟩, rfl⟩
  · rintro ⟨word, after, rfl, ⟨rfl, rfl⟩, rfl⟩
    rfl

/-- One element, provided that the sentinel is not accepted. -/
theorem Scans.item (fault : ε) {f : β → Option α} (hf : f stop = none) :
    Scans stop (item fault f) fun a word => ∃ b, f b = some a ∧ word = [b] := by
  intro mem i text rest htext hstop
  have hget : mem[i]? = (text ++ stop :: rest)[0]? := by
    rw [← htext, List.getElem?_drop, Nat.add_zero]
  cases text with
  | nil =>
    refine ⟨none, ?_, fun a j => ?_⟩
    · unfold TextScan.item
      rw [hget]
      exact congrArg (fun o => Except.ok (Option.map _ o)) hf
    · constructor
      · intro h
        cases h
      · rintro ⟨word, after, hword, ⟨b, -, rfl⟩, -⟩
        cases hword
  | cons b text =>
    refine ⟨(f b).map fun a => (a, i + 1), ?_, fun a j => ?_⟩
    · unfold TextScan.item
      rw [hget]
      rfl
    · constructor
      · intro h
        obtain ⟨a', ha, hj⟩ := Option.map_eq_some_iff.mp h
        cases hj
        exact ⟨[b], text, rfl, ⟨b, ha, rfl⟩, rfl⟩
      · rintro ⟨word, after, hword, ⟨b', hb, rfl⟩, rfl⟩
        cases hword
        rw [hb]
        rfl

/-- One scanner after the other reads the concatenations. -/
theorem Scans.bind {S : Scanner ε β α} {L : α → List β → Prop} {T : α → Scanner ε β γ}
    {M : α → γ → List β → Prop} (hS : Scans stop S L)
    (hT : ∀ a word, L a word → Scans stop (T a) (M a)) :
    Scans stop (S >>= T) fun c word =>
      ∃ a front back, L a front ∧ M a c back ∧ word = front ++ back := by
  intro mem i text rest htext hstop
  obtain ⟨o, ho, hiff⟩ := hS mem i text rest htext hstop
  cases o with
  | none =>
    refine ⟨none, bind_none ho T, fun c j => ?_⟩
    constructor
    · intro h
      cases h
    · rintro ⟨word, after, rfl, ⟨a, front, back, hfront, -, rfl⟩, -⟩
      have hnone := (hiff a (i + front.length)).mpr
        ⟨front, back ++ after, List.append_assoc _ _ _, hfront, rfl⟩
      cases hnone
  | some found =>
    rcases found with ⟨a, j⟩
    obtain ⟨front, after, rfl, hfront, rfl⟩ := (hiff a j).mp rfl
    have hdrop : mem.drop (i + front.length) = after ++ stop :: rest := by
      rw [← List.drop_drop, htext, List.append_assoc, List.drop_left]
    have hstop' : stop ∉ after := fun h => hstop (List.mem_append_right front h)
    obtain ⟨o', ho', hiff'⟩ := hT a front hfront mem (i + front.length) after rest hdrop hstop'
    refine ⟨o', (bind_some ho T).trans ho', fun c j => ?_⟩
    rw [hiff' c j]
    constructor
    · rintro ⟨back, after', rfl, hback, rfl⟩
      refine ⟨front ++ back, after', (List.append_assoc _ _ _).symm,
        ⟨a, front, back, hfront, hback, rfl⟩, ?_⟩
      rw [List.length_append, Nat.add_assoc]
    · rintro ⟨word, after', hword, ⟨a', front', back, hfront', hback, rfl⟩, rfl⟩
      -- what `S` has found is the only way to read the text
      have hsame := (hiff a' (i + front'.length)).mpr
        ⟨front', back ++ after', by rw [hword, List.append_assoc], hfront', rfl⟩
      simp only [Option.some.injEq, Prod.mk.injEq, Nat.add_left_cancel_iff] at hsame
      obtain ⟨rfl, hlen⟩ := hsame
      rw [List.append_assoc] at hword
      obtain ⟨rfl, rfl⟩ := List.append_inj hword hlen
      refine ⟨back, after', rfl, hback, ?_⟩
      rw [List.length_append, Nat.add_assoc]

/-- The same language in other words. -/
theorem Scans.congr {S : Scanner ε β α} {L M : α → List β → Prop} (hS : Scans stop S L)
    (h : ∀ a word, L a word ↔ M a word) : Scans stop S M := by
  intro mem i text rest htext hstop
  obtain ⟨o, ho, hiff⟩ := hS mem i text rest htext hstop
  refine ⟨o, ho, fun a j => ?_⟩
  simp only [hiff, h]

/-! Languages that do not tell some elements apart, such as the letters of either case. -/

section UpTo
variable {δ : Type x} {low : β → δ}

def ScansUpTo (low : β → δ) (stop : β) (S : Scanner ε β α) (L : α → List δ → Prop) : Prop :=
  Scans stop S fun a word => L a (word.map low)

theorem ScansUpTo.pure (a : α) :
    ScansUpTo low stop (Pure.pure a : Scanner ε β α) fun b text => b = a ∧ text = [] :=
  (Scans.pure a).congr fun _ _ => and_congr_right' List.map_eq_nil_iff.symm

theorem ScansUpTo.congr {S : Scanner ε β α} {L M : α → List δ → Prop}
    (hS : ScansUpTo low stop S L) (h : ∀ a text, L a text ↔ M a text) : ScansUpTo low stop S M :=
  Scans.congr hS fun a word => h a (word.map low)

theorem ScansUpTo.bind {S : Scanner ε β α} {L : α → List δ → Prop} {T : α → Scanner ε β γ}
    {M : α → γ → List δ → Prop} (hS : ScansUpTo low stop S L)
    (hT : ∀ a text, L a text → ScansUpTo low stop (T a) (M a)) :
    ScansUpTo low stop (S >>= T) fun c text =>
      ∃ a front back, L a front ∧ M a c back ∧ text = front ++ back := by
  apply (Scans.bind hS fun a word => hT a (word.map low)).congr
  intro c word
  constructor
  · rintro ⟨a, front, back, hfront, hback, rfl⟩
    exact ⟨a, front.map low, back.map low, hfront, hback, List.map_append⟩
  · rintro ⟨a, front, back, hfront, hback, hword⟩
    obtain ⟨front, back, rfl, rfl, rfl⟩ := List.map_eq_append_iff.mp hword
    exact ⟨a, front, back, hfront, hback, rfl⟩

/-- A value with one text, and what comes behind it. -/
theorem ScansUpTo.field {S : Scanner ε β α} {f : α → List δ} {T : α → Scanner ε β γ}
    {M : α → γ → List δ → Prop} (hS : ScansUpTo low stop S fun a text => text = f a)
    (hT : ∀ a, ScansUpTo low stop (T a) (M a)) :
    ScansUpTo low stop (S >>= T) fun c text => ∃ a back, M a c back ∧ text = f a ++ back := by
  apply (hS.bind fun a _ _ => hT a).congr
  intro c text
  constructor
  · rintro ⟨a, _, back, rfl, hback, rfl⟩
    exact ⟨a, back, hback, rfl⟩
  · rintro ⟨a, back, hback, rfl⟩
    exact ⟨a, f a, back, rfl, hback, rfl⟩

end UpTo

section Whole
variable [DecidableEq β] (fault : ε) (stop : β)

/-- The text must end here. -/
def finish : Scanner ε β PUnit.{w + 1} := fun mem i =>
  match mem[i]? with
  | none => .error fault
  | some b => .ok (if b = stop then some (⟨⟩, i) else none)

/-- `S` on the whole text. -/
def scanAll (S : Scanner ε β α) (mem : List β) : Except ε (Option α) :=
  ((do let a ← S; finish fault stop; Pure.pure a : Scanner ε β α) mem 0).map (Option.map Prod.fst)

/-- A scanner that must reach the sentinel accepts exactly the words. -/
theorem scanAll_iff {S : Scanner ε β α} {L : α → List β → Prop} (hS : Scans stop S L)
    {text : List β} (hstop : stop ∉ text) (rest : List β) :
    ∃ o, scanAll fault stop S (text ++ stop :: rest) = .ok o ∧ ∀ a, o = some a ↔ L a text := by
  obtain ⟨o, ho, hiff⟩ := hS (text ++ stop :: rest) 0 text rest rfl hstop
  unfold scanAll
  cases o with
  | none =>
    rw [bind_none ho]
    refine ⟨none, rfl, fun a => ?_⟩
    constructor
    · intro h
      cases h
    · intro hword
      have hnone := (hiff a (0 + text.length)).mpr
        ⟨text, [], (List.append_nil text).symm, hword, rfl⟩
      cases hnone
  | some found =>
    rcases found with ⟨a, j⟩
    obtain ⟨word, after, rfl, hword, rfl⟩ := (hiff a j).mp rfl
    rw [bind_some ho]
    have honly : ∀ b, L b (word ++ after) → b = a ∧ after = [] := by
      intro b hb
      have hsame := (hiff b (0 + (word ++ after).length)).mpr
        ⟨word ++ after, [], (List.append_nil _).symm, hb, rfl⟩
      simp only [Option.some.injEq, Prod.mk.injEq, List.length_append] at hsame
      exact ⟨hsame.1.symm, List.eq_nil_of_length_eq_zero (by omega)⟩
    have hnext : (word ++ after ++ stop :: rest)[0 + word.length]? = (after ++ stop :: rest)[0]? := by
      rw [List.append_assoc, Nat.zero_add, List.getElem?_append_right (Nat.le_refl _),
        Nat.sub_self]
    cases after with
    | nil =>
      refine ⟨some a, ?_, fun b => ?_⟩
      · have hend : finish fault stop (word ++ [] ++ stop :: rest) (0 + word.length) =
            .ok (some ((⟨⟩ : PUnit.{w + 1}), 0 + word.length)) := by
          unfold finish
          rw [hnext]
          exact congrArg Except.ok (if_pos rfl)
        rw [bind_some hend]
        rfl
      · constructor
        · intro h
          cases h
          rwa [List.append_nil]
        · intro hb
          rw [(honly b hb).1]
    | cons b after =>
      have hne : b ≠ stop := by
        intro hb
        apply hstop
        simp [hb]
      refine ⟨none, ?_, fun c => ?_⟩
      · have hend : finish fault stop (word ++ b :: after ++ stop :: rest) (0 + word.length) =
            (.ok none : Except ε (Option (PUnit.{w + 1} × Nat))) := by
          unfold finish
          rw [hnext]
          exact congrArg Except.ok (if_neg hne)
        rw [bind_none hend]
        rfl
      · constructor
        · intro h
          cases h
        · intro hc
          cases (honly c hc).2

end Whole
end PcapyNg.TextScan
