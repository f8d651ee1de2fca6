import Mathlib.Algebra.GroupWithZero.Nat
import Mathlib.Data.List.Basic
import Mathlib.Tactic.Common

/-!
# A log of encoded entries in a buffer of fixed size

Entries are written back to back from the start of the buffer. One that does not fit into
the space left is skipped, and later, smaller ones may still be written. What is written
decodes again as long as decoding one entry finds its end by itself.
-/

namespace PcapyNg.BoundedLog
set_option autoImplicit false

universe u v
variable {α : Type u} {β : Type v}

section Fits
variable (size : α → Nat) (cap : Nat)

/-- The entries written when `used` cells are taken already. -/
def fits : Nat → List α → List α
  | _, [] => []
  | used, x :: xs =>
    if used + size x ≤ cap then x :: fits (used + size x) xs else fits used xs

def total (xs : List α) : Nat := (xs.map size).sum

@[simp] theorem total_nil : total size ([] : List α) = 0 := rfl

@[simp] theorem total_cons (x : α) (xs : List α) : total size (x :: xs) = size x + total size xs := rfl

@[simp] theorem total_append (xs ys : List α) :
    total size (xs ++ ys) = total size xs + total size ys := by simp [total]

theorem fits_append (used : Nat) (xs ys : List α) :
    fits size cap used (xs ++ ys) =
      fits size cap used xs ++ fits size cap (used + total size (fits size cap used xs)) ys := by
  induction xs generalizing used with
  | nil => simp [fits]
  | cons x xs ih =>
    rw [List.cons_append, fits, fits]
    by_cases hx : used + size x ≤ cap
    · rw [if_pos hx, if_pos hx, ih, total_cons, List.cons_append, Nat.add_assoc]
    · rw [if_neg hx, if_neg hx, ih]

theorem fits_sublist (used : Nat) (xs : List α) : (fits size cap used xs).Sublist xs := by
  induction xs generalizing used with
  | nil => exact .slnil
  | cons x xs ih =>
    rw [fits]
    split
    · exact (ih _).cons_cons x
    · exact (ih _).cons x

/-- The buffer is never overrun. -/
theorem fits_total_le {used : Nat} (hused : used ≤ cap) (xs : List α) :
    used + total size (fits size cap used xs) ≤ cap := by
  induction xs generalizing used with
  | nil => simpa [fits] using hused
  | cons x xs ih =>
    rw [fits]
    split
    · rename_i hx
      rw [total_cons, ← Nat.add_assoc]
      exact ih hx
    · exact ih hused

theorem fits_of_room {used : Nat} {xs : List α} (hroom : used + total size xs ≤ cap) :
    fits size cap used xs = xs := by
  induction xs generalizing used with
  | nil => rfl
  | cons x xs ih =>
    rw [total_cons] at hroom
    rw [fits, if_pos (by omega), ih (by omega)]

end Fits

section Memory
variable (encode : α → List β)

def splice (mem : List β) (off : Nat) (bs : List β) : List β :=
  mem.take off ++ bs ++ mem.drop (off + bs.length)

theorem splice_length {mem : List β} {off : Nat} {bs : List β} (h : off + bs.length ≤ mem.length) :
    (splice mem off bs).length = mem.length := by
  rw [splice, List.length_append, List.length_append, List.length_take, List.length_drop]
  omega

/-- Two writes, the second right behind the first. -/
theorem splice_splice {mem : List β} {off : Nat} (bs cs : List β) (hoff : off ≤ mem.length) :
    splice (splice mem off bs) (off + bs.length) cs = splice mem off (bs ++ cs) := by
  have hlen : (mem.take off ++ bs).length = off + bs.length := by
    rw [List.length_append, List.length_take, Nat.min_eq_left hoff]
  rw [splice, splice, splice, List.take_left' hlen, ← List.drop_drop, List.drop_left' hlen,
    List.drop_drop, List.length_append]
  simp only [List.append_assoc, Nat.add_assoc]

/-- The buffer `mem` after the entries `xs` are written into it. -/
def logged (mem : List β) (xs : List α) : List β :=
  xs.flatMap encode ++ mem.drop (xs.flatMap encode).length

@[simp] theorem logged_nil (mem : List β) : logged encode mem ([] : List α) = mem := rfl

theorem logged_length {mem : List β} {xs : List α} (hroom : (xs.flatMap encode).length ≤ mem.length) :
    (logged encode mem xs).length = mem.length := by
  rw [logged, List.length_append, List.length_drop]
  omega

/-- Writing one more entry behind the others. -/
theorem splice_logged (mem : List β) (xs : List α) (x : α) :
    splice (logged encode mem xs) (xs.flatMap encode).length (encode x) =
      logged encode mem (xs ++ [x]) := by
  have hflat : (xs ++ [x]).flatMap encode = xs.flatMap encode ++ encode x := by simp
  rw [splice, logged, logged, hflat, List.take_left' rfl, List.length_append, ← List.drop_drop,
    List.drop_left' rfl, List.drop_drop]

theorem logged_beyond {mem : List β} {xs : List α} {i : Nat} (hi : (xs.flatMap encode).length ≤ i) :
    (logged encode mem xs)[i]? = mem[i]? := by
  rw [logged, List.getElem?_append_right hi, List.getElem?_drop]
  congr 1
  omega

theorem length_flatMap_eq_total (xs : List α) :
    (xs.flatMap encode).length = total (fun x => (encode x).length) xs := List.length_flatMap

end Memory

section Decode
variable (decode : List β → Nat → Option (α × Nat))

/-- Decodes the given number of entries from an offset on, and says where they end. -/
def decodeMany (mem : List β) : Nat → Nat → Option (List α × Nat)
  | 0, off => some ([], off)
  | n + 1, off => do
    let (x, next) ← decode mem off
    let (xs, stop) ← decodeMany mem n next
    return (x :: xs, stop)

variable {decode} {encode : α → List β}

theorem decodeMany_flatMap (pre post : List β) (xs : List α)
    (hdecode : ∀ x ∈ xs, ∀ pre post, decode (pre ++ (encode x ++ post)) pre.length =
      some (x, pre.length + (encode x).length)) :
    decodeMany decode (pre ++ (xs.flatMap encode ++ post)) xs.length pre.length =
      some (xs, pre.length + (xs.flatMap encode).length) := by
  induction xs generalizing pre with
  | nil => rfl
  | cons x xs ih =>
    have hx := hdecode x (by simp) pre (xs.flatMap encode ++ post)
    have hrest := ih (pre ++ encode x) fun y hy => hdecode y (List.mem_cons_of_mem x hy)
    rw [List.append_assoc, List.length_append] at hrest
    simp only [List.flatMap_cons, List.length_cons, List.append_assoc, List.length_append,
      decodeMany, hx, hrest, Option.bind_eq_bind, Option.bind_some, Nat.add_assoc]
    rfl

theorem decodeMany_logged {mem : List β} {xs : List α}
    (hdecode : ∀ x ∈ xs, ∀ pre post, decode (pre ++ (encode x ++ post)) pre.length =
      some (x, pre.length + (encode x).length)) :
    decodeMany decode (logged encode mem xs) xs.length 0 = some (xs, (xs.flatMap encode).length) := by
  have h := decodeMany_flatMap [] (mem.drop (xs.flatMap encode).length) xs hdecode
  simpa [logged] using h

end Decode
end PcapyNg.BoundedLog
