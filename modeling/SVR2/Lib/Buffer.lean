import Mathlib.Data.List.Basic
import Mathlib.Data.List.Flatten

/-!
# Buffers and chunks

A buffer is a list of fixed length.  Reading and writing a range of it is possible only inside.  In
proofs a buffer is written as what lies before the range, the range and what lies after it.
-/

namespace SVR2.Lib.Buffer

variable {α : Type*}

def read (l : List α) (start n : Nat) : Option (List α) :=
  if start + n ≤ l.length then some ((l.drop start).take n) else none

def write (l : List α) (start : Nat) (data : List α) : Option (List α) :=
  if start + data.length ≤ l.length then
    some (l.take start ++ data ++ l.drop (start + data.length))
  else none

theorem read_append (front back : List α) {n : Nat} (h : n ≤ back.length) :
    read (front ++ back) front.length n = some (back.take n) := by
  rw [read, if_pos, List.drop_left]
  rw [List.length_append]
  omega

theorem write_append (front back data : List α) (h : data.length ≤ back.length) :
    write (front ++ back) front.length data = some (front ++ data ++ back.drop data.length) := by
  rw [write, if_pos, List.take_left, List.drop_append, List.drop_of_length_le (by omega),
    List.nil_append, Nat.add_sub_cancel_left]
  rw [List.length_append]
  omega

/-- Cut into pieces of `n`, of which the last may be shorter; there is always one. -/
def chunks (n : Nat) (l : List α) : List (List α) :=
  if 0 < n ∧ n < l.length then l.take n :: chunks n (l.drop n) else [l]
termination_by l.length
decreasing_by
  rw [List.length_drop]
  omega

variable {n : Nat} {l : List α}

theorem chunks_of_le (h : l.length ≤ n) : chunks n l = [l] := by
  rw [chunks, if_neg (by omega)]

theorem chunks_of_lt (hn : 0 < n) (h : n < l.length) :
    chunks n l = l.take n :: chunks n (l.drop n) := by
  rw [chunks, if_pos ⟨hn, h⟩]

theorem chunks_induction {P : List α → Prop} (hn : 0 < n) (last : ∀ l, l.length ≤ n → P l)
    (more : ∀ l, n < l.length → P (l.drop n) → P l) (l : List α) : P l := by
  induction hlen : l.length using Nat.strongRecOn generalizing l with
  | ind m ih =>
    by_cases h : n < l.length
    · refine more l h (ih _ ?_ _ rfl)
      rw [List.length_drop]
      omega
    · exact last l (Nat.not_lt.mp h)

end SVR2.Lib.Buffer
