import Mathlib.Data.List.Basic
import Mathlib.Data.List.Flatten

/-!
# Streams that come in pieces

A stream arrives in pieces that its reader does not choose: one read returns some of what is there,
but not more than was asked for.  Reading again until there is enough gives the same, however the
stream is cut.
-/

namespace SVR2.Lib

/-- What the reads of a stream will find, none of it empty. -/
structure Pieces (α : Type) where
  list : List (List α)
  ne_nil : ∀ piece ∈ list, piece ≠ []

namespace Pieces

variable {α : Type}

def stream (p : Pieces α) : List α := p.list.flatten

/-- One read of at most `n` elements; what does not fit stays for the next one. -/
def recv (n : Nat) (p : Pieces α) : Option (List α × Pieces α) :=
  match p with
  | ⟨[], _⟩ => none
  | ⟨piece :: rest, h⟩ =>
    if hlen : piece.length ≤ n then some (piece, ⟨rest, fun x hx => h x (List.mem_cons_of_mem _ hx)⟩)
    else some (piece.take n, ⟨piece.drop n :: rest, by
      rintro x (_ | ⟨_, hx⟩)
      · rw [ne_eq, List.drop_eq_nil_iff]
        exact hlen
      · exact h x (List.mem_cons_of_mem _ hx)⟩)

end Pieces

section Reads

variable {α R : Type}

/-- `read n` returns some of the first `n` elements of the stream, and at least one. -/
def Reads (read : Nat → R → Option (List α × R)) (stream : R → List α) : Prop :=
  ∀ n r, 0 < n → stream r ≠ [] →
    ∃ l r', read n r = some (l, r') ∧ (l ≠ [] ∧ l.length ≤ n) ∧ stream r = l ++ stream r'

theorem Pieces.reads_recv : Reads Pieces.recv (Pieces.stream (α := α)) := by
  rintro n ⟨pieces, h⟩ hn hne
  rcases pieces with _ | ⟨piece, rest⟩
  · exact absurd rfl hne
  · have hpiece := h piece List.mem_cons_self
    by_cases hlen : piece.length ≤ n
    · exact ⟨piece, _, by rw [recv, dif_pos hlen], ⟨hpiece, hlen⟩, rfl⟩
    · refine ⟨piece.take n, _, by rw [recv, dif_neg hlen], ⟨?_, ?_⟩, ?_⟩
      · rw [ne_eq, List.take_eq_nil_iff, not_or]
        exact ⟨Nat.ne_of_gt hn, hpiece⟩
      · exact List.length_take_le n piece
      · rw [stream, stream, List.flatten_cons, List.flatten_cons, ← List.append_assoc,
          List.take_append_drop]

def readFull (read : Nat → R → Option (List α × R)) (n : Nat) (r : R) : Option (List α × R) :=
  if n = 0 then some ([], r)
  else match read n r with
    | none => none
    | some (l, r') =>
      if l = [] then none
      else (readFull read (n - l.length) r').map fun (more, r'') => (l ++ more, r'')
termination_by n
decreasing_by
  have : l.length ≠ 0 := fun h => by simp_all
  omega

variable {read : Nat → R → Option (List α × R)} {stream : R → List α}

/-- What is read does not depend on how the stream is cut. -/
theorem Reads.readFull_eq (h : Reads read stream) (n : Nat) (r : R) (hn : n ≤ (stream r).length) :
    ∃ r', readFull read n r = some ((stream r).take n, r') ∧ stream r' = (stream r).drop n := by
  induction n using Nat.strongRecOn generalizing r with
  | ind n ih =>
    rw [readFull]
    split_ifs with hzero
    · exact ⟨r, by rw [hzero, List.take_zero], by rw [hzero, List.drop_zero]⟩
    · have hne : stream r ≠ [] := fun hnil => by simp [hnil] at hn; omega
      obtain ⟨l, r', hread, ⟨hl, hlen⟩, hstream⟩ := h n r (Nat.pos_of_ne_zero hzero) hne
      have hpos := List.length_pos_iff.mpr hl
      rw [hstream, List.length_append] at hn
      obtain ⟨r'', hmore, hrest⟩ := ih (n - l.length) (by omega) r' (by omega)
      refine ⟨r'', ?_, ?_⟩
      · rw [hread]
        simp only [if_neg hl, hmore, Option.map_some]
        rw [hstream, List.take_append, List.take_of_length_le hlen]
      · rw [hrest, hstream, List.drop_append, List.drop_of_length_le hlen, List.nil_append]

end Reads

end SVR2.Lib
