import Mathlib.Order.Fin.Basic
import Mathlib.Data.List.Lex
import Mathlib.Tactic.Ring

/-!
# Numbers written big end first

Digits in base `b`, the most significant one first, as lists that are compared lexicographically.
-/

namespace SVR2.Lib.BigEndian

/-- Bytes are digits in this base. -/
instance neZero_256 : NeZero 256 := ⟨by decide⟩

variable {b : Nat}

def value : List (Fin b) → Nat
  | [] => 0
  | d :: l => d * b ^ l.length + value l

def digits (b : Nat) [NeZero b] : Nat → Nat → List (Fin b)
  | 0, _ => []
  | n + 1, v => Fin.ofNat b (v / b ^ n) :: digits b n v

@[simp] theorem length_digits [NeZero b] (n v : Nat) : (digits b n v).length = n := by
  induction n with
  | zero => rfl
  | succ n ih => simp [digits, ih]

theorem value_digits [NeZero b] (n v : Nat) : value (digits b n v) = v % b ^ n := by
  induction n with
  | zero => simp [digits, value, Nat.mod_one]
  | succ n ih =>
    rw [digits, value, length_digits, ih, Fin.val_ofNat, pow_succ, Nat.mod_mul, Nat.mul_comm]
    exact Nat.add_comm _ _

theorem digits_injective [NeZero b] {n v v' : Nat} (hv : v < b ^ n) (hv' : v' < b ^ n)
    (h : digits b n v = digits b n v') : v = v' := by
  have hvalue := congrArg value h
  rwa [value_digits, value_digits, Nat.mod_eq_of_lt hv, Nat.mod_eq_of_lt hv'] at hvalue

theorem value_lt (l : List (Fin b)) : value l < b ^ l.length := by
  induction l with
  | nil => simp [value]
  | cons d l ih =>
    rw [value, List.length_cons, pow_succ]
    calc d * b ^ l.length + value l < d * b ^ l.length + b ^ l.length := by omega
      _ = (d + 1) * b ^ l.length := by ring
      _ ≤ b * b ^ l.length := Nat.mul_le_mul_right _ d.isLt
      _ = b ^ l.length * b := Nat.mul_comm _ _

/-- Among digits of one length, the lexicographic order is that of the numbers. -/
theorem lt_iff {l l' : List (Fin b)} (hlen : l.length = l'.length) : l < l' ↔ value l < value l' := by
  induction l generalizing l' with
  | nil =>
    obtain rfl := List.length_eq_zero_iff.mp hlen.symm
    simp
  | cons d l ih =>
    obtain ⟨d', l', rfl⟩ := List.exists_cons_of_length_eq_add_one hlen.symm
    have hlen' : l.length = l'.length := Nat.succ.inj hlen
    rw [List.cons_lt_cons_iff, value, value, hlen']
    have hl := value_lt l
    have hl' := value_lt l'
    rw [hlen'] at hl
    rcases lt_trichotomy d d' with h | h | h
    · have hstep : (d + 1) * b ^ l'.length ≤ d' * b ^ l'.length :=
        Nat.mul_le_mul_right _ (by exact h)
      rw [Nat.succ_mul] at hstep
      refine iff_of_true (.inl h) ?_
      omega
    · subst h
      simp [ih hlen']
    · have hstep : (d' + 1) * b ^ l'.length ≤ d * b ^ l'.length :=
        Nat.mul_le_mul_right _ (by exact h)
      rw [Nat.succ_mul] at hstep
      refine iff_of_false ?_ (by omega)
      rintro (h' | ⟨rfl, -⟩)
      · exact absurd h (asymm h')
      · exact absurd h (lt_irrefl _)

end SVR2.Lib.BigEndian
