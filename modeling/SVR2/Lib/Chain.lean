import Mathlib.Data.List.Chain
import Mathlib.Data.List.Infix
import Mathlib.Data.List.TakeDrop

/-!
# Chains

A list is chained beyond its first `n` elements when every later element is linked to all that
come before it.  When a link cannot be shared by different pasts, one key tells the whole list.
A chain of neighbours only links every element to the next.
-/

namespace SVR2.Lib

variable {α κ : Type}

/-- Every element from position `n` on is linked to the elements before it. -/
def Chained (link : List α → α → Prop) (n : Nat) (L : List α) : Prop :=
  ∀ k e, n ≤ k → L[k]? = some e → link (L.take k) e

namespace Chained

variable {link : List α → α → Prop} {n : Nat} {L L' : List α}

theorem of_length_le (h : L.length ≤ n) : Chained link n L := by
  intro k e hk he
  have := (List.getElem?_eq_some_iff.mp he).1
  omega

theorem take (h : Chained link n L) (m : Nat) : Chained link n (L.take m) := by
  intro k e hk he
  rw [List.getElem?_take] at he
  split_ifs at he with hkm
  rw [List.take_take, Nat.min_eq_left hkm.le]
  exact h k e hk he

theorem snoc (h : Chained link n L) {e : α} (he : link L e) : Chained link n (L ++ [e]) := by
  intro k x hk hx
  have hlt := (List.getElem?_eq_some_iff.mp hx).1
  rw [List.length_append, List.length_singleton] at hlt
  by_cases hkL : k < L.length
  · rw [List.getElem?_append_left hkL] at hx
    rw [List.take_append_of_le_length hkL.le]
    exact h k x hk hx
  · obtain rfl : k = L.length := by omega
    rw [List.getElem?_append_right (le_refl _), Nat.sub_self] at hx
    cases hx
    rw [List.take_left]
    exact he

/-- Chained lists with the same beginning and the same key at a later position are the same up
    to there, if the key of a list tells its last element and the key of the rest. -/
theorem take_eq (key : List α → κ)
    (hfree : ∀ A A' e e', A.length = A'.length → link A e → link A' e' →
      key (A ++ [e]) = key (A' ++ [e']) → e = e' ∧ key A = key A')
    (h : Chained link n L) (h' : Chained link n L') (hbase : L.take n = L'.take n) {i : Nat}
    (hn : n ≤ i) (hi : i ≤ L.length) (hi' : i ≤ L'.length)
    (hkey : key (L.take i) = key (L'.take i)) : L.take i = L'.take i := by
  induction i, hn using Nat.le_induction with
  | base => exact hbase
  | succ i hn ih =>
    obtain ⟨e, he⟩ : ∃ e, L[i]? = some e := ⟨_, List.getElem?_eq_getElem hi⟩
    obtain ⟨e', he'⟩ : ∃ e, L'[i]? = some e := ⟨_, List.getElem?_eq_getElem hi'⟩
    have hsnoc : L.take (i + 1) = L.take i ++ [e] := by rw [List.take_add_one, he]; rfl
    have hsnoc' : L'.take (i + 1) = L'.take i ++ [e'] := by rw [List.take_add_one, he']; rfl
    rw [hsnoc, hsnoc'] at hkey ⊢
    obtain ⟨rfl, hkey'⟩ := hfree _ _ e e' (by simp; omega) (h i e hn he) (h' i e' hn he') hkey
    rw [ih (by omega) (by omega) hkey']

end Chained

/-! ### Chains of neighbours, from a starting point on -/

section Neighbours

universe u

variable {β : Type u} {R : β → β → Prop} {a : β}

/-- What holds of the last element and of all before it holds of all. -/
theorem forall_of_dropLast {P : β → Prop} {l : List β} (h : ∀ x ∈ l.dropLast, P x)
    (hlast : ∀ x ∈ l.getLast?, P x) : ∀ x ∈ l, P x := by
  cases heq : l.getLast? with
  | none =>
    rw [List.getLast?_eq_none_iff.mp heq]
    nofun
  | some y =>
    intro x hx
    rw [← List.dropLast_append_getLast? y heq] at hx
    rcases List.mem_append.mp hx with hx | hx
    · exact h x hx
    · rw [List.mem_singleton.mp hx]
      exact hlast y heq

theorem getLastD_append (l l' : List β) : (l ++ l').getLastD a = l'.getLastD (l.getLastD a) := by
  induction l generalizing a with
  | nil => rfl
  | cons b l ih => rw [List.cons_append, List.getLastD_cons, List.getLastD_cons, ih]

theorem isChain_cons_append {l l' : List β} :
    (a :: (l ++ l')).IsChain R ↔ (a :: l).IsChain R ∧ (l.getLastD a :: l').IsChain R := by
  induction l generalizing a with
  | nil => simp
  | cons b l ih =>
    rw [List.cons_append, List.isChain_cons_cons, List.isChain_cons_cons, ih, List.getLastD_cons,
      and_assoc]

theorem isChain_cons_snoc {l : List β} {b : β} :
    (a :: (l ++ [b])).IsChain R ↔ (a :: l).IsChain R ∧ R (l.getLastD a) b := by
  rw [isChain_cons_append, List.isChain_pair]

end Neighbours

end SVR2.Lib
