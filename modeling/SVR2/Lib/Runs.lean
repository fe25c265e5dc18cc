import Mathlib.Logic.Basic

/-!
# Runs of a state machine

A state machine is a function from states and events to states.  A condition on its runs is one
on every event in the state in which it happens; an invariant that such events preserve holds
after every run that meets the condition.
-/

namespace SVR2.Lib

universe u v

variable {σ : Type u} {ε : Type v}

/-- Every event of the run meets the condition in the state in which it happens. -/
def Along (step : σ → ε → σ) (H : σ → ε → Prop) : σ → List ε → Prop
  | _, [] => True
  | s, e :: es => H s e ∧ Along step H (step s e) es

instance Along.decidable (step : σ → ε → σ) (H : σ → ε → Prop) [∀ s e, Decidable (H s e)] :
    ∀ s es, Decidable (Along step H s es)
  | _, [] => .isTrue trivial
  | s, e :: es =>
    have := Along.decidable step H (step s e) es
    inferInstanceAs (Decidable (H s e ∧ _))

variable {step : σ → ε → σ} {H : σ → ε → Prop} {P : σ → Prop}

/-- What each permitted event preserves holds after the run. -/
theorem Along.invariant (hstep : ∀ s e, P s → H s e → P (step s e)) {s : σ} {es : List ε}
    (h : Along step H s es) (hs : P s) : P (es.foldl step s) := by
  induction es generalizing s with
  | nil => exact hs
  | cons e es ih => exact ih h.2 (hstep s e hs h.1)

/-- What one machine does step by step, another does with it. -/
theorem Along.simulates {σ' : Type*} {step' : σ' → ε → σ'} {H' : σ' → ε → Prop} {R : σ → σ' → Prop}
    (hstep : ∀ s s' e, R s s' → H s e → H' s' e ∧ R (step s e) (step' s' e)) {s : σ} {s' : σ'}
    {es : List ε} (h : Along step H s es) (hs : R s s') :
    Along step' H' s' es ∧ R (es.foldl step s) (es.foldl step' s') := by
  induction es generalizing s s' with
  | nil => exact ⟨trivial, hs⟩
  | cons e es ih =>
    obtain ⟨he, hnext⟩ := hstep s s' e hs h.1
    obtain ⟨hes, hlast⟩ := ih h.2 hnext
    exact ⟨⟨he, hes⟩, hlast⟩

theorem Along.append_iff {s : σ} {es es' : List ε} :
    Along step H s (es ++ es') ↔ Along step H s es ∧ Along step H (es.foldl step s) es' := by
  induction es generalizing s with
  | nil => exact ⟨fun h => ⟨trivial, h⟩, fun h => h.2⟩
  | cons e es ih =>
    rw [List.cons_append, Along, Along, List.foldl_cons, ih]
    exact and_assoc.symm

/-- What is seen of the state depends on those events only that matter to it. -/
theorem foldl_filter {α : Type*} (see : σ → α) {p : ε → Bool}
    (hskip : ∀ s e, p e = false → see (step s e) = see s)
    (hstep : ∀ s s' e, p e = true → see s = see s' → see (step s e) = see (step s' e))
    {s s' : σ} (h : see s = see s') (es : List ε) :
    see (es.foldl step s) = see ((es.filter p).foldl step s') := by
  induction es generalizing s s' with
  | nil => exact h
  | cons e es ih =>
    cases he : p e with
    | false =>
      rw [List.filter_cons_of_neg (by simp [he])]
      exact ih ((hskip s e he).trans h)
    | true =>
      rw [List.filter_cons_of_pos he]
      exact ih (hstep s s' e he h)

theorem Along.of_forall {Q : ε → Prop} {s : σ} {es : List ε} (h : ∀ e ∈ es, Q e) :
    Along step (fun _ e => Q e) s es := by
  induction es generalizing s with
  | nil => trivial
  | cons e es ih =>
    exact ⟨h e (List.mem_cons_self ..), ih fun e' he' => h e' (List.mem_cons_of_mem e he')⟩

/-- What events preserve as long as fewer than `bound` of them are costly, given how many have been,
    holds after a run with fewer. -/
theorem foldl_budget {P : σ → Nat → Prop} {cost : ε → Bool} {bound : Nat} {es : List ε}
    (hstep : ∀ s n, ∀ e ∈ es, P s n → n + (cost e).toNat < bound → P (step s e) (n + (cost e).toNat))
    {s : σ} {n : Nat} (hs : P s n) (hfew : n + es.countP cost < bound) :
    P (es.foldl step s) (n + es.countP cost) := by
  induction es generalizing s n with
  | nil => exact hs
  | cons e es ih =>
    have hcount : n + (e :: es).countP cost = n + (cost e).toNat + es.countP cost := by
      cases hcost : cost e with
      | false => simp [hcost]
      | true =>
        simp [hcost]
        omega
    rw [hcount] at hfew ⊢
    refine ih (fun s n e' he' => hstep s n e' (List.mem_cons_of_mem e he')) ?_ hfew
    exact hstep s n e List.mem_cons_self hs (by omega)

theorem foldl_invariant (hstep : ∀ s e, P s → P (step s e)) {s : σ} (hs : P s) (es : List ε) :
    P (es.foldl step s) := by
  induction es generalizing s with
  | nil => exact hs
  | cons e es ih => exact ih (hstep s e hs)

end SVR2.Lib
