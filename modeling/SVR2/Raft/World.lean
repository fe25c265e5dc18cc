import SVR2.Raft.Moves

/-!
# The group in the abstract

All replicas, the messages ever sent and the views every replica has ever had.  Messages and
past views only accumulate, so what is said about them once stays true; what is said about one
replica at two points of a run needs the replica not to have been rolled back in between.
-/

namespace SVR2

open Relation

variable {Hash : Type} [Platform Hash]

/-- The view of every replica that has started, all messages ever sent, each with its sender,
    and all views that every replica has ever had. -/
structure World (Hash : Type) where
  view : PeerId → Option (View Hash)
  net : Set (PeerId × SendableRaftMessage Hash)
  past : PeerId → Set (View Hash)

namespace World

def inbox (w : World Hash) (p src : PeerId) (msg : RaftMessage Hash) : Prop :=
  ∃ dst, (src, ⟨dst, msg⟩) ∈ w.net ∧ (dst = none ∨ dst = some p)

def moved (w : World Hash) (p : PeerId) (v : View Hash)
    (out : List (SendableRaftMessage Hash)) : World Hash where
  view := Function.update w.view p (some v)
  net := w.net ∪ { x | ∃ msg ∈ out, x = (p, msg) }
  past := Function.update w.past p (insert v (w.past p))

def joined (w : World Hash) (p : PeerId) (v : View Hash) : World Hash :=
  { w with
    view := Function.update w.view p (some v)
    past := Function.update w.past p {v} }

/-- One step of the group: a replica moves, a replica of `R` falls back to an earlier view of
    its own, or a replica starts from the committed log of a view of another one. -/
inductive Step (S : Setting Hash) (G : Rules Hash) (R : Set PeerId) :
    World Hash → World Hash → Prop
  | move (w : World Hash) (p : PeerId) (v v' : View Hash)
      (out : List (SendableRaftMessage Hash)) (hv : w.view p = some v)
      (hmove : Move S G (w.inbox p) v v' out) : Step S G R w (w.moved p v' out)
  | rollback (w : World Hash) (p : PeerId) (v : View Hash) (hp : p ∈ R) (hv : v ∈ w.past p) :
      Step S G R w { w with view := Function.update w.view p (some v) }
  | join (w : World Hash) (p q : PeerId) (v : View Hash) (hrule : G.mayJoin)
      (hp : w.past p = ∅) (hv : v ∈ w.past q) :
      Step S G R w (w.joined p (View.fresh p (v.log.take v.commit)))

/-- Some replicas have started from the initial log, and nothing else has happened. -/
structure Init (S : Setting Hash) (w : World Hash) : Prop where
  net : w.net = ∅
  view : ∀ p, (w.view p = none ∧ w.past p = ∅) ∨
    (w.view p = some (View.fresh p S.base) ∧ w.past p = {View.fresh p S.base})

inductive Reachable (S : Setting Hash) (G : Rules Hash) (R : Set PeerId) : World Hash → Prop
  | init {w : World Hash} (h : w.Init S) : Reachable S G R w
  | step {w w' : World Hash} (h : Reachable S G R w) (hs : Step S G R w w') : Reachable S G R w'

/-- `w'` remembers all that `w` does. -/
structure Before (w w' : World Hash) : Prop where
  net : w.net ⊆ w'.net
  past : ∀ p, w.past p ⊆ w'.past p

end World

namespace World

variable {S : Setting Hash} {G : Rules Hash} {R : Set PeerId}
variable {w w' : World Hash} {p q : PeerId} {u v : View Hash}
variable {out : List (SendableRaftMessage Hash)}

/-! ### What a step adds -/

omit [Platform Hash] in
theorem mem_moved_past : u ∈ (w.moved p v out).past q ↔ u ∈ w.past q ∨ (q = p ∧ u = v) := by
  by_cases hq : q = p
  · subst hq
    simp only [moved, Function.update_self, Set.mem_insert_iff, true_and]
    exact or_comm
  · simp only [moved, Function.update_of_ne hq, hq, false_and, or_false]

omit [Platform Hash] in
theorem mem_moved_past_self : v ∈ (w.moved p v out).past p :=
  mem_moved_past.mpr (Or.inr ⟨rfl, rfl⟩)

omit [Platform Hash] in
theorem mem_joined_past (hp : w.past p = ∅) :
    u ∈ (w.joined p v).past q ↔ u ∈ w.past q ∨ (q = p ∧ u = v) := by
  by_cases hq : q = p
  · subst hq
    simp only [joined, Function.update_self, Set.mem_singleton_iff, hp, Set.mem_empty_iff_false,
      false_or, true_and]
  · simp only [joined, Function.update_of_ne hq, hq, false_and, or_false]

omit [Platform Hash] in
theorem before_moved : w.Before (w.moved p v out) where
  net := Set.subset_union_left
  past _ _ hu := mem_moved_past.mpr (Or.inl hu)

omit [Platform Hash] in
theorem before_joined (hp : w.past p = ∅) : w.Before (w.joined p v) where
  net := Set.Subset.rfl
  past _ _ hu := (mem_joined_past hp).mpr (Or.inl hu)

omit [Platform Hash] in
theorem Before.refl (w : World Hash) : w.Before w := ⟨Set.Subset.rfl, fun _ => Set.Subset.rfl⟩

omit [Platform Hash] in
theorem Before.trans {w₁ w₂ w₃ : World Hash} (h : w₁.Before w₂) (h' : w₂.Before w₃) :
    w₁.Before w₃ :=
  ⟨h.net.trans h'.net, fun p => (h.past p).trans (h'.past p)⟩

theorem Step.before (h : Step S G R w w') : w.Before w' := by
  cases h with
  | move p v v' out hv hmove => exact before_moved
  | rollback p v hp hv => exact ⟨Set.Subset.rfl, fun _ => Set.Subset.rfl⟩
  | join p q v hrule hp hv => exact before_joined hp

omit [Platform Hash] in
theorem Before.inbox (h : w.Before w') {msg : RaftMessage Hash} (hin : w.inbox p q msg) :
    w'.inbox p q msg := by
  obtain ⟨dst, hmem, hdst⟩ := hin
  exact ⟨dst, h.net hmem, hdst⟩

/-! ### Induction over past views and messages -/

namespace Reachable

theorem mem_past (h : Reachable S G R w) (hv : w.view p = some v) : v ∈ w.past p := by
  induction h generalizing p v with
  | init hinit =>
    rcases hinit.view p with ⟨hnone, -⟩ | ⟨hview, hpast⟩
    · rw [hnone] at hv
      cases hv
    · rw [hview] at hv
      cases hv
      rw [hpast]
      rfl
  | step hw hs ih =>
    cases hs with
    | move q u u' out hu hmove =>
      by_cases hp : p = q
      · subst hp
        simp only [moved, Function.update_self, Option.some.injEq] at hv
        rw [← hv]
        exact mem_moved_past_self
      · simp only [moved, Function.update_of_ne hp] at hv
        exact mem_moved_past.mpr (Or.inl (ih hv))
    | rollback q u hq hu =>
      by_cases hp : p = q
      · subst hp
        simp only [Function.update_self, Option.some.injEq] at hv
        rw [← hv]
        exact hu
      · simp only [Function.update_of_ne hp] at hv
        exact ih hv
    | join q x u hrule hq hu =>
      by_cases hp : p = q
      · subst hp
        simp only [joined, Function.update_self, Option.some.injEq] at hv
        exact (mem_joined_past hq).mpr (Or.inr ⟨rfl, hv.symm⟩)
      · simp only [joined, Function.update_of_ne hp] at hv
        exact (mem_joined_past hq).mpr (Or.inl (ih hv))

/-- What holds of the first view of every replica and is kept by moves holds of all views. -/
theorem past_induction {P : World Hash → PeerId → View Hash → Prop}
    (mono : ∀ w w' p v, w.Before w' → P w p v → P w' p v)
    (init : ∀ w p, P w p (View.fresh p S.base))
    (move : ∀ w p v v' out, Reachable S G R w → (∀ q u, u ∈ w.past q → P w q u) →
      v ∈ w.past p → Move S G (w.inbox p) v v' out → P (w.moved p v' out) p v')
    (join : ∀ w p q v, G.mayJoin → Reachable S G R w → v ∈ w.past q → P w q v →
      P w p (View.fresh p (v.log.take v.commit)))
    (h : Reachable S G R w) (hv : v ∈ w.past p) : P w p v := by
  induction h generalizing p v with
  | @init w hinit =>
    rcases hinit.view p with ⟨-, hpast⟩ | ⟨-, hpast⟩
    · rw [hpast] at hv
      cases hv
    · rw [hpast] at hv
      cases hv
      exact init w p
  | @step w w' hw hs ih =>
    have old : ∀ {p v}, v ∈ w.past p → P w' p v := fun hv => mono w w' _ _ hs.before (ih hv)
    cases hs with
    | move q u u' out hu hmove =>
      rcases mem_moved_past.mp hv with hv | ⟨rfl, rfl⟩
      · exact old hv
      · exact move w p u v out hw (fun _ _ => ih) (hw.mem_past hu) hmove
    | rollback q u hq hu => exact old hv
    | join q x u hrule hq hu =>
      rcases (mem_joined_past hq).mp hv with hv | ⟨rfl, rfl⟩
      · exact old hv
      · exact mono _ _ _ _ (before_joined hq) (join w p x u hrule hw hu (ih hu))

/-- What holds of every message when a move sends it holds of all messages. -/
theorem net_induction {P : World Hash → PeerId → SendableRaftMessage Hash → Prop}
    (mono : ∀ w w' p msg, w.Before w' → P w p msg → P w' p msg)
    (move : ∀ w p v v' out msg, Reachable S G R w → (∀ q x, (q, x) ∈ w.net → P w q x) →
      v ∈ w.past p → Move S G (w.inbox p) v v' out → msg ∈ out → P (w.moved p v' out) p msg)
    (h : Reachable S G R w) {msg : SendableRaftMessage Hash} (hmsg : (p, msg) ∈ w.net) :
    P w p msg := by
  induction h generalizing p msg with
  | init hinit =>
    rw [hinit.net] at hmsg
    cases hmsg
  | @step w w' hw hs ih =>
    have hbefore := hs.before
    cases hs with
    | move q u u' out hu hmove =>
      rcases hmsg with hmsg | ⟨msg', hmem, heq⟩
      · exact mono _ _ _ _ hbefore (ih hmsg)
      · cases heq
        exact move w p u u' out msg hw (fun _ _ => ih) (hw.mem_past hu) hmove hmem
    | rollback q u hq hu => exact mono _ _ _ _ hbefore (ih hmsg)
    | join q x u hrule hq hu => exact mono _ _ _ _ hbefore (ih hmsg)

theorem leads_view (h : Reachable S G R w) (hp : p ∉ R) (hu : u ∈ w.past p) :
    ∃ v, w.view p = some v ∧ Leads S G u v := by
  induction h generalizing u with
  | init hinit =>
    rcases hinit.view p with ⟨-, hpast⟩ | ⟨hview, hpast⟩
    · rw [hpast] at hu
      cases hu
    · rw [hpast] at hu
      cases hu
      exact ⟨_, hview, ReflTransGen.refl⟩
  | step hw hs ih =>
    cases hs with
    | move q x x' out hx hmove =>
      by_cases hq : p = q
      · subst hq
        refine ⟨x', Function.update_self _ _ _, ?_⟩
        rcases mem_moved_past.mp hu with hu | ⟨-, rfl⟩
        · obtain ⟨v, hv, hlead⟩ := ih hu
          rw [hx] at hv
          cases hv
          exact hlead.tail ⟨_, _, hmove⟩
        · exact ReflTransGen.refl
      · obtain ⟨v, hv, hlead⟩ := ih ((mem_moved_past.mp hu).resolve_right fun h => hq h.1)
        exact ⟨v, (Function.update_of_ne hq _ _).trans hv, hlead⟩
    | rollback q x hq hx =>
      have hne : p ≠ q := fun h => hp (h ▸ hq)
      obtain ⟨v, hv, hlead⟩ := ih hu
      exact ⟨v, (Function.update_of_ne hne _ _).trans hv, hlead⟩
    | join q y x hrule hq hx =>
      by_cases hpq : p = q
      · subst hpq
        rcases (mem_joined_past hq).mp hu with hu | ⟨-, rfl⟩
        · rw [hq] at hu
          cases hu
        · exact ⟨_, Function.update_self _ _ _, ReflTransGen.refl⟩
      · obtain ⟨v, hv, hlead⟩ := ih (((mem_joined_past hq).mp hu).resolve_right fun h => hpq h.1)
        exact ⟨v, (Function.update_of_ne hpq _ _).trans hv, hlead⟩

/-- Of two views of a replica that is never rolled back one leads to the other. -/
theorem past_total (h : Reachable S G R w) (hp : p ∉ R) (hu : u ∈ w.past p) (hv : v ∈ w.past p) :
    Leads S G u v ∨ Leads S G v u := by
  induction h generalizing u v with
  | init hinit =>
    rcases hinit.view p with ⟨-, hpast⟩ | ⟨-, hpast⟩
    · rw [hpast] at hu
      cases hu
    · rw [hpast] at hu hv
      cases hu
      cases hv
      exact Or.inl ReflTransGen.refl
  | step hw hs ih =>
    have hlead := fun {x} (hx : x ∈ _) => leads_view (hw.step hs) hp (u := x) hx
    cases hs with
    | move q x x' out hx hmove =>
      -- the new view comes after all others
      rcases mem_moved_past.mp hu with hu' | ⟨rfl, rfl⟩
      · rcases mem_moved_past.mp hv with hv' | ⟨rfl, rfl⟩
        · exact ih hu' hv'
        · obtain ⟨y, hy, hlead⟩ := hlead hu
          simp only [moved, Function.update_self, Option.some.injEq] at hy
          exact Or.inl (hy ▸ hlead)
      · obtain ⟨y, hy, hlead⟩ := hlead hv
        simp only [moved, Function.update_self, Option.some.injEq] at hy
        exact Or.inr (hy ▸ hlead)
    | rollback q x hq hx => exact ih hu hv
    | join q y x hrule hq hx =>
      rcases (mem_joined_past hq).mp hu with hu' | ⟨rfl, rfl⟩
      · rcases (mem_joined_past hq).mp hv with hv' | ⟨rfl, rfl⟩
        · exact ih hu' hv'
        · rw [hq] at hu'
          cases hu'
      · rcases (mem_joined_past hq).mp hv with hv' | ⟨-, rfl⟩
        · rw [hq] at hv'
          cases hv'
        · exact Or.inl ReflTransGen.refl

end Reachable

end World

end SVR2
