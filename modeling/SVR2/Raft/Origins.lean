import SVR2.Raft.Certificates

/-!
# Where entries come from

Every entry that a run has added to a log was appended by a leader of its term, to the log that
comes before it.  What the leader had to see to append a membership change is on record with it.
-/

namespace SVR2

variable {Hash : Type} [Platform Hash]
variable {S : Setting Hash} {G : Rules Hash} {R : Set PeerId}
variable {w w' : World Hash} {p q : PeerId} {v : View Hash}

namespace World

/-- The leader `q` has appended `e` in the view `a`, which made it `a'`. -/
structure Appends (S : Setting Hash) (G : Rules Hash) (w : World Hash) (q : PeerId)
    (a a' : View Hash) (e : LogEntry Hash) : Prop where
  before : a ∈ w.past q
  after : a' ∈ w.past q
  role : a.role = .leader
  role_after : a'.role = .leader
  term_after : a'.term = a.term
  entry_term : e.term = a.term
  log_after : a'.log = a.log ++ [e]
  change : ∀ m, e.membership? = some m → G.mayReconfigure a ∧
    (∀ x ∈ a.log.drop a.commit, x.membership? = none) ∧
    Membership.validProgressionForLeader a.me (S.conf a.log) m S.superMajority = .ok

/-- Some leader has appended the last entry of `L` to the rest of it. -/
def Appended (S : Setting Hash) (G : Rules Hash) (w : World Hash) (L : List (LogEntry Hash)) : Prop :=
  ∃ q a a' e, w.Appends S G q a a' e ∧ L = a.log ++ [e]

/-- All entries after the initial log were appended by leaders. -/
def Originated (S : Setting Hash) (G : Rules Hash) (w : World Hash) (v : View Hash) : Prop :=
  ∀ k, S.base.length < k → k ≤ v.log.length → w.Appended S G (v.log.take k)

omit [Platform Hash] in
theorem Appended.mono {L : List (LogEntry Hash)} (h : w.Before w') (hL : w.Appended S G L) :
    w'.Appended S G L := by
  obtain ⟨q, a, a', e, ha, rfl⟩ := hL
  exact ⟨q, a, a', e, { ha with before := h.past q ha.before, after := h.past q ha.after }, rfl⟩

namespace Reachable

theorem originated
    (hagree : ∀ w, Reachable S G R w → (∀ x u, u ∈ w.past x → w.Originated S G u) → w.Agreeing)
    (h : Reachable S G R w) (hv : v ∈ w.past p) : w.Originated S G v := by
  refine past_induction (P := fun w _ v => w.Originated S G v) ?_ ?_ ?_ ?_ h hv
  · intro w w' p v hafter hv k hk hle
    exact (hv k hk hle).mono hafter
  · intro w p k hk hle
    exact absurd hle (not_le.mpr hk)
  · intro w p v v' out hw hall hv hmove
    have hafter : w.Before (w.moved p v' out) := before_moved
    have hv' : v' ∈ (w.moved p v' out).past p := mem_moved_past_self
    have old : ∀ k, S.base.length < k → k ≤ v.log.length → v'.log.take k = v.log.take k →
        (w.moved p v' out).Appended S G (v'.log.take k) := by
      intro k hk hle hlog
      rw [hlog]
      exact (hall p v hv k hk hle).mono hafter
    have append : ∀ e, v'.log = v.log ++ [e] → (w.moved p v' out).Appended S G (v.log ++ [e]) →
        (w.moved p v' out).Originated S G v' := by
      intro e hlog hlast k hk hle
      by_cases hkv : k ≤ v.log.length
      · refine old k hk hkv ?_
        rw [hlog, List.take_append_of_le_length hkv]
      · rw [hlog, List.take_of_length_le]
        · exact hlast
        · rw [List.length_append, List.length_singleton]
          omega
    cases hmove with
    | appendEntry e hrole hterm hpos hchain hinner =>
      refine append e rfl ⟨p, v, _, e, ⟨hafter.past p hv, hv', hrole, hrole, rfl, hterm, rfl, ?_⟩, rfl⟩
      intro m hm
      rw [LogEntry.membership?_eq_none hinner] at hm
      cases hm
    | appendMembership e m hrole hterm hpos hchain hm hrule hcommitted hvalid =>
      refine append e rfl ⟨p, v, _, e, ⟨hafter.past p hv, hv', hrole, hrole, rfl, hterm, rfl, ?_⟩, rfl⟩
      intro m' hm'
      rw [hm] at hm'
      cases hm'
      exact ⟨hrule, hcommitted, hvalid⟩
    | extend q m k e hrole hin hagrees he hend =>
      obtain ⟨l, hl, hlrole, -, prev, n, hprev, rfl⟩ := hw.requested hin
      have hend : v.log.length = prev + k := hend
      have hbase := (hw.view_ok hv).base_start.length_le
      have hsame := hagree w hw hall hv hl hlrole hprev hagrees
      have hentry := Agrees.getElem?_of_entries he
      have hlong : v.log ++ [e] = l.log.take (prev + k + 1) := by
        rw [List.take_add_one, hentry, ← hsame, ← hend, List.take_length]
        rfl
      have hlast : (w.moved p _ []).Appended S G (l.log.take (prev + k + 1)) :=
        (hall q l hl _ (by omega) (List.getElem?_eq_some_iff.mp hentry).1).mono hafter
      exact append e rfl (hlong ▸ hlast)
    | truncate q m k e e' =>
      intro j hj hle
      have hle : j ≤ (v.log.take (m.prevLogIdx + k)).length := hle
      rw [List.length_take] at hle
      refine old j hj (by omega) ?_
      rw [List.take_take, Nat.min_eq_left (by omega)]
    | _ => exact fun k hk hle => old k hk hle rfl
  · intro w p q v _ hw hq hv k hk hle
    have hle : k ≤ (v.log.take v.commit).length := hle
    rw [List.length_take] at hle
    have hlog : (View.fresh p (v.log.take v.commit)).log.take k = v.log.take k := by
      simp only [View.fresh]
      rw [List.take_take, Nat.min_eq_left (by omega)]
    rw [hlog]
    exact hv k hk (by omega)

end Reachable

end World

end SVR2
