import SVR2.Raft.Protocol

/-!
# What the moves of one replica can change

Facts about two views of one replica, the second reached from the first by moves: terms and
indexes never decrease, a vote stands for its term, a promised entry stays where it is, and a
leader only appends.
-/

namespace SVR2

open Relation

variable {Hash : Type} [Platform Hash] {S : Setting Hash} {G : Rules Hash}
variable {I I' : PeerId → RaftMessage Hash → Prop} {u v v' : View Hash}
variable {out : List (SendableRaftMessage Hash)}

namespace Move

theorem mono (h : Move S G I v v' out) (hI : ∀ p msg, I p msg → I' p msg) :
    Move S G I' v v' out := by
  cases h with
  | campaign hrole hvoter hrule => exact campaign v hrole hvoter hrule
  | requestVote dst hrole => exact requestVote v dst hrole
  | newTerm t ht => exact newTerm v t ht
  | grantVote p m hin hlog hvote => exact grantVote v p m (hI _ _ hin) hlog hvote
  | countVote p hrole hin hvoter => exact countVote v p hrole (hI _ _ hin) hvoter
  | becomeLeader hrole hvotes => exact becomeLeader v hrole hvotes
  | stepDown => exact stepDown v
  | appendEntry e hrole hterm hpos hchain hinner =>
    exact appendEntry v e hrole hterm hpos hchain hinner
  | appendMembership e m hrole hterm hpos hchain hm hrule hcommitted hvalid =>
    exact appendMembership v e m hrole hterm hpos hchain hm hrule hcommitted hvalid
  | replicate dst prev n hrole hprev => exact replicate v dst prev n hrole hprev
  | countAck p m a hrole hin hsuccess hack hmatch =>
    exact countAck v p m a hrole (hI _ _ hin) hsuccess hack hmatch
  | advancePromise n Q hrole hlt hle hQ hcard hacks =>
    exact advancePromise v n Q hrole hlt hle hQ hcard hacks
  | advanceCommit n Q hrole hlt hle hrule hQ hcard hacks =>
    exact advanceCommit v n Q hrole hlt hle hrule hQ hcard hacks
  | truncate p m k e e' hrole hin hagree he he' hterm hpromise =>
    exact truncate v p m k e e' hrole (hI _ _ hin) hagree he he' hterm hpromise
  | extend p m k e hrole hin hagree he hend hchain =>
    exact extend v p m k e hrole (hI _ _ hin) hagree he hend hchain
  | learn p m k hrole hin hagree hle => exact learn v p m k hrole (hI _ _ hin) hagree hle
  | acknowledge p m k r hrole hin hagree hmatch hhash hpromise =>
    exact acknowledge v p m k r hrole (hI _ _ hin) hagree hmatch hhash hpromise
  | other dst inner hinner => exact other v dst inner hinner

theorem term_le (h : Move S G I v v' out) : v.term ≤ v'.term := by
  cases h with
  | campaign => exact Nat.le_succ _
  | newTerm t ht => exact ht.le
  | _ => exact le_refl _

theorem commit_le (h : Move S G I v v' out) : v.commit ≤ v'.commit := by
  cases h with
  | advanceCommit n Q hrole hlt => exact hlt.le
  | learn => exact le_max_left _ _
  | _ => exact le_refl _

theorem promised_mono (h : Move S G I v v' out) :
    v.promise ≤ v'.promise ∧ v.log.take v.promise <+: v'.log.take v'.promise := by
  cases h with
  | appendEntry e =>
    refine ⟨le_refl _, ?_⟩
    exact (List.prefix_append _ _).take _
  | appendMembership e =>
    refine ⟨le_refl _, ?_⟩
    exact (List.prefix_append _ _).take _
  | extend p m k e =>
    refine ⟨le_refl _, ?_⟩
    exact (List.prefix_append _ _).take _
  | truncate p m k e e' hrole hin hagree he he' hterm hpromise =>
    refine ⟨le_refl _, ?_⟩
    simp only [List.take_take, Nat.min_eq_left hpromise]
    exact List.prefix_refl _
  | advancePromise n Q hrole hlt => exact ⟨hlt.le, List.take_prefix_take_left hlt.le⟩
  | learn => exact ⟨le_max_left _ _, List.take_prefix_take_left (le_max_left _ _)⟩
  | _ => exact ⟨le_refl _, List.prefix_refl _⟩

/-- Within one term a vote stands, nobody becomes a candidate, only candidates become leaders,
    and the logs of candidates and leaders are only appended to, the former not at all. -/
theorem same_term (h : Move S G I v v' out) (ht : v'.term = v.term) :
    (∀ p, v.votedFor = some p → v'.votedFor = some p) ∧
    (v'.role = .candidate → v.role = .candidate ∧ v'.log = v.log) ∧
    (v'.role = .leader → v.role ≠ .follower ∧ v.log <+: v'.log) := by
  cases h with
  | campaign => exact absurd ht (Nat.succ_ne_self _)
  | newTerm t hlt => exact absurd ht hlt.ne'
  | grantVote p m hin hlog hvote =>
    refine ⟨fun q hq => ?_, fun hr => ⟨hr, rfl⟩, fun hr => ⟨?_, List.prefix_refl _⟩⟩
    swap
    · rw [show v.role = _ from hr]
      simp
    rcases hvote with hvote | hvote
    · rw [hvote] at hq
      cases hq
    · rw [hvote] at hq
      exact hq
  | becomeLeader hrole =>
    refine ⟨fun q hq => hq, fun hr => (nomatch hr), fun _ => ⟨by rw [hrole]; simp, List.prefix_refl _⟩⟩
  | stepDown => exact ⟨fun q hq => hq, fun hr => (nomatch hr), fun hr => (nomatch hr)⟩
  | appendEntry e hrole =>
    refine ⟨fun q hq => hq, fun hr => ?_, fun _ => ⟨by rw [hrole]; simp, List.prefix_append _ _⟩⟩
    rw [show v.role = _ from hr] at hrole
    cases hrole
  | appendMembership e m hrole =>
    refine ⟨fun q hq => hq, fun hr => ?_, fun _ => ⟨by rw [hrole]; simp, List.prefix_append _ _⟩⟩
    rw [show v.role = _ from hr] at hrole
    cases hrole
  | truncate p m k e e' hrole =>
    refine ⟨fun q hq => hq, fun hr => ?_, fun hr => ?_⟩
    all_goals
      rw [show v.role = _ from hr] at hrole
      cases hrole
  | extend p m k e hrole =>
    refine ⟨fun q hq => hq, fun hr => ?_, fun hr => ?_⟩
    all_goals
      rw [show v.role = _ from hr] at hrole
      cases hrole
  | _ =>
    refine ⟨fun q hq => hq, fun hr => ⟨hr, rfl⟩, fun hr => ⟨?_, List.prefix_refl _⟩⟩
    rw [show v.role = _ from hr]
    simp

end Move

/-- `v'` is a view of the same replica that comes after `v`, with no rollback in between. -/
def Leads (S : Setting Hash) (G : Rules Hash) : View Hash → View Hash → Prop :=
  ReflTransGen fun v v' => ∃ I out, Move S G I v v' out

namespace Leads

theorem term_le (h : Leads S G v v') : v.term ≤ v'.term := by
  induction h with
  | refl => exact le_refl _
  | tail _ hm ih =>
    obtain ⟨I, out, hm⟩ := hm
    exact ih.trans hm.term_le

theorem commit_le (h : Leads S G v v') : v.commit ≤ v'.commit := by
  induction h with
  | refl => exact le_refl _
  | tail _ hm ih =>
    obtain ⟨I, out, hm⟩ := hm
    exact ih.trans hm.commit_le

theorem promised_mono (h : Leads S G v v') :
    v.promise ≤ v'.promise ∧ v.log.take v.promise <+: v'.log.take v'.promise := by
  induction h with
  | refl => exact ⟨le_refl _, List.prefix_refl _⟩
  | tail _ hm ih =>
    obtain ⟨I, out, hm⟩ := hm
    exact ⟨ih.1.trans hm.promised_mono.1, ih.2.trans hm.promised_mono.2⟩

theorem vote (h : Leads S G v v') (ht : v'.term = v.term) {p : PeerId}
    (hvote : v.votedFor = some p) : v'.votedFor = some p := by
  induction h with
  | refl => exact hvote
  | tail hv hm ih =>
    obtain ⟨I, out, hm⟩ := hm
    have h1 := term_le hv
    have h2 := hm.term_le
    exact (hm.same_term (by omega)).1 p (ih (by omega))

theorem candidate (h : Leads S G v v') (ht : v'.term = v.term) (hrole : v'.role = .candidate) :
    v.role = .candidate ∧ v'.log = v.log := by
  induction h with
  | refl => exact ⟨hrole, rfl⟩
  | tail hv hm ih =>
    obtain ⟨I, out, hm⟩ := hm
    have h1 := term_le hv
    have h2 := hm.term_le
    obtain ⟨hrole', hlog⟩ := (hm.same_term (by omega)).2.1 hrole
    obtain ⟨hrole'', hlog'⟩ := ih (by omega) hrole'
    exact ⟨hrole'', hlog.trans hlog'⟩

theorem leader (h : Leads S G v v') (ht : v'.term = v.term) (hrole : v.role = .leader)
    (hrole' : v'.role = .leader) : v.log <+: v'.log := by
  induction h with
  | refl => exact List.prefix_refl _
  | @tail v₁ v₂ hv hm ih =>
    obtain ⟨I, out, hm⟩ := hm
    have h1 := term_le hv
    have h2 := hm.term_le
    obtain ⟨hne, hlog⟩ := (hm.same_term (by omega)).2.2 hrole'
    cases hr : v₁.role with
    | follower => exact absurd hr hne
    | leader => exact (ih (by omega) hr).trans hlog
    | candidate =>
      -- a leader cannot have become a candidate again in the same term
      have := (candidate hv (by omega) hr).1
      rw [hrole] at this
      cases this

end Leads

end SVR2
