import SVR2.Raft.Protocol

/-!
# What holds of a replica between two calls

`Raft.Inv` collects the facts about one replica that every function of `raft.cc` relies on and
keeps: how its indexes are ordered, what its log stores, that its memberships are those of its
log, and that a leader's book of followers matches them.
-/

namespace SVR2

open Lib

variable {Hash : Type}

/-! ### The memberships of a log -/

theorem LogEntry.membership?_eq_none {e : LogEntry Hash}
    (h : ∀ g, e.inner ≠ .membershipChange g) : e.membership? = none := by
  rw [LogEntry.membership?]
  split
  · rename_i g hg
    exact absurd hg (h g)
  · rfl

/-- The membership changes of a log after index `c`, each with its index. -/
def confsAfter (L : List (LogEntry Hash)) (c : Nat) : List (Nat × Membership) :=
  ((L.drop c).zipIdx (c + 1)).filterMap fun x => x.1.membership?.map fun m => (x.2, m)

theorem mem_confsAfter {L : List (LogEntry Hash)} {c : Nat} {u : Nat × Membership}
    (h : u ∈ confsAfter L c) : c < u.1 ∧ u.1 ≤ L.length := by
  simp only [confsAfter, List.mem_filterMap, Option.map_eq_some_iff] at h
  obtain ⟨⟨e, i⟩, hmem, m, _, rfl⟩ := h
  have h1 := List.snd_lt_add_of_mem_zipIdx hmem
  have h2 := List.le_snd_of_mem_zipIdx hmem
  simp only [List.length_drop] at h1
  simp only
  omega

theorem membership?_eq_none_of_confsAfter {L : List (LogEntry Hash)} {c : Nat}
    (h : confsAfter L c = []) : ∀ e ∈ L.drop c, e.membership? = none := by
  intro e he
  obtain ⟨i, hi⟩ := List.mem_iff_getElem?.mp he
  rw [confsAfter, List.filterMap_eq_nil_iff] at h
  simpa using h (e, c + 1 + i) (List.mk_add_mem_zipIdx_iff_getElem?.mpr hi)

theorem confsAfter_append {L : List (LogEntry Hash)} {c : Nat} (h : c ≤ L.length)
    (e : LogEntry Hash) :
    confsAfter (L ++ [e]) c =
      confsAfter L c ++ (e.membership?.map fun m => (L.length + 1, m)).toList := by
  have hidx : c + 1 + (L.length - c) = L.length + 1 := by omega
  rw [confsAfter, List.drop_append_of_le_length h, List.zipIdx_append, List.filterMap_append,
    List.length_drop, hidx]
  cases hm : e.membership? <;> simp [confsAfter, hm]

theorem confsAfter_split {L : List (LogEntry Hash)} {c n : Nat} (hc : c ≤ n)
    (hn : n ≤ L.length) : confsAfter L c = confsAfter (L.take n) c ++ confsAfter L n := by
  have hdrop : L.drop c = (L.take n).drop c ++ L.drop n := by
    conv_lhs => rw [← List.take_append_drop n L]
    rw [List.drop_append_of_le_length (by simp; omega)]
  have hidx : c + 1 + ((L.take n).drop c).length = n + 1 := by
    simp only [List.length_drop, List.length_take]; omega
  rw [confsAfter, hdrop, List.zipIdx_append, List.filterMap_append, hidx]
  rfl

theorem takeWhile_confsAfter {L : List (LogEntry Hash)} {c n : Nat} (hc : c ≤ n)
    (hn : n ≤ L.length) :
    (confsAfter L c).takeWhile (fun u => decide (u.1 ≤ n)) = confsAfter (L.take n) c := by
  rw [confsAfter_split hc hn, List.takeWhile_append_of_pos]
  · have : (confsAfter L n).takeWhile (fun u => decide (u.1 ≤ n)) = [] := by
      rw [List.takeWhile_eq_nil_iff]
      intro hpos hle
      have hlt := (mem_confsAfter (List.get_mem (confsAfter L n) ⟨0, hpos⟩)).1
      simp only [decide_eq_true_eq] at hle
      omega
    rw [this, List.append_nil]
  · intro u hu
    have := (mem_confsAfter hu).2
    simp only [List.length_take] at this
    simp only [decide_eq_true_eq]
    omega

theorem dropWhile_confsAfter {L : List (LogEntry Hash)} {c n : Nat} (hc : c ≤ n)
    (hn : n ≤ L.length) :
    (confsAfter L c).dropWhile (fun u => decide (u.1 ≤ n)) = confsAfter L n := by
  have h := List.takeWhile_append_dropWhile (p := fun u : Nat × Membership => decide (u.1 ≤ n))
    (l := confsAfter L c)
  rw [takeWhile_confsAfter hc hn] at h
  exact List.append_cancel_left (h.trans (confsAfter_split hc hn))

theorem rdropWhile_confsAfter {L : List (LogEntry Hash)} {c n : Nat} (hc : c ≤ n)
    (hn : n ≤ L.length) :
    (confsAfter L c).rdropWhile (fun u => decide (n < u.1)) = confsAfter (L.take n) c := by
  rw [confsAfter_split hc hn, List.rdropWhile, List.reverse_append,
    List.dropWhile_append_of_pos]
  · rw [← List.rdropWhile, List.rdropWhile_eq_self_iff]
    intro hne hlast
    have := (mem_confsAfter (List.getLast_mem hne)).2
    simp only [List.length_take, decide_eq_true_eq] at this hlast
    omega
  · intro u hu
    have := (mem_confsAfter (List.mem_reverse.mp hu)).1
    simpa using this

namespace Setting

variable (S : Setting Hash)

theorem conf_append {L : List (LogEntry Hash)} (h : S.base.length ≤ L.length)
    (e : LogEntry Hash) : S.conf (L ++ [e]) = e.membership?.getD (S.conf L) := by
  rw [conf, List.drop_append_of_le_length h, List.foldl_append, conf]
  rfl

theorem conf_base : S.conf S.base = S.membership := by
  simp [conf]

/-- The membership in force is the last change after `c`, or the one in force at `c`. -/
theorem conf_eq {L : List (LogEntry Hash)} {c : Nat} (hb : S.base.length ≤ c)
    (hc : c ≤ L.length) :
    S.conf L = ((confsAfter L c).getLast?.map (·.2)).getD (S.conf (L.take c)) := by
  -- by induction on the part of the log after `c`, from its end
  obtain ⟨D, hD⟩ : ∃ D, D = L.drop c := ⟨_, rfl⟩
  have hL : L = L.take c ++ D := by rw [hD, List.take_append_drop]
  have hlen : (L.take c).length = c := by simp [hc]
  generalize L.take c = A at hL hlen
  subst hL hlen
  clear hc hD
  induction D using List.reverseRecOn with
  | nil => simp [confsAfter]
  | append_singleton D e ih =>
    rw [← List.append_assoc, conf_append S (by simp; omega), confsAfter_append (by simp), ih]
    cases e.membership? <;> simp

theorem conf_voting_subset (L : List (LogEntry Hash)) :
    ∀ p ∈ (S.conf L).votingReplicas, p ∈ (S.conf L).allReplicas := by
  rw [conf]
  generalize L.drop S.base.length = D
  induction D using List.reverseRecOn with
  | nil => exact fun p hp => S.voting_subset p (OrdMap.mem_keys.mpr hp)
  | append_singleton D e ih =>
    rw [List.foldl_append, List.foldl_cons, List.foldl_nil]
    cases hm : e.membership? with
    | none => exact ih
    | some m =>
      rw [LogEntry.membership?] at hm
      split at hm
      · rename_i g _
        cases hg : Membership.fromProto g with
        | error err => rw [hg] at hm; cases hm
        | ok m' =>
          rw [hg] at hm
          cases hm
          exact Membership.fromProto_voting_subset hg
      · cases hm

/-- A log whose entries after the base change no membership is under the initial one. -/
theorem conf_eq_of_forall {L : List (LogEntry Hash)}
    (h : ∀ e ∈ L.drop S.base.length, e.membership? = none) : S.conf L = S.membership := by
  rw [conf]
  generalize L.drop S.base.length = D at h
  induction D using List.reverseRecOn with
  | nil => rfl
  | append_singleton D e ih =>
    rw [List.foldl_append]
    simp only [List.mem_append, List.mem_singleton] at h
    simp [ih fun e he => h e (Or.inl he), h e (Or.inr rfl)]

end Setting

/-! ### The view of a replica -/

def ReplicationState.ack (s : ReplicationState) : Nat × Nat := (s.matchIdx, s.promiseIdx)

namespace Raft

/-- What the protocol sees of a replica. -/
def view (r : Raft Hash) : View Hash where
  me := r.me
  term := r.currentTerm
  votedFor := r.votedFor
  role := r.role
  votes := r.candidate.votesGranted
  acks := fun p => (r.leader.followers.find? p).map ReplicationState.ack
  log := r.log.full
  commit := r.commitIdx
  promise := r.promiseIdx

theorem membership_eq_conf (S : Setting Hash) {r : Raft Hash} (hb : S.base.length ≤ r.commitIdx)
    (hlen : r.commitIdx ≤ r.log.full.length)
    (hcommitted : r.committedMembership = S.conf (r.log.full.take r.commitIdx))
    (huncommitted : r.uncommittedMemberships = confsAfter r.log.full r.commitIdx) :
    r.membership = S.conf r.log.full := by
  rw [S.conf_eq hb hlen, ← huncommitted, ← hcommitted, Raft.membership]
  cases r.uncommittedMemberships.getLast? <;> rfl

/-- The facts that hold of a replica whenever a function of `raft.cc` is called. -/
structure Inv (S : Setting Hash) (r : Raft Hash) : Prop where
  not_aborted : r.aborted = false
  group : r.group = S.group
  super_majority : r.superMajority = S.superMajority
  log_ok : r.log.Ok
  base_start : S.base <+: r.log.full
  base_le : S.base.length ≤ r.commitIdx
  applied_le : r.lastApplied ≤ r.commitIdx
  commit_le : r.commitIdx ≤ r.promiseIdx
  promise_le : r.promiseIdx ≤ r.log.full.length
  stored : r.log.oldestStoredIdx ≤ max r.lastApplied 1
  committed : r.committedMembership = S.conf (r.log.full.take r.commitIdx)
  uncommitted : r.uncommittedMemberships = confsAfter r.log.full r.commitIdx
  voting : r.role ≠ .follower → r.me ∈ r.membership.votingReplicas
  followers : r.role = .leader →
    ∀ p, p ∈ r.leader.followers ↔ p ∈ r.membership.allReplicas ∧ p ≠ r.me
  acked : r.role = .leader → ∀ p s, r.leader.followers.find? p = some s →
    s.promiseIdx ≤ s.matchIdx ∧ s.matchIdx ≤ r.log.full.length
  sendable : ∀ m ∈ r.sendableMessages, m.dst ≠ some r.me

namespace Inv

variable {S : Setting Hash} {r : Raft Hash}

theorem commit_le_length (h : r.Inv S) : r.commitIdx ≤ r.log.full.length :=
  h.commit_le.trans h.promise_le

theorem lastIdx_eq (h : r.Inv S) : r.log.lastIdx = r.log.full.length := h.log_ok.lastIdx_eq

theorem membership_eq (h : r.Inv S) : r.membership = S.conf r.log.full :=
  membership_eq_conf S h.base_le h.commit_le_length h.committed h.uncommitted

theorem voters_eq (h : r.Inv S) : r.membership.votingReplicas.keySet = S.voters r.log.full := by
  rw [h.membership_eq, Setting.voters]

theorem quorum_eq (h : r.Inv S) : r.membershipQuorumSize = S.quorum r.log.full := by
  rw [membershipQuorumSize, Setting.quorum, ← h.voters_eq, OrdMap.card_keySet, h.super_majority]

theorem at?_eq (h : r.Inv S) {i : Nat} (hi : r.lastApplied ≤ i) :
    r.log.at? i = entryAt r.log.full i := by
  have h1 := h.stored
  have h2 := h.log_ok.oldest
  cases i with
  | zero => rw [h.log_ok.at?_eq, if_pos (by omega)]; rfl
  | succ i => exact h.log_ok.at?_of_le (by omega)

end Inv

theorem nextHash_chained [Platform Hash] {S : Setting Hash} {r : Raft Hash} (h : r.Inv S)
    (o : Oracle) {e : LogEntry Hash} (he : e.hashChain = some (r.nextHash o e)) :
    ChainedTo r.log.full e := by
  refine ⟨o, ?_⟩
  rw [he, nextHash, h.log_ok.mostRecentHash_eq, h.log_ok.nextIdx_eq]

end Raft

end SVR2
