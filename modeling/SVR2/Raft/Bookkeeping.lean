import SVR2.Raft.ReplicaSafety

/-!
# What a replica writes down about its group

A replica keeps, beside its log, the membership that is in force and the ones that are not
committed yet, and a leader keeps a book of followers.  Both are kept up to date in small steps;
in every run, with membership changes, joins and resets, they are what the log says.
-/

namespace SVR2

open Lib World

variable {Hash : Type} [DecidableEq Hash] [Platform Hash]
variable {S : Setting Hash} {s : Sys Hash} {w : World Hash} {r : Raft Hash}

theorem obeys_all (s : Sys Hash) (e : Event Hash) : Obeys S (Rules.any Hash) Set.univ s e where
  rollback := fun _ _ _ => trivial
  join := fun _ _ _ _ _ _ _ => trivial
  change := fun _ _ _ _ _ _ _ _ _ _ => trivial
  permitted := fun r o _ => r.permitted_any o

theorem RaftGroup.sim_run (g : RaftGroup Hash) (es : List (Event Hash)) :
    ∃ w, Reachable g.setting (Rules.any Hash) Set.univ w ∧ Sim g.setting (g.start.run es) w := by
  obtain ⟨w, hw, hsim, -⟩ := g.exists_sim (R := Set.univ) (fun _ _ => Raft.permitted_any _ _)
    (Sys.AllEvents.of_forall (fun e _ s => obeys_all s e) _)
  exact ⟨w, hw, hsim⟩

theorem RaftGroup.inv_run {g : RaftGroup Hash} {es : List (Event Hash)} {p : PeerId}
    (hr : (g.start.run es).replicas p = some r) : r.Inv g.setting := by
  obtain ⟨w, -, hsim⟩ := g.sim_run es
  exact (hsim.history p r (hsim.replica p r hr).1).1

/-! ### Memberships -/

def lastChange (L : List (LogEntry Hash)) : Option Membership :=
  (L.filterMap (·.membership?)).getLast?

omit [DecidableEq Hash] [Platform Hash] in
theorem lastChange_append (L : List (LogEntry Hash)) (e : LogEntry Hash) :
    lastChange (L ++ [e]) = e.membership?.or (lastChange L) := by
  rw [lastChange, List.filterMap_append, List.getLast?_append]
  cases hm : e.membership? <;> simp [hm, lastChange]

omit [DecidableEq Hash] [Platform Hash] in
/-- The membership in force is the last change of the whole log, if the initial one was the last
    change of the initial log. -/
theorem Setting.conf_eq_lastChange (hinit : ∀ m, lastChange S.base = some m → S.membership = m)
    {L : List (LogEntry Hash)} (hL : S.base <+: L) :
    S.conf L = (lastChange L).getD S.membership := by
  obtain ⟨D, rfl⟩ := hL
  -- by induction on the part after the initial log, from its end
  induction D using List.reverseRecOn with
  | nil =>
    rw [List.append_nil, S.conf_base]
    cases hlast : lastChange S.base with
    | none => rfl
    | some m => exact hinit m hlast
  | append_singleton D e ih =>
    rw [← List.append_assoc, S.conf_append (by simp), lastChange_append, ih]
    cases e.membership? <;> rfl

omit [DecidableEq Hash] [Platform Hash] in
theorem mem_confsAfter_iff {L : List (LogEntry Hash)} {c i : Nat} {m : Membership} :
    (i, m) ∈ confsAfter L c ↔ c < i ∧ ∃ e, entryAt L i = some e ∧ e.membership? = some m := by
  simp only [confsAfter, List.mem_filterMap, Option.map_eq_some_iff, Prod.exists, Prod.mk.injEq]
  constructor
  · rintro ⟨e, j, hmem, m', hm, rfl, rfl⟩
    rw [List.mk_mem_zipIdx_iff_le_and_getElem?_sub] at hmem
    obtain ⟨hle, hget⟩ := hmem
    obtain ⟨k, rfl⟩ : ∃ k, j = k + 1 := ⟨j - 1, by omega⟩
    refine ⟨by omega, e, ?_, hm⟩
    rw [List.getElem?_drop] at hget
    rw [entryAt_succ, ← hget]
    congr 1
    omega
  · rintro ⟨hlt, e, he, hm⟩
    obtain ⟨k, rfl⟩ : ∃ k, i = k + 1 := ⟨i - 1, by omega⟩
    refine ⟨e, k + 1, ?_, m, hm, rfl, rfl⟩
    rw [entryAt_succ] at he
    rw [List.mk_mem_zipIdx_iff_le_and_getElem?_sub, List.getElem?_drop, ← he]
    refine ⟨by omega, ?_⟩
    congr 1
    omega

omit [DecidableEq Hash] [Platform Hash] in
theorem confsAfter_pairwise (L : List (LogEntry Hash)) (c : Nat) :
    ((confsAfter L c).map (·.1)).Pairwise (· < ·) := by
  rw [List.pairwise_map, confsAfter, List.pairwise_filterMap]
  have hidx : ((L.drop c).zipIdx (c + 1)).Pairwise fun a b => a.2 < b.2 := by
    rw [← List.pairwise_map, List.zipIdx_map_snd]
    exact List.pairwise_lt_range'
  refine hidx.imp ?_
  intro a b hlt u hu v hv
  obtain ⟨_, -, rfl⟩ := Option.map_eq_some_iff.mp hu
  obtain ⟨_, -, rfl⟩ := Option.map_eq_some_iff.mp hv
  exact hlt

omit [DecidableEq Hash] [Platform Hash] in
/-- Changes that are not committed are still stored. -/
theorem Raft.Inv.mem_uncommitted_iff (h : r.Inv S) {i : Nat} {m : Membership} :
    (i, m) ∈ r.uncommittedMemberships ↔
      r.commitIdx < i ∧ ∃ e, r.log.at? i = some e ∧ e.membership? = some m := by
  rw [h.uncommitted, mem_confsAfter_iff]
  refine and_congr_right fun hlt => ?_
  rw [h.at?_eq (h.applied_le.trans hlt.le)]

/-- In every run no `CHECK` fails, the one in `AddUncommittedMembership` included, and the
    memberships of every replica are those of its log: the committed one is the last change up to
    the commit index, the others are listed in order, and the last change is in force. -/
theorem memberships_mirror_log (g : RaftGroup Hash)
    (hinit : ∀ m, lastChange g.log.full = some m → g.membership = m) (es : List (Event Hash))
    (p : PeerId) :
    ((g.start.run es).history p ≠ [] → ∃ r, (g.start.run es).replicas p = some r) ∧
    ∀ r, (g.start.run es).replicas p = some r →
      r.committedMembership = (lastChange (r.log.full.take r.commitIdx)).getD g.membership ∧
      (∀ i m, (i, m) ∈ r.uncommittedMemberships ↔
        r.commitIdx < i ∧ ∃ e, r.log.at? i = some e ∧ e.membership? = some m) ∧
      (r.uncommittedMemberships.map (·.1)).Pairwise (· < ·) ∧
      r.membership = (lastChange r.log.full).getD g.membership := by
  refine ⟨?_, fun r hr => ?_⟩
  · obtain ⟨w, -, hsim⟩ := g.sim_run es
    exact hsim.alive p
  have hinv := RaftGroup.inv_run hr
  have hcommit : g.setting.base <+: r.log.full.take r.commitIdx := by
    refine List.prefix_of_prefix_length_le hinv.base_start (List.take_prefix _ _) ?_
    rw [List.length_take, Nat.min_eq_left hinv.commit_le_length]
    exact hinv.base_le
  refine ⟨?_, fun i m => hinv.mem_uncommitted_iff, ?_, ?_⟩
  · rw [hinv.committed]
    exact Setting.conf_eq_lastChange hinit hcommit
  · rw [hinv.uncommitted]
    exact confsAfter_pairwise _ _
  · rw [hinv.membership_eq]
    exact Setting.conf_eq_lastChange hinit hinv.base_start

namespace Sample

/-- Replica 1 is elected by 2 and proposes that 3 votes no more. -/
def demotion : List (Event IdealHash) :=
  [tick 1, deliver 0, deliver 2,
    .logRequest 1 ⟨0, .membershipChange [⟨some 1, true⟩, ⟨some 2, true⟩, ⟨some 3, false⟩], none⟩
      oracle]

end Sample

open Sample

theorem memberships_mirror_log_demotion : ∃ r,
    ((group 0 [1, 2, 3]).start.run demotion).replicas 1 = some r ∧
    r.uncommittedMemberships.map (·.1) = [2] ∧
    r.membership = (lastChange r.log.full).getD (group 0 [1, 2, 3]).membership := by
  have h : (((group 0 [1, 2, 3]).start.run demotion).replicas 1).any (fun r =>
      decide (r.uncommittedMemberships.map (·.1) = [2])) = true := by
    decide +kernel
  simp only [Option.any_eq_true, decide_eq_true_eq] at h
  obtain ⟨r, hr, hchanges⟩ := h
  have hmirror := memberships_mirror_log (group 0 [1, 2, 3]) nofun demotion 1
  exact ⟨r, hr, hchanges, (hmirror.2 r hr).2.2.2⟩

def Sample.changedLog : Log IdealHash :=
  ((Log.new 100000).append
    ⟨1, .membershipChange [⟨some 1, true⟩, ⟨some 2, true⟩], some [⟨1, 1, .notSet⟩]⟩ 0).1

/-- A replica that starts from a log that is not committed, with the membership in force at its
    end, does not list the change in that log. -/
theorem uncommitted_log_not_listed :
    let m : Membership := ⟨OrdMap.ofKeys [1, 2], OrdMap.ofKeys [1, 2]⟩
    let r := Raft.new 1 1 m changedLog ⟨1, 100, 1⟩ false 0 oracle
    lastChange changedLog.full = some m ∧ r.aborted = false ∧ r.commitIdx = 0 ∧
      ((r.log.at? 1).bind (·.membership?)) = some m ∧ r.uncommittedMemberships = [] := by
  decide +kernel

/-! ### The leader's book -/

/-- The replica in which a call goes on to `MaybeChangeStateAndSendMessages`. -/
theorem Sim.changing (hsim : Sim S s w) (hw : Reachable S (Rules.any Hash) Set.univ w)
    {e : Event Hash} {o : Oracle} (hr : s.changing e = some (r, o)) : r.Inv S := by
  have inv : ∀ {p r}, s.replicas p = some r → r.Inv S ∧ r.me = p := by
    intro p r hr
    obtain ⟨hinv, hme, -⟩ := hsim.history p r (hsim.replica p r hr).1
    exact ⟨hinv, hme⟩
  cases e with
  | timerTick p o' =>
    simp only [Sys.changing, Option.map_eq_some_iff, Prod.mk.injEq] at hr
    obtain ⟨r', hr', rfl, rfl⟩ := hr
    exact (Raft.countTick_follows (I := fun _ _ => False) (inv hr').1 o'
      (Raft.mayCampaign_any _)).inv
  | logRequest p x o' =>
    simp only [Sys.changing, Option.bind_eq_some_iff] at hr
    obtain ⟨r', hr', hr⟩ := hr
    split_ifs at hr with hok
    cases hr
    exact (Raft.checkedRequest_follows (G := Rules.any Hash) (I := fun _ _ => False) (inv hr').1 o
      hok fun _ _ => trivial).inv
  | relinquishLeadership p o' =>
    simp only [Sys.changing, Option.bind_eq_some_iff] at hr
    obtain ⟨r', hr', hr⟩ := hr
    split_ifs at hr with hno
    cases hr
    exact (Raft.appendNoopAndRelinquish_follows (G := Rules.any Hash) (I := fun _ _ => False)
      (inv hr').1 o).inv
  | deliver k o' =>
    simp only [Sys.changing, Option.bind_eq_some_iff] at hr
    obtain ⟨pkt, hpkt, r', hr', hr⟩ := hr
    split_ifs at hr with hok
    cases hr
    obtain ⟨hin, hne⟩ := hsim.net pkt (List.mem_of_getElem? hpkt)
    exact (Raft.handleMessage_follows (inv hr').1 o ((inv hr').2.symm ▸ hne) hin
      (hw.promiseIdx_le hin) hok (Raft.mayCampaign_any _)).inv
  | join p q k maxBytes config o' =>
    simp only [Sys.changing] at hr
    split_ifs at hr with hp
    simp only [Option.bind_eq_some_iff] at hr
    obtain ⟨m, hm, hr⟩ := hr
    split_ifs at hr
    cases hr
    obtain ⟨hinv, -⟩ := hsim.history q m (List.mem_of_getElem? hm)
    obtain ⟨hok, -, hbase, hmem⟩ := hinv.copyTo maxBytes
    rw [hinv.group, hinv.super_majority]
    exact (Raft.electionTimeout_follows (I := fun _ _ => False)
      (Raft.newFollower_spec p config o hok hbase hmem).1 o (Raft.mayCampaign_any _)).inv
  | _ => cases hr

/-- A leader that votes in its own group, knows its followers, and finds what it looks up in the
    two vectors of `MaybeAdvanceCommitIndex`, the second of which it builds after it has raised its
    promise index. -/
structure Raft.BookInOrder (r : Raft Hash) : Prop where
  voting : r.me ∈ r.membership.votingReplicas
  followers : ∀ p, p ∈ r.leader.followers ↔ p ∈ r.membership.allReplicas ∧ p ≠ r.me
  quorum_pos : 1 ≤ r.membershipQuorumSize
  stored : r.membershipQuorumSize ≤
    (r.votingFollowers.map (·.matchIdx) ++ [r.log.lastIdx]).length
  promised : ∀ newPromise, (r.raisePromise newPromise).membershipQuorumSize ≤
    ((r.raisePromise newPromise).votingFollowers.map (·.promiseIdx) ++
      [(r.raisePromise newPromise).promiseIdx]).length

omit [DecidableEq Hash] [Platform Hash] in
theorem Raft.Inv.bookInOrder (h : r.Inv S) (hrole : r.role = .leader) : r.BookInOrder := by
  have hvoters := Raft.card_voters h hrole
  have hle : r.membershipQuorumSize ≤ r.votingFollowers.length + 1 :=
    hvoters ▸ Raft.quorumSize_le _ _
  refine ⟨h.voting (by simp [hrole]), h.followers hrole, ?_, ?_, ?_⟩
  · exact Raft.quorumSize_pos _ (by omega)
  · simpa using hle
  · intro newPromise
    rw [List.length_append, List.length_map, List.length_singleton, Raft.raisePromise_eq]
    exact hle

/-- In every run a leader's book is in order, between two calls and whenever
    `MaybeAdvanceCommitIndex` is called: by an event, or by the constructor of a replica that is
    alone in the group. -/
theorem leader_book_in_order (g : RaftGroup Hash) (es : List (Event Hash)) :
    (∀ p r, (g.start.run es).replicas p = some r → r.role = .leader → r.BookInOrder) ∧
    ∀ r o, ((∃ e, (g.start.run es).changing e = some (r, o)) ∨
        ∃ p, g.Sole p ∧ r = (g.newFollower p).electionTimeout (g.oracle p)) →
      ∀ r', (r.maybeBecomeLeader o).verifyMerkleTree (o.nodesVerify 1) = (r', .ok) →
        r'.role = .leader → r'.BookInOrder := by
  refine ⟨fun p r hr => (RaftGroup.inv_run hr).bookInOrder, ?_⟩
  intro r o hcalled r' hverify
  have hinv : r.Inv g.setting := by
    rcases hcalled with ⟨e, he⟩ | ⟨p, -, rfl⟩
    · obtain ⟨w, hw, hsim⟩ := g.sim_run es
      exact hsim.changing hw he
    · exact (Raft.electionTimeout_follows (I := fun _ _ => False) (g.newFollower_spec p).1
        (g.oracle p) (Raft.mayCampaign_any _)).inv
  have hlead := (Raft.maybeBecomeLeader_follows (G := Rules.any Hash) (I := fun _ _ => False) hinv
    o).inv
  rcases Raft.verifyMerkleTree_cases hlead (o.nodesVerify 1) with hok | ⟨err, herr, hfail⟩
  · rw [hok] at hverify
    cases hverify
    exact hlead.bookInOrder
  · rw [hfail] at hverify
    cases hverify
    exact absurd rfl herr

theorem leader_book_in_order_demotion : ∃ r,
    ((group 0 [1, 2, 3]).start.run demotion).replicas 1 = some r ∧ r.BookInOrder := by
  have h : (((group 0 [1, 2, 3]).start.run demotion).replicas 1).any (fun r =>
      decide (r.role = .leader)) = true := by
    decide +kernel
  simp only [Option.any_eq_true, decide_eq_true_eq] at h
  obtain ⟨r, hr, hrole⟩ := h
  exact ⟨r, hr, (leader_book_in_order (group 0 [1, 2, 3]) demotion).1 1 r hr hrole⟩

end SVR2
