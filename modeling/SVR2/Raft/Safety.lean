import SVR2.Raft.HashChain
import SVR2.Raft.LeaderCompleteness
import SVR2.Raft.Simulation

/-!
# Safety of a group with a fixed membership

What the protocol's invariants say about the replicas of every run: committed entries agree and
terms have one leader, even if up to `super_majority` voters are reset to earlier states.  Without
resets logs match.  Later leaders need not have what was committed before, unless leaders commit
only up to entries of their own term.
-/

namespace SVR2

open Lib World

variable {Hash : Type} [DecidableEq Hash] [Platform Hash]

/-- The rules of runs without membership changes and joins, with rules for candidates and
    commits. -/
def Rules.fixed (mayCampaign : View Hash → Prop) (mayCommit : View Hash → Nat → Prop) :
    Rules Hash where
  mayJoin := False
  mayCampaign := mayCampaign
  mayReconfigure := fun _ => False
  mayCommit := mayCommit

theorem obeys_fixed {S : Setting Hash} {mayCampaign : View Hash → Prop}
    {mayCommit : View Hash → Nat → Prop} {F : Finset PeerId} {s : Sys Hash} {e : Event Hash}
    (hfixed : e.FixedMembership) (hreset : e.ResetsOnly F)
    (hpermitted : ∀ r o, s.changing e = some (r, o) →
      r.Permitted S (Rules.fixed mayCampaign mayCommit) o) :
    Obeys S (Rules.fixed mayCampaign mayCommit) F s e where
  rollback := by
    rintro p k rfl
    exact hreset
  join := by
    rintro p q k maxBytes config o rfl
    exact hfixed
  change := by
    rintro p x g o r rfl hg _ _ _
    exact hfixed g hg
  permitted := hpermitted

/-- The states of two replicas at two points of a run under a fixed membership are known to one
    world. -/
theorem RaftGroup.exists_world_of_fixed {g : RaftGroup Hash} {F : Finset PeerId}
    {es : List (Event Hash)} (hes : ∀ e ∈ es, e.FixedMembership ∧ e.ResetsOnly F) {m n : Nat}
    {p q : PeerId} {r r' : Raft Hash} (hr : (g.start.run (es.take m)).replicas p = some r)
    (hr' : (g.start.run (es.take n)).replicas q = some r') :
    ∃ w, Reachable g.setting (Rules.fixed (fun _ => True) fun _ _ => True) F w ∧
      (r.Inv g.setting ∧ r.view ∈ w.past p) ∧ (r'.Inv g.setting ∧ r'.view ∈ w.past q) := by
  have hpermitted : ∀ (r : Raft Hash) (o : Oracle),
      r.Permitted g.setting (Rules.fixed (fun _ => True) fun _ _ => True) o :=
    fun _ _ => ⟨fun _ _ => trivial, fun _ _ _ _ => trivial⟩
  refine exists_world (fun p _ => hpermitted _ _) (Sys.AllEvents.of_forall ?_ _) hr hr'
  intro e he s
  exact obeys_fixed (hes e he).1 (hes e he).2 fun r o _ => hpermitted r o

/-! ### Sample runs -/

namespace Sample

/-- Surroundings in which nothing is random and nobody tampers with memory. -/
def oracle : Oracle where
  rand := fun _ => 0
  mapOrder := fun _ m => m.toList
  mapOrder_perm := fun _ _ => List.Perm.refl _
  nodesVerify := fun _ => true

/-- A group of voters that start from an empty log, time out at every tick and send one entry at
    a time. -/
def group (superMajority : Nat) (voters : List PeerId) : RaftGroup IdealHash where
  id := 1
  membership := ⟨OrdMap.ofKeys voters, OrdMap.ofKeys voters⟩
  superMajority := superMajority
  log := Log.new 100000
  maxBytes := fun _ => 100000
  config := fun _ => ⟨1, 100, 1⟩
  oracle := fun _ => oracle
  log_ok := Log.new_ok _
  voting_subset := fun _ hp => OrdMap.mem_keys.mp hp

def tick (p : PeerId) : Event IdealHash := .timerTick p oracle

def deliver (k : Nat) : Event IdealHash := .deliver k oracle

def request (p : PeerId) (b : Byte) : Event IdealHash := .logRequest p ⟨0, .data [b], none⟩ oracle

/-- Replica 1 leads and commits an entry with 2 and 3; then 3 forgets everything and votes, with 4,
    for 2. -/
def resetRun : List (Event IdealHash) :=
  [tick 1, deliver 0, deliver 1, deliver 3, deliver 4, deliver 5, deliver 6, deliver 8, deliver 9,
    deliver 10, deliver 11, deliver 12, deliver 13, deliver 14, .rollback 3 2, tick 2, deliver 18,
    deliver 19, deliver 20, deliver 21]

theorem resetRun_ok : ∀ e ∈ resetRun, e.FixedMembership ∧ e.ResetsOnly {3} := by
  simp [resetRun, tick, deliver, Event.FixedMembership, Event.ResetsOnly]

end Sample

open Sample

/-! ### Agreement and election safety -/

/-- Committed entries agree: two replicas, at any two points of a run in which at most
    `super_majority` voters are reset to earlier states of theirs, hold the same entry at every
    index that both have committed. -/
theorem committed_entries_agree (hfree : CollisionFree Hash) (g : RaftGroup Hash)
    (F : Finset PeerId) (hn : g.superMajority < g.membership.votingReplicas.size)
    (hF : (g.membership.votingReplicas.keySet ∩ F).card ≤ g.superMajority)
    (es : List (Event Hash)) (hes : ∀ e ∈ es, e.FixedMembership ∧ e.ResetsOnly F)
    (m n : Nat) (p q : PeerId) (r r' : Raft Hash)
    (hr : (g.start.run (es.take m)).replicas p = some r)
    (hr' : (g.start.run (es.take n)).replicas q = some r') (i : Nat) (hi : i ≤ r.commitIdx)
    (hi' : i ≤ r'.commitIdx) (e e' : LogEntry Hash) (he : r.log.at? i = some e)
    (he' : r'.log.at? i = some e') : e = e' := by
  obtain ⟨w, hw, ⟨hinv, hpast⟩, hinv', hpast'⟩ := RaftGroup.exists_world_of_fixed hes hr hr'
  have hmeets : g.setting.Meets F := Setting.meets_of_card hn hF
  have hlin : w.Linear g.setting _ := hw.linear_of_fixed (fun _ h => h) hmeets
  have hentry := Reachable.entryAt_eq (fun _ h => h.trusted_of_collisionFree hfree) hw hlin hpast
    hpast' hi hi'
  have h1 : entryAt r.view.log i = some e := hinv.log_ok.entryAt_of_at? he
  have h2 : entryAt r'.view.log i = some e' := hinv'.log_ok.entryAt_of_at? he'
  rw [h1, h2] at hentry
  exact Option.some.inj hentry

theorem committed_entries_agree_resetRun : ∃ r r' e e',
    ((group 1 [1, 2, 3, 4]).start.run (resetRun.take 14)).replicas 1 = some r ∧
    ((group 1 [1, 2, 3, 4]).start.run (resetRun.take 20)).replicas 2 = some r' ∧
    1 ≤ r.commitIdx ∧ 1 ≤ r'.commitIdx ∧ r.log.at? 1 = some e ∧ r'.log.at? 1 = some e' ∧
    e = e' := by
  have h : (((group 1 [1, 2, 3, 4]).start.run (resetRun.take 14)).replicas 1).any (fun r =>
      (((group 1 [1, 2, 3, 4]).start.run (resetRun.take 20)).replicas 2).any fun r' =>
        (r.log.at? 1).any fun _ => (r'.log.at? 1).any fun _ =>
          decide (1 ≤ r.commitIdx ∧ 1 ≤ r'.commitIdx)) = true := by decide +kernel
  simp only [Option.any_eq_true, decide_eq_true_eq] at h
  obtain ⟨r, hr, r', hr', e, he, e', he', hc, hc'⟩ := h
  exact ⟨r, r', e, e', hr, hr', hc, hc', he, he', committed_entries_agree collisionFree_idealHash
    (group 1 [1, 2, 3, 4]) {3} (by decide) (by decide) resetRun resetRun_ok 14 20 1 2 r r' hr hr' 1
    hc hc' e e' he he'⟩

/-- A term has one leader: no two replicas are leaders of the same term, at whatever points of a
    run in which at most `super_majority` voters are reset to earlier states of theirs. -/
theorem term_has_one_leader (g : RaftGroup Hash)
    (F : Finset PeerId) (hn : g.superMajority < g.membership.votingReplicas.size)
    (hF : (g.membership.votingReplicas.keySet ∩ F).card ≤ g.superMajority)
    (es : List (Event Hash)) (hes : ∀ e ∈ es, e.FixedMembership ∧ e.ResetsOnly F)
    (m n : Nat) (p q : PeerId) (r r' : Raft Hash)
    (hr : (g.start.run (es.take m)).replicas p = some r)
    (hr' : (g.start.run (es.take n)).replicas q = some r') (hrole : r.role = .leader)
    (hrole' : r'.role = .leader) (hterm : r.currentTerm = r'.currentTerm) : p = q := by
  obtain ⟨w, hw, ⟨-, hpast⟩, -, hpast'⟩ := RaftGroup.exists_world_of_fixed hes hr hr'
  exact hw.leader_unique (fun _ h => h) (Setting.meets_of_card hn hF) hpast hpast' hrole hrole' hterm

theorem term_has_one_leader_resetRun : ∃ p q r r',
    ((group 1 [1, 2, 3, 4]).start.run (resetRun.take 5)).replicas p = some r ∧
    ((group 1 [1, 2, 3, 4]).start.run (resetRun.take 20)).replicas q = some r' ∧
    r.role = .leader ∧ r'.role = .leader ∧ r.currentTerm = r'.currentTerm ∧ p = q := by
  have h : (((group 1 [1, 2, 3, 4]).start.run (resetRun.take 5)).replicas 1).any (fun r =>
      (((group 1 [1, 2, 3, 4]).start.run (resetRun.take 20)).replicas 1).any fun r' =>
        decide (r.role = .leader ∧ r'.role = .leader ∧ r.currentTerm = r'.currentTerm)) = true := by
    decide +kernel
  simp only [Option.any_eq_true, decide_eq_true_eq] at h
  obtain ⟨r, hr, r', hr', hl, hl', ht⟩ := h
  exact ⟨1, 1, r, r', hr, hr', hl, hl', ht, term_has_one_leader (group 1 [1, 2, 3, 4]) {3}
    (by decide) (by decide) resetRun resetRun_ok 5 20 1 1 r r' hr hr' hl hl' ht⟩

/-! ### Log matching -/

/-- Logs match: two replicas that store an entry of the same term at an index, at any two points
    of a run without resets, store the same entries up to that index. -/
theorem logs_match (g : RaftGroup Hash) (es : List (Event Hash))
    (hes : ∀ e ∈ es, e.FixedMembership ∧ e.ResetsOnly ∅) (m n : Nat) (p q : PeerId)
    (r r' : Raft Hash) (hr : (g.start.run (es.take m)).replicas p = some r)
    (hr' : (g.start.run (es.take n)).replicas q = some r') (i : Nat) (e e' : LogEntry Hash)
    (he : r.log.at? i = some e) (he' : r'.log.at? i = some e') (hterm : e.term = e'.term)
    (j : Nat) (hj : j ≤ i) (x x' : LogEntry Hash) (hx : r.log.at? j = some x)
    (hx' : r'.log.at? j = some x') : x = x' := by
  obtain ⟨w, hw, ⟨hinv, hpast⟩, hinv', hpast'⟩ := RaftGroup.exists_world_of_fixed hes hr hr'
  rw [Finset.coe_empty] at hw
  have h1 : entryAt r.view.log i = some e := hinv.log_ok.entryAt_of_at? he
  have h2 : entryAt r'.view.log i = some e' := hinv'.log_ok.entryAt_of_at? he'
  have hsame : r.view.log.take i = r'.view.log.take i := by
    apply hw.take_eq_of_termAt (fun _ h => h) hpast hpast' (entryAt_le h1).2 (entryAt_le h2).2
    intro _
    rw [termAt, termAt, h1, h2]
    exact hterm
  have h3 : entryAt r.view.log j = some x := hinv.log_ok.entryAt_of_at? hx
  have h4 : entryAt r'.view.log j = some x' := hinv'.log_ok.entryAt_of_at? hx'
  have hentry := entryAt_congr hsame hj
  rw [h3, h4] at hentry
  exact Option.some.inj hentry

/-- Replica 1 leads and commits an entry with 2, who leads in the next term. -/
def Sample.handOver : List (Event IdealHash) :=
  [tick 1, deliver 0, deliver 2, deliver 3, deliver 5, deliver 6, deliver 7, deliver 8, tick 2,
    deliver 11, deliver 12]

theorem Sample.handOver_ok : ∀ e ∈ handOver, e.FixedMembership ∧ e.ResetsOnly ∅ := by
  simp [handOver, tick, deliver, Event.FixedMembership, Event.ResetsOnly]

theorem logs_match_handOver : ∃ r r' e e',
    ((group 0 [1, 2, 3]).start.run (handOver.take 4)).replicas 1 = some r ∧
    ((group 0 [1, 2, 3]).start.run (handOver.take 11)).replicas 2 = some r' ∧
    r.log.at? 1 = some e ∧ r'.log.at? 1 = some e' ∧ e.term = e'.term ∧ e = e' := by
  have h : (((group 0 [1, 2, 3]).start.run (handOver.take 4)).replicas 1).any (fun r =>
      (((group 0 [1, 2, 3]).start.run (handOver.take 11)).replicas 2).any fun r' =>
        (r.log.at? 1).any fun e => (r'.log.at? 1).any fun e' => decide (e.term = e'.term)) = true := by
    decide +kernel
  simp only [Option.any_eq_true, decide_eq_true_eq] at h
  obtain ⟨r, hr, r', hr', e, he, e', he', ht⟩ := h
  exact ⟨r, r', e, e', hr, hr', he, he', ht, logs_match (group 0 [1, 2, 3]) handOver handOver_ok
    4 11 1 2 r r' hr hr' 1 e e' he he' ht 1 (le_refl 1) e e' he he'⟩

/-! ### Leader completeness -/

/-- What `MaybeAdvanceCommitIndex` commits ends in an entry of the current term. -/
def Raft.CommitsOwnTerm (r : Raft Hash) : Prop :=
  r.commitIdx < r.maybeAdvanceCommitIndex.commitIdx →
    r.log.termAt r.maybeAdvanceCommitIndex.commitIdx = r.currentTerm

instance (r : Raft Hash) : Decidable r.CommitsOwnTerm :=
  inferInstanceAs (Decidable (_ → _))

/-- Where the event calls `MaybeChangeStateAndSendMessages`, a candidate that needs the votes of
    others is in a term above that of the initial log, and a leader commits only up to entries of
    its own term. -/
def RaftGroup.OwnTerm (g : RaftGroup Hash) (s : Sys Hash) (e : Event Hash) : Prop :=
  ∀ x ∈ s.changing e,
    (x.1.role = .candidate → 1 < g.membership.votingReplicas.size →
      g.log.lastTerm < x.1.currentTerm) ∧
    (x.1.maybeBecomeLeader x.2).CommitsOwnTerm

instance (g : RaftGroup Hash) (s : Sys Hash) (e : Event Hash) : Decidable (g.OwnTerm s e) :=
  inferInstanceAs (Decidable (∀ x ∈ s.changing e, _))

def Rules.ownTerm (S : Setting Hash) : Rules Hash :=
  Rules.fixed (fun v => 1 < S.membership.votingReplicas.size → S.baseTerm < v.term)
    fun v n => termAt v.log n = v.term

omit [DecidableEq Hash] [Platform Hash] in
theorem Rules.complete_ownTerm (S : Setting Hash) : (Rules.ownTerm S).Complete S :=
  ⟨fun _ h => h, fun h => h, fun _ h => h, fun _ _ h => h⟩

omit [DecidableEq Hash] [Platform Hash] in
theorem Raft.CommitsOwnTerm.mayAdvance {S : Setting Hash} {r : Raft Hash} (h : r.CommitsOwnTerm) :
    r.MayAdvance S (Rules.ownTerm S) := by
  intro hinv hrole hlt k
  have hat := hinv.at?_eq (hinv.applied_le.trans hlt.le)
  have hterm := h hlt
  rw [Log.termAt, hat] at hterm
  exact hterm

theorem RaftGroup.OwnTerm.permitted {g : RaftGroup Hash} {s : Sys Hash} {e : Event Hash}
    (h : g.OwnTerm s e) {r : Raft Hash} {o : Oracle} (hr : s.changing e = some (r, o)) :
    r.Permitted g.setting (Rules.ownTerm g.setting) o := by
  obtain ⟨hcampaign, hcommit⟩ := h (r, o) hr
  refine ⟨fun _ hrole hsize => ?_, hcommit.mayAdvance⟩
  have hlt := hcampaign hrole hsize
  rw [g.log_ok.lastTerm_eq] at hlt
  exact hlt

omit [DecidableEq Hash] in
/-- A replica alone in its group commits at most its no-op as it starts, which is of its term. -/
theorem RaftGroup.mayAdvance_newFollower (g : RaftGroup Hash) (p : PeerId) :
    Raft.MayAdvance g.setting (Rules.ownTerm g.setting)
      (((g.newFollower p).electionTimeout (g.oracle p)).maybeBecomeLeader (g.oracle p)) := by
  intro hinv hrole hlt k
  obtain ⟨hinv₀, hshown⟩ := g.newFollower_spec p
  have htimeout := Raft.electionTimeout_follows (G := Rules.fixed (fun _ => True) fun _ _ => True)
    (I := fun _ _ => False) hinv₀ (g.oracle p) (fun _ _ => trivial)
  have hle := Raft.maybeAdvanceCommitIndex_le hinv hrole
  have hbase : g.log.full.length ≤ _ := hinv.base_le
  have hlog₀ : ((g.newFollower p).electionTimeout (g.oracle p)).log.full = g.log.full := by
    rw [Raft.electionTimeout_log]
    exact congrArg (fun x => x.1.log) hshown
  rcases Raft.maybeBecomeLeader_log htimeout.inv (g.oracle p) with hlog | ⟨e, he, hlog⟩
  · rw [hlog, hlog₀] at hle
    omega
  · rw [hlog, hlog₀, List.length_append, List.length_singleton] at hle
    show termAt (Log.full _) _ = _
    rw [hlog, hlog₀, show Raft.commitIdx _ = g.log.full.length + 1 by omega, termAt_append_self]
    exact he

/-- Leaders of later terms have what was committed, if candidates are in terms above that of the
    initial log and leaders commit only up to entries of their own term. -/
theorem leaders_complete_of_own_term (g : RaftGroup Hash) (es : List (Event Hash))
    (hes : ∀ e ∈ es, e.FixedMembership ∧ e.ResetsOnly ∅)
    (hown : Sys.AllEvents g.OwnTerm g.start es) (m n : Nat) (p q : PeerId)
    (r r' : Raft Hash) (hr : (g.start.run (es.take m)).replicas p = some r)
    (hr' : (g.start.run (es.take n)).replicas q = some r') (hrole : r'.role = .leader)
    (hterm : r.currentTerm < r'.currentTerm) (i : Nat) (hi : i ≤ r.commitIdx)
    (e : LogEntry Hash) (he : r.log.at? i = some e) :
    r'.log.at? i = some e ∨ (i < r'.log.oldestStoredIdx ∧ i ≤ r'.commitIdx) := by
  obtain ⟨w, hw, ⟨hinv, hpast⟩, hinv', hpast'⟩ := RaftGroup.exists_world
    (G := Rules.ownTerm g.setting) (R := (∅ : Finset PeerId)) (m := m) (n := n)
    (fun p hp => ⟨fun _ _ hsize => absurd hp.2 hsize.ne', g.mayAdvance_newFollower p⟩)
    (hown.imp fun s e he hs => obeys_fixed (hes e he).1 (hes e he).2 fun _ _ => hs.permitted) hr hr'
  rw [Finset.coe_empty] at hw
  have hpre := hw.committed_in_leader (Rules.complete_ownTerm _) hpast hpast' hrole hterm
  have hlen : (r.view.log.take r.view.commit).length = r.commitIdx :=
    List.length_take.trans (Nat.min_eq_left hinv.commit_le_length)
  have htake := List.prefix_iff_eq_take.mp hpre
  rw [hlen] at htake
  have hentry : entryAt r.log.full i = some e := hinv.log_ok.entryAt_of_at? he
  have hentry' : entryAt r'.log.full i = some e :=
    (entryAt_congr htake.symm hi).trans hentry
  by_cases hstored : r'.log.oldestStoredIdx ≤ i
  · exact Or.inl ((hinv'.log_ok.at?_of_le hstored).trans hentry')
  · have h1 := hinv'.stored
    have h2 := hinv'.applied_le
    have h3 := (entryAt_le hentry).1
    exact Or.inr ⟨by omega, by omega⟩

theorem leaders_complete_of_own_term_handOver : ∃ r r' e,
    ((group 0 [1, 2, 3]).start.run (handOver.take 7)).replicas 1 = some r ∧
    ((group 0 [1, 2, 3]).start.run (handOver.take 11)).replicas 2 = some r' ∧
    r'.role = .leader ∧ r.currentTerm < r'.currentTerm ∧ 1 ≤ r.commitIdx ∧ r.log.at? 1 = some e ∧
    (r'.log.at? 1 = some e ∨ (1 < r'.log.oldestStoredIdx ∧ 1 ≤ r'.commitIdx)) := by
  have h : (((group 0 [1, 2, 3]).start.run (handOver.take 7)).replicas 1).any (fun r =>
      (((group 0 [1, 2, 3]).start.run (handOver.take 11)).replicas 2).any fun r' =>
        (r.log.at? 1).any fun _ => decide (r'.role = .leader ∧ r.currentTerm < r'.currentTerm ∧
          1 ≤ r.commitIdx)) = true := by decide +kernel
  simp only [Option.any_eq_true, decide_eq_true_eq] at h
  obtain ⟨r, hr, r', hr', e, he, hl, ht, hc⟩ := h
  exact ⟨r, r', e, hr, hr', hl, ht, hc, he, leaders_complete_of_own_term (group 0 [1, 2, 3])
    handOver handOver_ok (by decide +kernel) 7 11 1 2 r r' hr hr' hl ht 1 hc e he⟩

/-- In term 3 replica 1 commits an entry of term 1 with 2, before its own no-op is stored; then 2
    votes for 3, whose log ends in an entry of term 2. -/
def Sample.lostCommit : List (Event IdealHash) :=
  [tick 1, deliver 0, deliver 2, request 1 7, tick 3, tick 3, deliver 7, deliver 8, deliver 10,
    request 3 8, request 3 9, tick 1, deliver 13, deliver 15, deliver 16, deliver 18, deliver 19,
    deliver 20, deliver 21, deliver 22, deliver 23, deliver 24, deliver 14, tick 3, deliver 28,
    deliver 29]

/-- The source does not look at the term of the entry that it commits up to: a later leader can
    have another entry where one was committed. -/
theorem later_leader_without_committed_entry :
    (∀ e ∈ lostCommit, e.FixedMembership ∧ e.ResetsOnly ∅) ∧ ∃ r r' e e',
    ((group 0 [1, 2, 3]).start.run lostCommit).replicas 1 = some r ∧
    ((group 0 [1, 2, 3]).start.run lostCommit).replicas 3 = some r' ∧ 1 ≤ r.commitIdx ∧
    r.log.at? 1 = some e ∧ r'.role = .leader ∧ r.currentTerm < r'.currentTerm ∧
    r'.log.at? 1 = some e' ∧ e' ≠ e := by
  constructor
  · simp [lostCommit, tick, deliver, request, Event.FixedMembership, Event.ResetsOnly]
  · have h : (((group 0 [1, 2, 3]).start.run lostCommit).replicas 1).any (fun r =>
        (((group 0 [1, 2, 3]).start.run lostCommit).replicas 3).any fun r' =>
          (r.log.at? 1).any fun e => (r'.log.at? 1).any fun e' => decide (1 ≤ r.commitIdx ∧
            r'.role = .leader ∧ r.currentTerm < r'.currentTerm ∧ e' ≠ e)) = true := by
      decide +kernel
    simp only [Option.any_eq_true, decide_eq_true_eq] at h
    obtain ⟨r, hr, r', hr', e, he, e', he', hc, hl, ht, hne⟩ := h
    exact ⟨r, r', e, e', hr, hr', hc, he, hl, ht, he', hne⟩

end SVR2
