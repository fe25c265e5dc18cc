import SVR2.Raft.Handlers

/-!
# The calls of the enclave core follow the protocol

`Receive`, `TimerTick` and the other public functions of `raft.cc`, and the constructor.
-/

namespace SVR2

open Lib Relation

variable {Hash : Type} [Platform Hash]

namespace Raft

variable {S : Setting Hash} {G : Rules Hash} {I : PeerId → RaftMessage Hash → Prop}
variable {r : Raft Hash}

/-! ### Sending what a change of state calls for -/

theorem advanceVerified_follows (h : r.Inv S) (o : Oracle) (hrule : MayAdvance S G r) :
    Follows S G I r (r.advanceVerified o) := by
  rw [advanceVerified]
  rcases verifyMerkleTree_cases h (o.nodesVerify 1) with hok | ⟨err, herr, hfail⟩
  · rw [hok]
    have hadvance := maybeAdvanceCommitIndex_follows (I := I) h hrule
    exact hadvance.trans (updateMerkleTree_follows hadvance.inv)
  · rw [hfail]
    cases err <;> first | exact absurd rfl herr | exact merkleError_follows h

theorem foldl_appendEntries_follows (h : r.Inv S) (ps : List PeerId) (hps : ∀ p ∈ ps, p ≠ r.me) :
    Follows S G I r (ps.foldl appendEntries r) := by
  induction ps generalizing r with
  | nil => exact Follows.refl h
  | cons p ps ih =>
    have hp := appendEntries_follows (G := G) (I := I) h (hps p (List.mem_cons_self ..))
    refine hp.trans (ih hp.inv fun q hq => ?_)
    rw [hp.view_me]
    exact hps q (List.mem_cons_of_mem p hq)

theorem tryToRelinquishLeadership_follows (h : r.Inv S) (o : Oracle) :
    Follows S G I r (r.tryToRelinquishLeadership o) := by
  rw [tryToRelinquishLeadership]
  split
  · exact Follows.refl h
  · rename_i next hnext
    have hne : next ≠ r.me := by
      have := List.find?_some hnext
      simp only [Bool.and_eq_true, decide_eq_true_eq] at this
      exact this.1
    have hsend : Follows S G I r (r.reply next (.timeoutNow true)) :=
      reply_follows h hne (Move.other r.view (some next) _ trivial)
    refine hsend.trans (Follows.of_silent (hsend.inv.follow _ _ _) rfl
      (Move.stepDown _) rfl)

/-- The rules permit the state in which `MaybeChangeStateAndSendMessages` is called, and what
    is committed there. -/
structure Permitted (S : Setting Hash) (G : Rules Hash) (r : Raft Hash) (o : Oracle) : Prop where
  campaign : MayCampaign S G r
  advance : MayAdvance S G (r.maybeBecomeLeader o)

omit [Platform Hash] in
theorem mayCampaign_any (r : Raft Hash) : r.MayCampaign S (Rules.any Hash) := fun _ _ => trivial

omit [Platform Hash] in
theorem mayAdvance_any (r : Raft Hash) : r.MayAdvance S (Rules.any Hash) := fun _ _ _ _ => trivial

theorem permitted_any (r : Raft Hash) (o : Oracle) : r.Permitted S (Rules.any Hash) o :=
  ⟨r.mayCampaign_any, mayAdvance_any _⟩

theorem maybeChangeStateAndSendMessages_follows (h : r.Inv S) (o : Oracle)
    (hrule : Permitted S G r o) :
    Follows S G I r (r.maybeChangeStateAndSendMessages o) := by
  have hlead := maybeBecomeLeader_follows (G := G) (I := I) h o
  have hadvance := hlead.trans (advanceVerified_follows (I := I) hlead.inv o hrule.advance)
  have hsend := hadvance.trans (foldl_appendEntries_follows (G := G) (I := I) hadvance.inv
    ((r.maybeBecomeLeader o).advanceVerified o).peers
    (fun p hp => by simpa using (List.mem_filter.mp hp).2))
  simp only [maybeChangeStateAndSendMessages]
  split_ifs
  · exact hsend.trans (tryToRelinquishLeadership_follows hsend.inv o)
  · exact hsend

/-! ### Calls -/

theorem countTick_follows (h : r.Inv S) (o : Oracle) (hrule : MayCampaign S G (r.countTick o)) :
    Follows S G I r (r.countTick o) := by
  cases hrole : r.role with
  | follower =>
    have htick : Follows S G I r
        { r with role := .follower, follower := { r.follower with election := r.follower.election - 1 } } :=
      hrole ▸ Follows.of_shown { h with } rfl rfl
    simp only [countTick, hrole] at hrule ⊢
    split_ifs at hrule ⊢
    · exact htick.trans (electionTimeout_follows htick.inv o hrule)
    · exact htick
  | candidate =>
    have htick : Follows S G I r
        { r with role := .candidate, candidate := { r.candidate with election := r.candidate.election - 1 } } :=
      hrole ▸ Follows.of_shown { h with } rfl rfl
    simp only [countTick, hrole] at hrule ⊢
    split_ifs at hrule ⊢
    · exact htick.trans (electionTimeout_follows htick.inv o hrule)
    · exact htick
  | leader =>
    have hseen := modifyFollowers_follows (G := G) (I := I)
      (f := fun f => { f with lastSeenTicks :=
        if f.lastSeenTicks ≠ InvalidTicks then f.lastSeenTicks + 1 else f.lastSeenTicks })
      h (fun _ => rfl)
    have hbeat : ∀ {r' : Raft Hash} (n : Ticks), Follows S G I r r' →
        Follows S G I r { r' with leader := { r'.leader with heartbeat := n } } :=
      fun n hr' => hr'.trans (Follows.of_shown { hr'.inv with } rfl rfl)
    simp only [countTick, hrole]
    split_ifs
    · exact hbeat _ ((hbeat _ hseen).trans (modifyFollowers_follows (hbeat _ hseen).inv fun _ => rfl))
    · exact hbeat _ hseen

theorem timerTick_follows (h : r.Inv S) (o : Oracle)
    (hrule : Permitted S G (r.countTick o) o) :
    Follows S G I r (r.timerTick o) := by
  have htick := countTick_follows (I := I) h o hrule.campaign
  exact htick.trans (maybeChangeStateAndSendMessages_follows htick.inv o hrule)

theorem resetPeer_follows (h : r.Inv S) {id : PeerId} (hid : id ≠ r.me) :
    Follows S G I r (r.resetPeer id) := by
  rw [resetPeer]
  by_cases hmem : id ∈ r.membership.allReplicas
  swap
  · rw [if_pos hmem]
    exact Follows.refl h
  rw [if_neg (not_not.mpr hmem)]
  cases hrole : r.role with
  | follower => exact Follows.refl h
  | candidate =>
    have hsend : Follows S G I r (r.addSendableMessage ⟨some id, r.requestVoteMessage⟩) := by
      rw [voteRequest_eq h]
      exact addSendableMessage_follows h (by simpa using hid) (Move.requestVote r.view (some id) hrole)
    exact hsend
  | leader =>
    have hmodify := modifyFollower_follows (G := G) (I := I)
      (f := fun state => { state with
        nextIdx := r.log.lastIdx + 1, sendProbe := true, sendHeartbeat := true, inflight := none })
      h id (fun _ => rfl)
    exact hmodify

theorem reconfigure_follows (h : r.Inv S) (config : RaftConfig) :
    Follows S G I r (r.reconfigure config) :=
  Follows.of_shown { h with } rfl rfl

theorem appendNoopAndRelinquish_follows (h : r.Inv S) (o : Oracle) :
    Follows S G I r (r.appendNoopAndRelinquish o) := by
  have hnoop := clientRequestInternal_follows (G := G) (I := I) h o
    (e := LogEntry.default) (by simp [LogEntry.default])
  exact hnoop.trans (Follows.of_shown { hnoop.inv with } rfl rfl)

theorem relinquishLeadership_follows (h : r.Inv S) (o : Oracle)
    (hrule : ¬(r.role ≠ .leader ∨ r.leader.relinquishing) →
      Permitted S G (r.appendNoopAndRelinquish o) o) :
    Follows S G I r (r.relinquishLeadership o) := by
  rw [relinquishLeadership]
  split_ifs with hno
  · exact Follows.refl h
  · have hmark := appendNoopAndRelinquish_follows (G := G) (I := I) h o
    exact hmark.trans (maybeChangeStateAndSendMessages_follows hmark.inv o (hrule hno))

/-- A request that has passed `LogRequest`'s checks is appended: a membership change has to be one
    the rules allow. -/
theorem checkedRequest_follows (h : r.Inv S) (o : Oracle) {e : LogEntry Hash}
    (hok : r.checkLogRequest e = .ok)
    (hchange : ∀ g, e.inner = .membershipChange g → G.mayReconfigure r.view) :
    Follows S G I r (r.clientRequestInternal o e).1 := by
  cases hinner : e.inner with
  | membershipChange g =>
    exact clientRequestInternal_membership_follows h o hinner hok (hchange g hinner)
  | _ => exact clientRequestInternal_follows h o (by simp [hinner])

theorem logRequest_follows (h : r.Inv S) (o : Oracle) (e : LogEntry Hash)
    (hchange : ∀ g, e.inner = .membershipChange g → r.checkLogRequest e = .ok →
      G.mayReconfigure r.view)
    (hrule : r.checkLogRequest e = .ok → Permitted S G (r.clientRequestInternal o e).1 o) :
    Follows S G I r (r.logRequest o e).1 := by
  rw [logRequest_fst]
  split_ifs with hok
  · have hrequest := checkedRequest_follows (I := I) h o hok fun g hg => hchange g hg hok
    exact hrequest.trans (maybeChangeStateAndSendMessages_follows hrequest.inv o (hrule hok))
  · exact Follows.refl h

/-! ### Receiving messages -/

omit [Platform Hash] in
theorem validateReceivedMessage_ok [DecidableEq Hash] (h : r.Inv S) {msg : RaftMessage Hash}
    {src : PeerId} (hok : r.validateReceivedMessage msg src = .ok) :
    msg.group = S.group ∧
    (∀ m, msg.inner = .appendRequest m →
      (m.prevLogIdx ≠ 0 → ∀ e, entryAt r.log.full m.prevLogIdx = some e →
        e.term = m.prevLogTerm → e.hashChain = m.prevLogHashChain) ∧
      m.leaderCommit ≤ m.leaderPromise ∧ Vetted r.log m) ∧
    (∀ m, msg.inner = .appendResponse m →
      m.matchIdx = 0 ∨ (r.log.oldestStoredIdx ≤ m.matchIdx ∧
        m.matchIdx ≤ r.log.full.length ∧ hashAt r.log.full m.matchIdx = m.matchHashChain)) := by
  rw [validateReceivedMessage] at hok
  by_cases hgroup : msg.group = r.group
  swap
  · rw [if_pos hgroup] at hok
    cases hok
  by_cases hpeer : src ∈ r.membership.allReplicas
  swap
  · rw [if_neg (not_not.mpr hgroup), if_pos hpeer] at hok
    cases hok
  rw [if_neg (not_not.mpr hgroup), if_neg (not_not.mpr hpeer)] at hok
  refine ⟨hgroup.trans h.group, ?_, ?_⟩
  · intro m hm
    rw [hm] at hok
    simp only at hok
    split at hok
    · rename_i hprev
      split_ifs at hok with hcommit hpromise horder
      refine ⟨fun h0 e he hterm => ?_, not_lt.mp horder, vetted_of_checkEntries h hok⟩
      exact (checkLogHash_ok h hprev h0).2.2 e he (Or.inr hterm)
    · rename_i hne
      exact absurd hok hne
  · intro m hm
    rw [hm] at hok
    simp only at hok
    split at hok
    · rename_i hmatch
      by_cases h0 : m.matchIdx = 0
      · exact Or.inl h0
      · obtain ⟨hold, hle, hhash⟩ := checkLogHash_ok h hmatch h0
        obtain ⟨e, he⟩ := entryAt_isSome (Nat.pos_of_ne_zero h0) (hle rfl)
        refine Or.inr ⟨hold, hle rfl, ?_⟩
        rw [hashAt, he]
        exact hhash e he (Or.inl rfl)
    · rename_i hne
      exact absurd hok hne

omit [Platform Hash] in
theorem checkLogHash_ne_checkFailed [DecidableEq Hash] (h : r.Inv S) (i t : Nat)
    (hash : Option Hash) (allowFuture : Bool) :
    r.checkLogHash i t hash allowFuture ≠ .checkFailed := by
  rw [checkLogHash]
  by_cases h0 : i = 0
  · simp [h0]
  by_cases hold : i < r.log.oldestStored
  · simp [h0, hold]
  by_cases hlast : r.log.lastIdx < i
  · cases allowFuture <;> simp [h0, hold, hlast]
  · -- the index is stored
    rw [h.lastIdx_eq] at hlast
    obtain ⟨e, he⟩ := entryAt_isSome (Nat.pos_of_ne_zero h0) (not_lt.mp hlast)
    rw [if_neg h0, if_neg hold, h.lastIdx_eq, if_neg hlast,
      h.log_ok.at?_of_le (h.log_ok.oldestStored_le h0 hold), he]
    simp only
    split_ifs <;> simp

omit [Platform Hash] in
theorem checkEntries_ne_checkFailed [DecidableEq Hash] (h : r.Inv S) (n : Nat)
    (es : List (LogEntry Hash)) : r.checkEntries n es ≠ .checkFailed := by
  induction es generalizing n with
  | nil => simp [checkEntries]
  | cons e es ih =>
    rw [checkEntries]
    split
    · exact ih (n + 1)
    · exact checkLogHash_ne_checkFailed h _ _ _ _

omit [Platform Hash] in
theorem validateReceivedMessage_ne_checkFailed [DecidableEq Hash] (h : r.Inv S)
    (msg : RaftMessage Hash) (src : PeerId) : r.validateReceivedMessage msg src ≠ .checkFailed := by
  have hhash := checkLogHash_ne_checkFailed h
  rw [validateReceivedMessage]
  split_ifs
  · simp
  · cases msg.inner with
    | voteRequest m => exact hhash _ _ _ _
    | voteResponse m => simp
    | appendRequest m =>
      simp only
      split
      · split_ifs
        · simp
        · simp
        · simp
        · exact checkEntries_ne_checkFailed h _ _
      · exact hhash _ _ _ _
    | appendResponse m =>
      simp only
      split
      · split_ifs <;> simp
      · exact hhash _ _ _ _
    | timeoutNow b => simp
    | notSet => simp
  · simp

theorem noteMessage_follows (h : r.Inv S) (o : Oracle) (msg : RaftMessage Hash) (src : PeerId) :
    Follows S G I r (r.noteMessage o msg src) := by
  have hterm := updateTerm_follows (G := G) (I := I) h o msg
  simp only [noteMessage]
  split_ifs
  · exact hterm.trans (modifyFollower_follows hterm.inv src fun _ => rfl)
  · exact hterm

omit [Platform Hash] in
theorem noteMessage_log (o : Oracle) (msg : RaftMessage Hash) (src : PeerId) :
    (r.noteMessage o msg src).log = r.log := by
  have hlog : (r.updateTerm o msg).log = r.log := by
    rw [updateTerm]
    split_ifs <;> rfl
  simp only [noteMessage]
  rw [← hlog]
  split_ifs
  · rw [modifyFollower]
    split <;> rfl
  · rfl

theorem handleMessage_follows [DecidableEq Hash] (h : r.Inv S) (o : Oracle)
    {msg : RaftMessage Hash} {src : PeerId} (hsrc : src ≠ r.me) (hin : I src msg)
    (hpromise : ∀ m, msg.inner = .appendResponse m → m.success = true → m.promiseIdx ≤ m.matchIdx)
    (hok : r.validateReceivedMessage msg src = .ok)
    (hrule : MayCampaign S G (r.handleMessage o msg src)) :
    Follows S G I r (r.handleMessage o msg src) := by
  obtain ⟨hgroup, hrequest, hresponse⟩ := validateReceivedMessage_ok h hok
  have hnote := noteMessage_follows (G := G) (I := I) h o msg src
  have hsrc₁ : src ≠ (r.noteMessage o msg src).me := hnote.view_me ▸ hsrc
  rw [← noteMessage_log o msg src] at hrequest hresponse
  obtain ⟨group, t, inner⟩ := msg
  cases hgroup
  refine hnote.trans ?_
  rw [handleMessage] at hrule ⊢
  cases inner with
  | voteRequest m => exact handleVoteRequest_follows hnote.inv o hsrc₁ hin
  | voteResponse m =>
    simp only
    split_ifs
    · exact Follows.refl hnote.inv
    · exact handleVoteResponse_follows hnote.inv hin
  | appendRequest m =>
    obtain ⟨hprev, hle, hvet⟩ := hrequest m rfl
    exact handleAppendRequest_follows hnote.inv o hsrc₁ hin hprev hle hvet
  | appendResponse m =>
    simp only
    split_ifs
    · exact Follows.refl hnote.inv
    · exact handleAppendResponse_follows hnote.inv hin (hresponse m rfl) (hpromise m rfl)
  | timeoutNow b =>
    simp only at hrule ⊢
    split_ifs at hrule ⊢
    · exact Follows.refl hnote.inv
    · exact electionTimeout_follows hnote.inv o hrule
  | notSet => exact Follows.refl hnote.inv

theorem receive_follows [DecidableEq Hash] (h : r.Inv S) (o : Oracle) {msg : RaftMessage Hash}
    {src : PeerId} (hsrc : src ≠ r.me) (hin : I src msg)
    (hpromise : ∀ m, msg.inner = .appendResponse m → m.success = true → m.promiseIdx ≤ m.matchIdx)
    (hrule : r.validateReceivedMessage msg src = .ok →
      Permitted S G (r.handleMessage o msg src) o) :
    Follows S G I r (r.receive o msg src) := by
  rcases r.receive_cases o msg src with ⟨hok, hr⟩ | ⟨hfail, -⟩ | hr
  · have hhandle := handleMessage_follows h o hsrc hin hpromise hok (hrule hok).campaign
    rw [hr]
    exact hhandle.trans (maybeChangeStateAndSendMessages_follows hhandle.inv o (hrule hok))
  · exact absurd hfail (validateReceivedMessage_ne_checkFailed h msg src)
  · rw [hr]
    exact Follows.refl h

/-! ### Taking committed entries and starting -/

omit [Platform Hash] in
/-- `TakeCommittedLog` moves `last_applied_`, of which the protocol sees nothing; the `CHECK`
    that the entry is stored does not fail. -/
theorem takeCommittedLog_spec (h : r.Inv S) :
    r.takeCommittedLog.1.Inv S ∧ r.takeCommittedLog.1.shown = r.shown ∧
      r.lastApplied ≤ r.takeCommittedLog.1.lastApplied := by
  rw [takeCommittedLog]
  split_ifs with hle
  · exact ⟨h, rfl, le_refl _⟩
  · have hcommit := h.commit_le_length
    have hstored := h.stored
    obtain ⟨e, he⟩ := entryAt_isSome (L := r.log.full) (i := r.lastApplied + 1) (by omega) (by omega)
    have hat : r.log.at? (r.lastApplied + 1) = some e := by
      rw [h.at?_eq (by omega), he]
    simp only [hat]
    refine ⟨{ h with applied_le := ?_, stored := ?_ }, rfl, Nat.le_succ _⟩
    · show r.lastApplied + 1 ≤ r.commitIdx
      omega
    · show r.log.oldestStoredIdx ≤ max (r.lastApplied + 1) 1
      omega

theorem newFollower_spec (me : PeerId) {mem : Membership} {log : Log Hash} (config : RaftConfig)
    (o : Oracle) (hlog : log.Ok) (hbase : S.base <+: log.full) (hmem : mem = S.conf log.full) :
    (newFollower S.group me mem log config true S.superMajority o).Inv S ∧
      (newFollower S.group me mem log config true S.superMajority o).shown =
        (View.fresh me log.full, []) := by
  have hlast := hlog.lastIdx_eq
  have hinv : Inv S
      { group := S.group, me := me, committedMembership := mem, uncommittedMemberships := []
        config := config, lastApplied := log.lastIdx, currentTerm := 0, votedFor := none
        role := .follower
        follower := { election := config.electionTicks + o.rand 5 % config.electionTicks }
        candidate := {}, leader := {}, log := log, commitLeaf := 0, commitIdx := log.lastIdx
        promiseLeaf := 0, promiseIdx := log.lastIdx, sendableMessages := []
        superMajority := S.superMajority, merkleErrors := 0, aborted := false } :=
    { not_aborted := rfl
      group := rfl
      super_majority := rfl
      log_ok := hlog
      base_start := hbase
      base_le := hlast ▸ hbase.length_le
      applied_le := le_refl _
      commit_le := le_refl _
      promise_le := hlast.le
      stored := by
        have h1 := hlog.oldest
        by_cases he : log.entries = []
        · have := hlog.empty he
          simp only
          omega
        · have : 0 < log.entries.length := List.length_pos_iff.mpr he
          have hlen : log.full.length = log.removed.length + log.entries.length := by
            rw [Log.full, List.length_append]
          simp only
          omega
      committed := by rw [hlast, List.take_length, hmem]
      uncommitted := by simp [confsAfter, hlast]
      voting := fun hrole => absurd rfl hrole
      followers := fun hrole => by cases hrole
      acked := fun hrole => by cases hrole
      sendable := by simp }
  rw [newFollower, if_pos rfl, updateMerkleTree_eq hinv]
  refine ⟨{ hinv with }, Prod.ext ?_ rfl⟩
  exact View.ext rfl rfl rfl rfl rfl rfl rfl hlast hlast

/-- The constructor of a group of one elects the replica; a constructor that returns leaves no
    message behind. -/
theorem new_spec {me : PeerId} {mem : Membership} {log : Log Hash} (config : RaftConfig)
    (o : Oracle) (hlog : log.Ok) (hbase : S.base <+: log.full) (hmem : mem = S.conf log.full)
    (hrule : me ∈ mem.votingReplicas → mem.votingReplicas.size = 1 →
      Permitted S G ((newFollower S.group me mem log config true S.superMajority
        o).electionTimeout o) o)
    (hrun : (new S.group me mem log config true S.superMajority o).aborted = false) :
    Follows S G I (newFollower S.group me mem log config true S.superMajority o)
        (new S.group me mem log config true S.superMajority o) ∧
      (new S.group me mem log config true S.superMajority o).sendableMessages = [] := by
  obtain ⟨hinv, hshown⟩ := newFollower_spec me config o hlog hbase hmem
  have hme : (newFollower S.group me mem log config true S.superMajority o).me = me := rfl
  have hmembership :
      (newFollower S.group me mem log config true S.superMajority o).membership = mem := rfl
  rw [new] at hrun ⊢
  simp only at hrun ⊢
  generalize newFollower S.group me mem log config true S.superMajority o = r at *
  split_ifs at hrun ⊢ with hsole
  · have hpermitted := hrule (by rw [← hme, ← hmembership]; exact OrdMap.mem_def.mpr hsole.1)
      (by rw [← hmembership]; exact hsole.2)
    have htimeout := electionTimeout_follows (I := I) hinv o hpermitted.campaign
    have hall := htimeout.trans
      (maybeChangeStateAndSendMessages_follows (I := I) htimeout.inv o hpermitted)
    have hnil : ((r.electionTimeout o).maybeChangeStateAndSendMessages o).sendableMessages = [] := by
      simpa [check, hall.inv.not_aborted] using hrun
    rw [check_eq (by simpa using hnil)]
    exact ⟨hall, hnil⟩
  · exact ⟨Follows.refl hinv, congrArg Prod.snd hshown⟩

end Raft

end SVR2
