import SVR2.Raft.Bookkeeping

/-!
# The append requests of a leader

A leader keeps for every follower the index of the next entry to send.  Acknowledgements and
resets move it to the end, rejections move it back, new entries and new members leave it where it
is; it always points into the log or right after its end.  So the requests that a leader sends are
pieces of its log, with commit and promise indexes that the receiver does not object to.
-/

namespace SVR2

open Lib World

variable {Hash : Type}

namespace Raft

variable {S : Setting Hash} {r r' : Raft Hash}

/-! ### The next index of a follower -/

/-- Every follower's next index points into the leader's log or right after its end. -/
def Ranged (r : Raft Hash) : Prop :=
  r.role = .leader → ∀ p s, r.leader.followers.find? p = some s →
    1 ≤ s.nextIdx ∧ s.nextIdx ≤ r.log.lastIdx + 1

def book (r : Raft Hash) : Role × OrdMap PeerId ReplicationState × Log Hash :=
  (r.role, r.leader.followers, r.log)

theorem Ranged.congr (h : r.Ranged) (hbook : r'.book = r.book) : r'.Ranged := by
  simp only [book, Prod.mk.injEq] at hbook
  obtain ⟨hrole, hfollowers, hlog⟩ := hbook
  rw [Ranged, hrole, hfollowers, hlog]
  exact h

theorem Ranged.check (h : r.Ranged) (c : Bool) : (r.check c).Ranged := h.congr rfl

theorem ranged_of_role (h : r.role ≠ .leader) : r.Ranged := fun hrole => absurd hrole h

theorem Ranged.setFollowers (h : r.Ranged) {fs : OrdMap PeerId ReplicationState}
    (hfs : ∀ p s, fs.find? p = some s →
      (1 ≤ s.nextIdx ∧ s.nextIdx ≤ r.log.lastIdx + 1) ∨
        ∃ s', r.leader.followers.find? p = some s' ∧ s.nextIdx = s'.nextIdx) :
    (r.setFollowers fs).Ranged := by
  intro hrole p s hs
  rcases hfs p s hs with hrange | ⟨s', hs', heq⟩
  · exact hrange
  · rw [heq]
    exact h hrole p s' hs'

theorem Ranged.modifyFollower (h : r.Ranged) (peer : PeerId)
    {f : ReplicationState → ReplicationState}
    (hf : ∀ s, (1 ≤ s.nextIdx ∧ s.nextIdx ≤ r.log.lastIdx + 1) →
      1 ≤ (f s).nextIdx ∧ (f s).nextIdx ≤ r.log.lastIdx + 1) :
    (r.modifyFollower peer f).Ranged := by
  rw [Raft.modifyFollower]
  split
  · rename_i s hs
    intro hrole p s' hs'
    have hs' : (r.leader.followers.insert peer (f s)).find? p = some s' := hs'
    rw [OrdMap.find?_insert] at hs'
    split_ifs at hs' with hp
    · cases hs'
      exact hf s (h hrole peer s hs)
    · exact h hrole p s' hs'
  · exact h

theorem Ranged.modifyFollowers (h : r.Ranged) {f : ReplicationState → ReplicationState}
    (hf : ∀ s, (f s).nextIdx = s.nextIdx) : (r.modifyFollowers f).Ranged := by
  refine h.setFollowers fun p s hs => ?_
  rw [OrdMap.find?_mapVal, Option.map_eq_some_iff] at hs
  obtain ⟨s', hs', rfl⟩ := hs
  exact .inr ⟨s', hs', hf s'⟩

theorem Ranged.handleMembershipChange (h : r.Ranged) : r.handleMembershipChange.Ranged := by
  rw [Raft.handleMembershipChange]
  split_ifs with hrole
  · refine h.setFollowers fun p s hs => ?_
    rw [find?_followersUnder] at hs
    split_ifs at hs with hall hme
    · exact .inr ⟨s, hs, rfl⟩
    · cases hf : r.leader.followers.find? p with
      | some s' =>
        rw [hf] at hs
        cases hs
        exact .inr ⟨_, rfl, rfl⟩
      | none =>
        rw [hf] at hs
        cases hs
        exact .inl ⟨Nat.le_add_left _ _, le_rfl⟩
  · exact h

theorem Ranged.maybeChangeUncommittedMemberships (h : r.Ranged) :
    r.maybeChangeUncommittedMembershipsBasedOnLog.Ranged := by
  rw [maybeChangeUncommittedMembershipsBasedOnLog]
  split_ifs
  · refine Ranged.handleMembershipChange ?_
    exact h.congr rfl
  · exact h.congr rfl

theorem Ranged.raiseCommit (h : r.Ranged) (n : Nat) : (r.raiseCommit n).Ranged := by
  rw [Raft.raiseCommit]
  split_ifs
  · refine Ranged.maybeChangeUncommittedMemberships ?_
    exact h.congr rfl
  · exact h

theorem Ranged.raisePromise (hr : r.Ranged) (n : Nat) : (r.raisePromise n).Ranged := by
  rw [raisePromise_eq]
  exact hr.congr rfl

theorem Ranged.setLog (h : r.Ranged) {log : Log Hash} (hlog : r.log.lastIdx ≤ log.lastIdx) :
    ({ r with log := log } : Raft Hash).Ranged := by
  intro hrole p s hs
  obtain ⟨hpos, hle⟩ := h hrole p s hs
  exact ⟨hpos, hle.trans (Nat.succ_le_succ hlog)⟩

theorem Ranged.maybeAdvanceCommitIndex (hr : r.Ranged) : r.maybeAdvanceCommitIndex.Ranged := by
  rw [Raft.maybeAdvanceCommitIndex]
  split_ifs
  · exact hr
  · dsimp only
    split
    · exact hr.check _
    · split
      · exact (hr.raisePromise _).check _
      · split_ifs
        · exact ((hr.raisePromise _).raiseCommit _).modifyFollowers fun _ => rfl
        · exact (hr.raisePromise _).raiseCommit _

/-! ### Messages and elections -/

@[simp] theorem book_addSendableMessage (msg : SendableRaftMessage Hash) :
    (r.addSendableMessage msg).book = r.book := by
  rw [addSendableMessage]
  split
  · rfl
  · split_ifs <;> rfl

theorem Ranged.reply (h : r.Ranged) (dst : PeerId) (inner : MessageInner Hash) :
    (r.reply dst inner).Ranged :=
  h.congr (book_addSendableMessage _)

theorem Ranged.electionTimeout (h : r.Ranged) (o : Oracle) : (r.electionTimeout o).Ranged := by
  rw [Raft.electionTimeout]
  split_ifs
  · exact h.congr rfl
  · split
    · exact h
    · refine Ranged.congr ?_ (book_addSendableMessage _)
      exact ranged_of_role (by simp [setRole])

theorem Ranged.updateTerm (h : r.Ranged) (o : Oracle) (msg : RaftMessage Hash) :
    (r.updateTerm o msg).Ranged := by
  rw [Raft.updateTerm]
  split_ifs
  · exact h
  · exact ranged_of_role (by simp [setRole])

theorem Ranged.noteMessage (h : r.Ranged) (o : Oracle) (msg : RaftMessage Hash) (src : PeerId) :
    (r.noteMessage o msg src).Ranged := by
  rw [Raft.noteMessage]
  split_ifs
  · exact (h.updateTerm o msg).modifyFollower src fun _ hs => hs
  · exact h.updateTerm o msg

theorem Ranged.tryToRelinquishLeadership (h : r.Ranged) (o : Oracle) :
    (r.tryToRelinquishLeadership o).Ranged := by
  rw [Raft.tryToRelinquishLeadership]
  dsimp only
  split
  · exact h
  · exact ranged_of_role (by simp [setRole])

theorem Ranged.heartbeat (h : r.Ranged) (n : Ticks) :
    ({ r with leader := { r.leader with heartbeat := n } } : Raft Hash).Ranged :=
  h.congr rfl

theorem Ranged.followSender (hr : r.Ranged) (o : Oracle) (src : PeerId) :
    (r.followSender o src).Ranged := by
  rw [Raft.followSender]
  split
  · exact ranged_of_role (by simp [setRole])
  · exact hr.congr rfl

theorem Ranged.takeCommittedLog (hr : r.Ranged) : r.takeCommittedLog.1.Ranged := by
  rw [Raft.takeCommittedLog]
  split_ifs
  · exact hr
  · dsimp only
    split <;> exact hr.congr rfl

theorem Ranged.countTick (h : r.Ranged) (o : Oracle) : (r.countTick o).Ranged := by
  rw [Raft.countTick]
  split
  · dsimp only
    split_ifs
    · refine Ranged.electionTimeout ?_ o
      exact h.congr rfl
    · exact h.congr rfl
  · dsimp only
    split_ifs
    · refine Ranged.electionTimeout ?_ o
      exact h.congr rfl
    · exact h.congr rfl
  · have hseen := h.modifyFollowers (f := fun f => { f with lastSeenTicks :=
      if f.lastSeenTicks ≠ InvalidTicks then f.lastSeenTicks + 1 else f.lastSeenTicks })
      fun _ => rfl
    dsimp only
    split_ifs
    · exact ((hseen.heartbeat _).modifyFollowers (f := fun f => { f with sendHeartbeat := true })
        fun _ => rfl).heartbeat _
    · exact hseen.heartbeat _

theorem Ranged.resetPeer (h : r.Ranged) (id : PeerId) : (r.resetPeer id).Ranged := by
  rw [Raft.resetPeer]
  split_ifs
  · split
    · exact h
    · exact h.congr (book_addSendableMessage _)
    · exact h.modifyFollower id fun _ _ => ⟨Nat.le_add_left _ _, le_rfl⟩
  · exact h

theorem Ranged.handleVoteRequest (h : r.Ranged) (o : Oracle) (t : Nat) (m : VoteRequest Hash)
    (src : PeerId) : (r.handleVoteRequest o t m src).Ranged := by
  rw [Raft.handleVoteRequest]
  dsimp only
  split_ifs
  · exact h
  · refine Ranged.reply ?_ _ _
    exact h.congr rfl
  · exact h.reply _ _

theorem Ranged.handleVoteResponse (h : r.Ranged) (t : Nat) (m : VoteResponse) (src : PeerId) :
    (r.handleVoteResponse t m src).Ranged := by
  rw [Raft.handleVoteResponse]
  split_ifs
  · exact h
  · exact h
  · exact h.congr rfl
  · exact h

/-! ### Rejections -/

variable [Platform Hash]

theorem backOff_le (log : Log Hash) (matchIdx n chunk : Nat) : backOff log matchIdx n chunk ≤ n := by
  induction n generalizing chunk with
  | zero => exact le_rfl
  | succ n ih =>
    rw [backOff]
    dsimp only
    split_ifs
    · exact le_rfl
    · exact le_rfl
    · exact (ih _).trans (Nat.le_succ n)

theorem lt_backOff {log : Log Hash} {matchIdx n : Nat} (h : matchIdx < n) (chunk : Nat) :
    matchIdx < backOff log matchIdx n chunk := by
  induction n generalizing chunk with
  | zero => omega
  | succ n ih =>
    rw [backOff]
    dsimp only
    split_ifs with hstop
    · exact h
    · exact h
    · exact ih (not_le.mp hstop) _

theorem Ranged.handleAppendResponse [DecidableEq Hash] (h : r.Ranged) (t : Nat) {m : AppendResponse Hash}
    (hmatch : m.matchIdx ≤ r.log.lastIdx) (src : PeerId) :
    (r.handleAppendResponse t m src).Ranged := by
  rw [Raft.handleAppendResponse]
  split_ifs
  · exact h
  · exact h
  · show ((r.check _).modifyFollower src _).Ranged
    refine (h.check _).modifyFollower src fun s hs => ?_
    have hlast : ∀ c, (r.check c).log.lastIdx = r.log.lastIdx := fun _ => rfl
    rw [hlast] at hs ⊢
    dsimp only
    omega
  · refine h.modifyFollower src fun s hs => ?_
    obtain ⟨n, hn⟩ : ∃ n, n = max (m.matchIdx + 1) (min (s.nextIdx - 1) (m.lastLogIdx + 1)) :=
      ⟨_, rfl⟩
    have hle := backOff_le r.log m.matchIdx n r.config.replicationChunkBytes
    have hlt : m.matchIdx < backOff r.log m.matchIdx n r.config.replicationChunkBytes :=
      lt_backOff (by omega) _
    dsimp only
    rw [← hn]
    omega
  · exact h

theorem lt_nextIdx_of_rejection [DecidableEq Hash] {m : AppendResponse Hash} {src : PeerId}
    (hrole : r.role = .leader) (hfail : m.success = false) {s : ReplicationState}
    (hs : r.leader.followers.find? src = some s) :
    ∃ s', (r.handleAppendResponse r.currentTerm m src).leader.followers.find? src = some s' ∧
      m.matchIdx < s'.nextIdx := by
  rw [Raft.handleAppendResponse, if_neg (by simp), if_neg (by simp [hrole]),
    if_neg (not_not.mpr (OrdMap.mem_iff.mpr ⟨s, hs⟩)), if_neg (by simp [hfail]),
    Raft.modifyFollower, hs]
  refine ⟨_, (OrdMap.find?_insert ..).trans (if_pos rfl), lt_backOff ?_ _⟩
  exact lt_of_lt_of_le (Nat.lt_succ_self _) (le_max_left _ _)

/-! ### Appending -/

theorem lastIdx_append_le (h : r.Inv S) (e : LogEntry Hash) :
    r.log.lastIdx ≤ (r.log.append e r.lastApplied).1.lastIdx := by
  obtain ⟨log₁, ht, happend⟩ := Log.append_cases h.log_ok
    (h.applied_le.trans h.commit_le_length) e
  rcases happend with ⟨err, -, heq⟩ | ⟨hterm, hhash, bytes, heq⟩
  · rw [heq, ht.ok.lastIdx_eq, h.lastIdx_eq, ht.full]
  · rw [heq, (ht.ok.snoc bytes hterm hhash).lastIdx_eq, h.lastIdx_eq, Log.snoc_full, ht.full,
      List.length_append]
    exact Nat.le_add_right _ _

theorem Ranged.logAppend (hr : r.Ranged) (h : r.Inv S) (e : LogEntry Hash) :
    (r.logAppend e).1.Ranged := by
  have hlog := lastIdx_append_le h e
  rw [Raft.logAppend]
  split
  · exact hr
  · split
    · rename_i log heq
      rw [heq] at hlog
      simp only
      split
      · refine Ranged.handleMembershipChange ?_
        exact (hr.setLog hlog).congr rfl
      · exact hr.setLog hlog
    · rename_i log err _ heq
      rw [heq] at hlog
      exact hr.setLog hlog

theorem Ranged.clientRequestInternal (hr : r.Ranged) (h : r.Inv S) (o : Oracle)
    (e : LogEntry Hash) : (r.clientRequestInternal o e).1.Ranged := by
  rw [Raft.clientRequestInternal]
  split_ifs
  · exact hr
  · exact hr.logAppend h _

theorem Ranged.maybeBecomeLeader (hr : r.Ranged) (h : r.Inv S) (o : Oracle) :
    (r.maybeBecomeLeader o).Ranged := by
  rw [Raft.maybeBecomeLeader]
  split_ifs with hrole
  · exact hr
  · exact hr
  · have hlead : r.lead.Ranged := by
      intro _ p s hs
      rw [find?_lead] at hs
      split_ifs at hs
      cases hs
      exact ⟨Nat.le_add_left _ _, le_rfl⟩
    exact hlead.clientRequestInternal (h.lead (not_not.mp hrole)) o _

theorem Ranged.appendEntries (hr : r.Ranged) (peer : PeerId) : (r.appendEntries peer).Ranged := by
  rw [Raft.appendEntries]
  split_ifs
  · exact hr
  · split
    · exact hr
    · dsimp only
      split_ifs
      · exact hr
      · exact hr
      · exact hr
      · refine Ranged.reply ?_ _ _
        exact hr.modifyFollower peer fun _ hs => hs

theorem Ranged.updateMerkleTree (hr : r.Ranged) : r.updateMerkleTree.Ranged := hr.congr rfl

theorem Ranged.verifyMerkleTree (hr : r.Ranged) (nodesVerify : Bool) :
    (r.verifyMerkleTree nodesVerify).1.Ranged := by
  rw [Raft.verifyMerkleTree]
  split_ifs <;> exact hr.congr rfl

theorem Ranged.advanceVerified (hr : r.Ranged) (o : Oracle) : (r.advanceVerified o).Ranged := by
  have hverify := hr.verifyMerkleTree (o.nodesVerify 1)
  rw [Raft.advanceVerified]
  split
  · rename_i r₁ heq
    rw [heq] at hverify
    exact hverify.maybeAdvanceCommitIndex.updateMerkleTree
  · rename_i r₁ _ _ heq
    rw [heq] at hverify
    exact hverify

theorem Ranged.maybeChangeStateAndSendMessages (hr : r.Ranged) (h : r.Inv S) (o : Oracle) :
    (r.maybeChangeStateAndSendMessages o).Ranged := by
  have hsend : ∀ (ps : List PeerId) (r : Raft Hash), r.Ranged →
      (ps.foldl Raft.appendEntries r).Ranged := by
    intro ps
    induction ps with
    | nil => exact fun r hr => hr
    | cons p ps ih => exact fun r hr => ih _ (hr.appendEntries p)
  have hall := hsend ((r.maybeBecomeLeader o).advanceVerified o).peers _
    ((hr.maybeBecomeLeader h o).advanceVerified o)
  rw [Raft.maybeChangeStateAndSendMessages]
  split_ifs
  · exact hall.tryToRelinquishLeadership o
  · exact hall

/-! ### Calls -/

theorem Ranged.timerTick (hr : r.Ranged) (h : r.Inv S) (o : Oracle) : (r.timerTick o).Ranged :=
  (hr.countTick o).maybeChangeStateAndSendMessages
    (countTick_follows (I := fun _ _ => False) h o (mayCampaign_any _)).inv o

theorem Ranged.logRequest (hr : r.Ranged) (h : r.Inv S) (o : Oracle) (e : LogEntry Hash) :
    (r.logRequest o e).1.Ranged := by
  rw [Raft.logRequest_fst]
  split_ifs with hok
  · exact (hr.clientRequestInternal h o e).maybeChangeStateAndSendMessages
      (checkedRequest_follows (G := Rules.any Hash) (I := fun _ _ => False) h o hok
        fun _ _ => trivial).inv o
  · exact hr

theorem Ranged.relinquishLeadership (hr : r.Ranged) (h : r.Inv S) (o : Oracle) :
    (r.relinquishLeadership o).Ranged := by
  rw [Raft.relinquishLeadership]
  split_ifs
  · exact hr
  · refine Ranged.maybeChangeStateAndSendMessages ?_
      (appendNoopAndRelinquish_follows (G := Rules.any Hash) (I := fun _ _ => False) h o).inv o
    exact (hr.clientRequestInternal h o LogEntry.default).congr rfl

theorem Ranged.finishAppendRequest (hr : r.Ranged) (o : Oracle) (m : AppendRequest Hash)
    (src : PeerId) (n : Nat) : (r.finishAppendRequest o m src n).Ranged := by
  have hverify := hr.verifyMerkleTree (o.nodesVerify 0)
  rw [Raft.finishAppendRequest]
  dsimp only
  split_ifs
  · split
    · rename_i r₁ heq
      rw [heq] at hverify
      exact ((hverify.raiseCommit _).raisePromise _).updateMerkleTree.reply _ _
    · rename_i r₁ _ _ heq
      rw [heq] at hverify
      exact hverify
  · exact hr.reply _ _

theorem Ranged.handleAppendRequest [DecidableEq Hash] (hr : r.Ranged) (h : r.Inv S)
    {I : PeerId → RaftMessage Hash → Prop} (o : Oracle) {t : Nat} {m : AppendRequest Hash}
    {src : PeerId} (hin : I src ⟨S.group, t, .appendRequest m⟩)
    (hprev : m.prevLogIdx ≠ 0 → ∀ e, entryAt r.log.full m.prevLogIdx = some e →
      e.term = m.prevLogTerm → e.hashChain = m.prevLogHashChain) (hvet : Vetted r.log m) :
    (r.handleAppendRequest o t m src).Ranged := by
  rcases handleAppendRequest_cases (G := Rules.any Hash) h o hin hprev hvet with
    heq | ⟨r₁, response, hr₁, -, heq⟩ | ⟨r₁, k, -, -, -, hrole, -, heq⟩
  · rw [heq]
    exact hr
  · rw [heq]
    rcases hr₁ with rfl | rfl
    · exact hr.reply _ _
    · exact (hr.followSender o src).reply _ _
  · rw [heq]
    exact (ranged_of_role (by simp [hrole])).finishAppendRequest o m src _

theorem Ranged.receive [DecidableEq Hash] (hr : r.Ranged) (h : r.Inv S) {I : PeerId → RaftMessage Hash → Prop}
    (o : Oracle) {msg : RaftMessage Hash} {src : PeerId} (hsrc : src ≠ r.me) (hin : I src msg)
    (hpromise : ∀ m, msg.inner = .appendResponse m → m.success = true → m.promiseIdx ≤ m.matchIdx) :
    (r.receive o msg src).Ranged := by
  rcases r.receive_cases o msg src with ⟨hok, heq⟩ | ⟨-, heq⟩ | heq
  · rw [heq]
    refine Ranged.maybeChangeStateAndSendMessages ?_
      (handleMessage_follows h o hsrc hin hpromise hok (mayCampaign_any _)).inv o
    obtain ⟨hgroup, hrequest, hresponse⟩ := validateReceivedMessage_ok h hok
    have hnote := noteMessage_follows (G := Rules.any Hash) (I := I) h o msg src
    have hr₁ := hr.noteMessage o msg src
    rw [← noteMessage_log o msg src] at hrequest hresponse
    obtain ⟨group, t, inner⟩ := msg
    cases hgroup
    rw [Raft.handleMessage]
    cases inner with
    | voteRequest m => exact hr₁.handleVoteRequest o t m src
    | voteResponse m =>
      dsimp only
      split_ifs
      · exact hr₁
      · exact hr₁.handleVoteResponse t m src
    | appendRequest m =>
      obtain ⟨hprev, -, hvet⟩ := hrequest m rfl
      exact hr₁.handleAppendRequest hnote.inv o hin hprev hvet
    | appendResponse m =>
      have hmatch : m.matchIdx ≤ (r.noteMessage o ⟨S.group, t, .appendResponse m⟩ src).log.lastIdx := by
        rw [hnote.inv.lastIdx_eq]
        rcases hresponse m rfl with h0 | ⟨-, hle, -⟩
        · omega
        · exact hle
      dsimp only
      split_ifs
      · exact hr₁
      · exact hr₁.handleAppendResponse t hmatch src
    | timeoutNow b =>
      dsimp only
      split_ifs
      · exact hr₁
      · exact hr₁.electionTimeout o
    | notSet => exact hr₁
  · rw [heq]
    exact hr.check _
  · rw [heq]
    exact hr

theorem ranged_new {group : Nat} {me : PeerId} {mem : Membership} {log : Log Hash}
    {config : RaftConfig} {superMajority : Nat} {o : Oracle}
    (h : (newFollower group me mem log config true superMajority o).Inv S) :
    (new group me mem log config true superMajority o).Ranged := by
  have hr : (newFollower group me mem log config true superMajority o).Ranged :=
    ranged_of_role (by simp [newFollower, updateMerkleTree, checkMerkleHashes, Raft.check])
  simp only [new]
  generalize newFollower group me mem log config true superMajority o = r at h hr
  split_ifs
  · exact ((hr.electionTimeout o).maybeChangeStateAndSendMessages
      (electionTimeout_follows (I := fun _ _ => False) h o (mayCampaign_any _)).inv o).check _
  · exact hr

end Raft

variable [DecidableEq Hash] [Platform Hash] {S : Setting Hash} {s : Sys Hash} {w : World Hash}

/-! ### Runs -/

def Sys.Ranged (s : Sys Hash) : Prop := ∀ p r, r ∈ s.history p → r.Ranged

omit [DecidableEq Hash] [Platform Hash] in
theorem Sys.Ranged.settle (hs : s.Ranged) {p : PeerId} {r : Raft Hash} (hr : r.Ranged) :
    (s.settle p r).Ranged := by
  intro q x hx
  rw [Sys.settle] at hx
  split_ifs at hx
  · exact hs q x hx
  · by_cases hq : q = p
    · subst hq
      simp only [Function.update_self, List.mem_cons] at hx
      rcases hx with rfl | hx
      · exact hr.congr rfl
      · exact hs q x hx
    · simp only [Function.update_of_ne hq] at hx
      exact hs q x hx

omit [DecidableEq Hash] [Platform Hash] in
theorem Sys.Ranged.call (hs : s.Ranged) {p : PeerId} {f : Raft Hash → Raft Hash}
    (hf : ∀ r, s.replicas p = some r → (f r).Ranged) : (s.call p f).Ranged := by
  rw [Sys.call]
  split
  · exact hs
  · rename_i r hr
    exact hs.settle (hf r hr)

theorem Sys.Ranged.apply (hs : s.Ranged) (hsim : Sim S s w)
    (hw : Reachable S (Rules.any Hash) Set.univ w) (e : Event Hash) : (s.apply e).Ranged := by
  have inv : ∀ {p r}, s.replicas p = some r → r.Ranged ∧ r.Inv S ∧ r.me = p := by
    intro p r hr
    have hmem := (hsim.replica p r hr).1
    obtain ⟨hinv, hme, -⟩ := hsim.history p r hmem
    exact ⟨hs p r hmem, hinv, hme⟩
  cases e with
  | timerTick p o => exact hs.call fun r hr => (inv hr).1.timerTick (inv hr).2.1 o
  | logRequest p x o => exact hs.call fun r hr => (inv hr).1.logRequest (inv hr).2.1 o x
  | relinquishLeadership p o =>
    exact hs.call fun r hr => (inv hr).1.relinquishLeadership (inv hr).2.1 o
  | resetPeer p id =>
    simp only [Sys.apply]
    split_ifs
    · exact hs
    · exact hs.call fun r hr => (inv hr).1.resetPeer id
  | reconfigure p config => exact hs.call fun r hr => (inv hr).1.congr rfl
  | takeCommittedLog p => exact hs.call fun r hr => (inv hr).1.takeCommittedLog
  | deliver k o =>
    simp only [Sys.apply]
    cases hpkt : s.net[k]? with
    | none => exact hs
    | some pkt =>
      obtain ⟨hin, hne⟩ := hsim.net pkt (List.mem_of_getElem? hpkt)
      refine hs.call fun r hr => (inv hr).1.receive (inv hr).2.1 o ?_ hin (hw.promiseIdx_le hin)
      rw [(inv hr).2.2]
      exact hne
  | rollback p k =>
    simp only [Sys.apply]
    split <;> exact hs
  | join p q k maxBytes config o =>
    simp only [Sys.apply]
    split_ifs
    · exact hs
    · cases hm : (s.history q)[k]? with
      | none => exact hs
      | some m =>
        apply hs.settle
        obtain ⟨hinv, -⟩ := hsim.history q m (List.mem_of_getElem? hm)
        obtain ⟨hok, -, hbase, hmem⟩ := hinv.copyTo maxBytes
        rw [hinv.group, hinv.super_majority]
        exact Raft.ranged_new (Raft.newFollower_spec p config o hok hbase hmem).1

theorem Sys.Ranged.run (hs : s.Ranged) (hsim : Sim S s w)
    (hw : Reachable S (Rules.any Hash) Set.univ w) (es : List (Event Hash)) : (s.run es).Ranged := by
  induction es generalizing s w with
  | nil => exact hs
  | cons e es ih =>
    obtain ⟨w', hw', -, hsim'⟩ := hsim.apply hw (obeys_all s e)
    exact ih (hs.apply hsim hw e) hsim' hw'

theorem RaftGroup.ranged_run {g : RaftGroup Hash} {es : List (Event Hash)} {p : PeerId}
    {r : Raft Hash} (hr : (g.start.run es).replicas p = some r) : r.Ranged := by
  have hstart : g.start.Ranged := by
    intro q x hx
    have hx : x ∈ (g.start.replicas q).toList := hx
    rw [Option.mem_toList] at hx
    have hx : (if q ∈ g.membership.allReplicas ∧ (g.newReplica q).aborted = false
      then some { g.newReplica q with sendableMessages := [] } else none) = some x := hx
    split_ifs at hx
    cases hx
    exact (Raft.ranged_new (g.newFollower_spec q).1).congr rfl
  obtain ⟨w₀, hw₀, hsim₀⟩ := g.sim_start (R := Set.univ) fun _ _ => Raft.permitted_any _ _
  obtain ⟨w, -, hsim⟩ := g.sim_run es
  exact hstart.run hsim₀ hw₀ es p r (hsim.replica p r hr).1

/-! ### Requests -/

namespace AppendRequest

def hashBefore (m : AppendRequest Hash) (k : Nat) : Option Hash :=
  if k = 0 then m.prevLogHashChain else m.entries[k - 1]?.bind (·.hashChain)

/-- The entries of a request are those of consecutive indexes from `prev_log_idx + 1` on: each
    carries the hash over its index, its content and the hash before it. -/
def Linked (m : AppendRequest Hash) : Prop :=
  ∀ k e, m.entries[k]? = some e → ∃ o : Oracle, e.hashChain =
    some (Platform.hmacSha256 ((m.hashBefore k).getD Platform.zeroHash)
      ⟨m.prevLogIdx + k + 1, e.term, e.inner.payload (o.mapOrder (m.prevLogIdx + k + 1))⟩)

/-- Indexes as the receiver wants them. -/
structure WellFormed (m : AppendRequest Hash) : Prop where
  commit_le : m.leaderCommit ≤ m.leaderPromise
  promise_le : m.leaderPromise ≤ m.prevLogIdx + m.entries.length
  linked : m.Linked

end AppendRequest

omit [DecidableEq Hash] [Platform Hash] in
theorem View.hashBefore_appendRequest (l : View Hash) {prev n k : Nat} {e : LogEntry Hash}
    (he : (l.appendRequest prev n).entries[k]? = some e) :
    (l.appendRequest prev n).hashBefore k = hashAt l.log (prev + k) := by
  cases k with
  | zero => rfl
  | succ k =>
    have hlt := (List.getElem?_eq_some_iff.mp he).1
    have hk : (l.appendRequest prev n).entries[k]? = l.log[prev + k]? := by
      simp only [View.appendRequest, List.length_take, List.length_drop] at hlt ⊢
      rw [List.getElem?_take_of_lt (by omega), List.getElem?_drop]
    rw [AppendRequest.hashBefore, if_neg (Nat.succ_ne_zero k), Nat.add_sub_cancel, hk, hashAt,
      ← Nat.add_assoc, entryAt_succ]

omit [DecidableEq Hash] in
theorem View.wellFormed_appendRequest {l : View Hash} (hl : l.Ok S)
    (hchain : Chained ChainedTo 0 l.log) (prev n : Nat) :
    (l.appendRequest prev n).WellFormed where
  commit_le := min_le_min_right _ hl.commit_le
  promise_le := Nat.min_le_right _ _
  linked := by
    intro k e he
    have hget := Agrees.getElem?_of_entries he
    have hlt := (List.getElem?_eq_some_iff.mp hget).1
    obtain ⟨o, ho⟩ := hchain (prev + k) e (Nat.zero_le _) hget
    rw [lastHash_take hlt.le, List.length_take, Nat.min_eq_left hlt.le] at ho
    rw [View.hashBefore_appendRequest l he]
    exact ⟨o, ho⟩

omit [DecidableEq Hash] in
theorem World.Reachable.chained_of_base (hbase : Chained ChainedTo 0 S.base) {G : Rules Hash}
    {R : Set PeerId} (h : Reachable S G R w) {p : PeerId} {v : View Hash} (hv : v ∈ w.past p) :
    Chained ChainedTo 0 v.log := by
  intro k e _ he
  by_cases hk : S.base.length ≤ k
  · exact h.chained hv k e hk he
  · obtain ⟨D, hD⟩ := (h.view_ok hv).base_start
    rw [← hD, List.getElem?_append_left (not_le.mp hk)] at he
    rw [← hD, List.take_append_of_le_length (not_le.mp hk).le]
    exact hbase k e (Nat.zero_le _) he

omit [Platform Hash] in
theorem Raft.checkLogHash_ne (r : Raft Hash) (i t : Nat) (hash : Option Hash) (allowFuture : Bool) :
    r.checkLogHash i t hash allowFuture ≠ .raftMsgAppendEntryIndex ∧
      r.checkLogHash i t hash allowFuture ≠ .raftMsgLogIndexOrdering := by
  rw [Raft.checkLogHash]
  cases r.log.at? i <;> dsimp only <;> split_ifs <;> simp

omit [Platform Hash] in
theorem Raft.checkEntries_ne (r : Raft Hash) (n : Nat) (es : List (LogEntry Hash)) :
    r.checkEntries n es ≠ .raftMsgAppendEntryIndex ∧
      r.checkEntries n es ≠ .raftMsgLogIndexOrdering := by
  induction es generalizing n with
  | nil => simp [Raft.checkEntries]
  | cons e es ih =>
    rw [Raft.checkEntries]
    split
    · exact ih (n + 1)
    · exact r.checkLogHash_ne _ _ _ _

theorem AppendRequest.WellFormed.validate {m : AppendRequest Hash} (h : m.WellFormed)
    {msg : RaftMessage Hash} (hm : msg.inner = .appendRequest m) (r : Raft Hash) (src : PeerId) :
    r.validateReceivedMessage msg src ≠ .raftMsgAppendEntryIndex ∧
      r.validateReceivedMessage msg src ≠ .raftMsgLogIndexOrdering := by
  have hcommit := h.commit_le.trans h.promise_le
  rw [Raft.validateReceivedMessage, hm]
  split_ifs
  · simp
  · dsimp only
    split
    · rw [if_neg (not_lt.mpr hcommit), if_neg (not_lt.mpr h.promise_le),
        if_neg (not_lt.mpr h.commit_le)]
      exact r.checkEntries_ne _ _
    · exact r.checkLogHash_ne _ _ _ _
  · simp

/-- In every run of a group that starts from a chained log: a leader's indexes for its followers
    are in range, a rejection sets the next one above what the follower reports, and every append
    request is well formed, so that no replica objects to its indexes. -/
theorem appends_well_formed (g : RaftGroup Hash) (hbase : Chained ChainedTo 0 g.log.full)
    (es : List (Event Hash)) :
    (∀ p r, (g.start.run es).replicas p = some r → r.role = .leader →
      ∀ q s, r.leader.followers.find? q = some s →
        (1 ≤ s.nextIdx ∧ s.nextIdx ≤ r.log.lastIdx + 1) ∧
        (s.promiseIdx ≤ s.matchIdx ∧ s.matchIdx ≤ r.log.lastIdx) ∧
        ∀ m : AppendResponse Hash, m.success = false → ∃ s',
          (r.handleAppendResponse r.currentTerm m q).leader.followers.find? q = some s' ∧
          m.matchIdx < s'.nextIdx) ∧
    ∀ pkt ∈ (g.start.run es).net, ∀ m, pkt.message.inner = .appendRequest m →
      m.WellFormed ∧ ∀ (r : Raft Hash) (src : PeerId),
        r.validateReceivedMessage pkt.message src ≠ .raftMsgAppendEntryIndex ∧
        r.validateReceivedMessage pkt.message src ≠ .raftMsgLogIndexOrdering := by
  refine ⟨?_, ?_⟩
  · intro p r hr hrole q s hs
    have hinv := RaftGroup.inv_run hr
    have hack := hinv.acked hrole q s hs
    rw [← hinv.lastIdx_eq] at hack
    exact ⟨RaftGroup.ranged_run hr hrole q s hs, hack,
      fun m hfail => Raft.lt_nextIdx_of_rejection hrole hfail hs⟩
  · intro pkt hpkt m hm
    obtain ⟨w, hw, hsim⟩ := g.sim_run es
    have hin := (hsim.net pkt hpkt).1
    obtain ⟨src, dst, group, t, inner⟩ := pkt
    cases hm
    obtain ⟨l, hl, -, -, prev, n, -, rfl⟩ := hw.requested hin
    have hwell := View.wellFormed_appendRequest (hw.view_ok hl) (hw.chained_of_base hbase hl)
      prev n
    exact ⟨hwell, fun r src => hwell.validate rfl r src⟩

open Sample in
theorem appends_well_formed_demotion :
    ∃ pkt ∈ ((group 0 [1, 2, 3]).start.run demotion).net, ∃ m,
      pkt.message.inner = .appendRequest m ∧ m.entries ≠ [] ∧ m.WellFormed := by
  have h : ((group 0 [1, 2, 3]).start.run demotion).net.any (fun pkt =>
      match pkt.message.inner with
      | .appendRequest m => decide (m.entries ≠ [])
      | _ => false) = true := by
    decide +kernel
  obtain ⟨pkt, hpkt, hentries⟩ := List.any_eq_true.mp h
  split at hentries
  · rename_i m hm
    exact ⟨pkt, hpkt, m, hm, of_decide_eq_true hentries,
      ((appends_well_formed (group 0 [1, 2, 3]) (Chained.of_length_le le_rfl) demotion).2
        pkt hpkt m hm).1⟩
  · cases hentries

end SVR2
