import SVR2.Raft.Calls
import SVR2.Raft.Moves

/-!
# The Merkle leaves of a replica

A replica keeps hashes of its last committed and its last promised entry in a Merkle tree over
enclave memory, and looks at them before it moves either index.  Nothing else touches the leaves,
and entries up to the promised index stay, so the leaves are found as they should be.
-/

namespace SVR2

open Lib

variable {Hash : Type} [Platform Hash]

/-- Nobody tampers with the Merkle tree during the call. -/
def Oracle.Untampered (o : Oracle) : Prop := ∀ i, o.nodesVerify i = true

namespace Raft

variable {S : Setting Hash} {G : Rules Hash} {I : PeerId → RaftMessage Hash → Prop}
variable {r r₁ : Raft Hash}

/-! ### What leaves the leaves alone -/

/-- The indexes that the Merkle tree covers, its leaves and the errors counted. -/
def merkle (r : Raft Hash) : Nat × Nat × MerkleHash × MerkleHash × Nat :=
  (r.commitIdx, r.promiseIdx, r.commitLeaf, r.promiseLeaf, r.merkleErrors)

section Frame

omit [Platform Hash]

@[simp] theorem merkle_addSendableMessage (msg : SendableRaftMessage Hash) :
    (r.addSendableMessage msg).merkle = r.merkle := by
  rw [addSendableMessage]
  split
  · rfl
  · split_ifs <;> rfl

@[simp] theorem merkle_reply (dst : PeerId) (inner : MessageInner Hash) :
    (r.reply dst inner).merkle = r.merkle :=
  merkle_addSendableMessage _

@[simp] theorem merkle_modifyFollower (peer : PeerId) (f : ReplicationState → ReplicationState) :
    (r.modifyFollower peer f).merkle = r.merkle := by
  rw [modifyFollower]
  split <;> rfl

@[simp] theorem merkle_handleMembershipChange : r.handleMembershipChange.merkle = r.merkle := by
  rw [handleMembershipChange]
  split_ifs <;> rfl

@[simp] theorem merkle_maybeChangeUncommittedMemberships :
    r.maybeChangeUncommittedMembershipsBasedOnLog.merkle = r.merkle := by
  simp only [maybeChangeUncommittedMembershipsBasedOnLog]
  split_ifs
  · exact merkle_handleMembershipChange
  · rfl

@[simp] theorem merkle_electionTimeout (o : Oracle) : (r.electionTimeout o).merkle = r.merkle := by
  rw [electionTimeout]
  split_ifs
  · rfl
  · split
    · rfl
    · exact merkle_addSendableMessage _

@[simp] theorem merkle_handleVoteRequest (o : Oracle) (t : Nat) (m : VoteRequest Hash)
    (src : PeerId) : (r.handleVoteRequest o t m src).merkle = r.merkle := by
  simp only [handleVoteRequest]
  split_ifs
  · rfl
  · exact merkle_reply _ _
  · exact merkle_reply _ _

@[simp] theorem merkle_handleVoteResponse (t : Nat) (m : VoteResponse) (src : PeerId) :
    (r.handleVoteResponse t m src).merkle = r.merkle := by
  rw [handleVoteResponse]
  split_ifs <;> rfl

@[simp] theorem merkle_followSender (o : Oracle) (src : PeerId) :
    (r.followSender o src).merkle = r.merkle := by
  rw [followSender]
  split <;> rfl

@[simp] theorem merkle_updateTerm (o : Oracle) (msg : RaftMessage Hash) :
    (r.updateTerm o msg).merkle = r.merkle := by
  simp only [updateTerm]
  split_ifs <;> rfl

@[simp] theorem merkle_noteMessage (o : Oracle) (msg : RaftMessage Hash) (src : PeerId) :
    (r.noteMessage o msg src).merkle = r.merkle := by
  simp only [noteMessage]
  split_ifs <;> simp

@[simp] theorem merkle_tryToRelinquishLeadership (o : Oracle) :
    (r.tryToRelinquishLeadership o).merkle = r.merkle := by
  simp only [tryToRelinquishLeadership]
  split
  · rfl
  · rename_i next _
    exact merkle_reply next (.timeoutNow true)

@[simp] theorem merkle_countTick (o : Oracle) : (r.countTick o).merkle = r.merkle := by
  rw [countTick]
  split
  · simp only
    split_ifs
    · exact merkle_electionTimeout o
    · rfl
  · simp only
    split_ifs
    · exact merkle_electionTimeout o
    · rfl
  · simp only
    split_ifs <;> rfl

@[simp] theorem merkle_resetPeer (id : PeerId) : (r.resetPeer id).merkle = r.merkle := by
  rw [resetPeer]
  split_ifs
  · split
    · rfl
    · exact merkle_addSendableMessage _
    · exact merkle_modifyFollower _ _
  · rfl

end Frame

@[simp] theorem merkle_logAppend (e : LogEntry Hash) : (r.logAppend e).1.merkle = r.merkle := by
  rw [logAppend]
  split
  · rfl
  · split
    · simp only
      split
      · exact merkle_handleMembershipChange
      · rfl
    · rfl

@[simp] theorem merkle_clientRequestInternal (o : Oracle) (e : LogEntry Hash) :
    (r.clientRequestInternal o e).1.merkle = r.merkle := by
  rw [clientRequestInternal]
  split_ifs
  · rfl
  · exact merkle_logAppend _

@[simp] theorem merkle_maybeBecomeLeader (o : Oracle) :
    (r.maybeBecomeLeader o).merkle = r.merkle := by
  rw [maybeBecomeLeader]
  split_ifs
  · rfl
  · rfl
  · exact merkle_clientRequestInternal o _

@[simp] theorem merkle_appendEntries (peer : PeerId) : (r.appendEntries peer).merkle = r.merkle := by
  rw [appendEntries]
  split_ifs
  · rfl
  · split
    · rfl
    · simp only
      split_ifs <;> simp

@[simp] theorem merkle_foldl_appendEntries (ps : List PeerId) :
    (ps.foldl appendEntries r).merkle = r.merkle := by
  induction ps generalizing r with
  | nil => rfl
  | cons p ps ih => rw [List.foldl_cons, ih, merkle_appendEntries]

theorem merkle_processEntries [DecidableEq Hash] (o : Oracle) (es : List (LogEntry Hash)) :
    ∀ (r : Raft Hash) (n : Nat), (processEntries o r n es).1.merkle = r.merkle := by
  induction es with
  | nil => intro r n; rfl
  | cons e es ih =>
    intro r n
    rcases processEntries_cases o r n e es with heq | ⟨r₁, hr₁, heq⟩
    · rw [heq]
    · have h₁ : r₁.merkle = r.merkle := by
        rcases hr₁ with rfl | ⟨-, log, -, rfl⟩
        · rfl
        · exact merkle_maybeChangeUncommittedMemberships
      have happend := merkle_logAppend (r := r₁) e
      rw [heq, processAppend]
      split_ifs
      · exact h₁
      · split <;> simp_all
      · rw [ih, h₁]

/-! ### Leaves that are as they should be -/

def leafOf : Option (LogEntry Hash) → MerkleHash
  | none => 0
  | some e => match e.hashChain with
    | none => 0
    | some h => Platform.merklePrefix h

/-- No error was counted, and the leaves are over the last committed and the last promised
    entry. -/
structure Sealed (r : Raft Hash) : Prop where
  errors : r.merkleErrors = 0
  commit : r.commitLeaf = leafOf (entryAt r.log.full r.commitIdx)
  promise : r.promiseLeaf = leafOf (entryAt r.log.full r.promiseIdx)

theorem merkleHashAt_eq (h : r.Inv S) {i : Nat} (hi : r.lastApplied ≤ i) :
    r.merkleHashAt i = leafOf (entryAt r.log.full i) := by
  rw [← h.at?_eq hi]
  rfl

theorem Sealed.verifyMerkleTree_eq (hs : r.Sealed) (h : r.Inv S) :
    r.verifyMerkleTree true = (r, .ok) := by
  simp only [verifyMerkleTree, checkMerkleHashes_eq h, merkleHashAt_eq h h.applied_le,
    merkleHashAt_eq h (h.applied_le.trans h.commit_le), ← hs.commit, ← hs.promise]
  simp

theorem sealed_updateMerkleTree (h : r.Inv S) (herrors : r.merkleErrors = 0) :
    r.updateMerkleTree.Sealed := by
  rw [updateMerkleTree_eq h]
  exact ⟨herrors, merkleHashAt_eq h h.applied_le, merkleHashAt_eq h (h.applied_le.trans h.commit_le)⟩

theorem Follows.leads (h : Follows S G I r r₁) : Leads S G r.view r₁.view := by
  refine h.moves.lift Prod.fst ?_
  rintro a b ⟨out, hmove, -⟩
  exact ⟨I, out, hmove⟩

/-- Promised entries stay, so leaves over them stay right. -/
theorem Sealed.of_follows (hs : r.Sealed) (h : r.Inv S) (hf : Follows S G I r r₁)
    (hm : r₁.merkle = r.merkle) : r₁.Sealed := by
  simp only [merkle, Prod.mk.injEq] at hm
  obtain ⟨hcommit, hpromise, hcommitLeaf, hpromiseLeaf, herrors⟩ := hm
  have hsame : r₁.log.full.take r.promiseIdx = r.log.full.take r.promiseIdx := by
    have hpre : r.log.full.take r.promiseIdx <+: r₁.log.full.take r₁.promiseIdx :=
      hf.leads.promised_mono.2
    rw [hpromise] at hpre
    refine (hpre.eq_of_length ?_).symm
    have hle := hf.inv.promise_le
    have hle' := h.promise_le
    rw [List.length_take, List.length_take]
    omega
  refine ⟨herrors.trans hs.errors, ?_, ?_⟩
  · rw [hcommitLeaf, hs.commit, hcommit, entryAt_congr hsame h.commit_le]
  · rw [hpromiseLeaf, hs.promise, hpromise, entryAt_congr hsame (le_refl _)]

/-! ### Calls keep the leaves -/

theorem Sealed.congr (hs : r.Sealed) (hm : r₁.merkle = r.merkle) (hlog : r₁.log = r.log) :
    r₁.Sealed := by
  simp only [merkle, Prod.mk.injEq] at hm
  obtain ⟨hcommit, hpromise, hcommitLeaf, hpromiseLeaf, herrors⟩ := hm
  exact ⟨herrors.trans hs.errors, by rw [hcommitLeaf, hs.commit, hlog, hcommit],
    by rw [hpromiseLeaf, hs.promise, hlog, hpromise]⟩

theorem Sealed.check (hs : r.Sealed) (c : Bool) : (r.check c).Sealed := hs.congr rfl rfl

theorem Sealed.reply (hs : r.Sealed) (dst : PeerId) (inner : MessageInner Hash) :
    (r.reply dst inner).Sealed :=
  hs.congr (merkle_reply dst inner) rfl

omit [Platform Hash] in
theorem merkleErrors_raise (x y : Nat) :
    ((r.raisePromise x).raiseCommit y).merkleErrors = r.merkleErrors := by
  have hpromise : (r.raisePromise x).merkleErrors = r.merkleErrors := by
    rw [raisePromise]
    split_ifs <;> rfl
  rw [raiseCommit, ← hpromise]
  split_ifs
  · exact congrArg (fun m => m.2.2.2.2) (merkle_maybeChangeUncommittedMemberships (r := _))
  · rfl

theorem Sealed.advanceVerified (hs : r.Sealed) (h : r.Inv S) {o : Oracle} (ho : o.Untampered) :
    (r.advanceVerified o).Sealed := by
  have hadvance := maybeAdvanceCommitIndex_follows (I := fun _ _ => False) h (mayAdvance_any r)
  rw [Raft.advanceVerified, ho, hs.verifyMerkleTree_eq h]
  apply sealed_updateMerkleTree hadvance.inv
  rw [← hs.errors]
  by_cases hrole : r.role = .leader
  · obtain ⟨x, y, -, -, -, -, -, heq | heq⟩ := maybeAdvanceCommitIndex_cases h hrole
    · rw [heq, merkleErrors_raise]
    · rw [heq]
      exact merkleErrors_raise x y
  · rw [maybeAdvanceCommitIndex, if_pos hrole]

theorem Sealed.maybeChangeStateAndSendMessages (hs : r.Sealed) (h : r.Inv S) {o : Oracle}
    (ho : o.Untampered) : (r.maybeChangeStateAndSendMessages o).Sealed := by
  have hlead := maybeBecomeLeader_follows (G := Rules.any Hash) (I := fun _ _ => False) h o
  have hadvance := advanceVerified_follows (I := fun _ _ => False) hlead.inv o (mayAdvance_any _)
  have hsend := foldl_appendEntries_follows (G := Rules.any Hash) (I := fun _ _ => False)
    hadvance.inv ((r.maybeBecomeLeader o).advanceVerified o).peers
    (fun p hp => by simpa using (List.mem_filter.mp hp).2)
  have hs₁ := (hs.of_follows h hlead (merkle_maybeBecomeLeader o)).advanceVerified hlead.inv ho
  have hs₂ := hs₁.of_follows hadvance.inv hsend (merkle_foldl_appendEntries _)
  simp only [Raft.maybeChangeStateAndSendMessages]
  split_ifs
  · exact hs₂.of_follows hsend.inv (tryToRelinquishLeadership_follows (G := Rules.any Hash)
      (I := fun _ _ => False) hsend.inv o) (merkle_tryToRelinquishLeadership o)
  · exact hs₂

/-- A call that leaves the leaves alone until it calls `MaybeChangeStateAndSendMessages`. -/
theorem Sealed.call (hs : r.Sealed) (h : r.Inv S) {o : Oracle} (ho : o.Untampered)
    (hf : Follows S G I r r₁) (hm : r₁.merkle = r.merkle) :
    (r₁.maybeChangeStateAndSendMessages o).Sealed :=
  (hs.of_follows h hf hm).maybeChangeStateAndSendMessages hf.inv ho

theorem Sealed.timerTick (hs : r.Sealed) (h : r.Inv S) {o : Oracle} (ho : o.Untampered) :
    (r.timerTick o).Sealed :=
  hs.call h ho (countTick_follows (I := fun _ _ => False) h o (mayCampaign_any _))
    (merkle_countTick o)

theorem Sealed.logRequest (hs : r.Sealed) (h : r.Inv S) {o : Oracle} (ho : o.Untampered)
    (e : LogEntry Hash) : (r.logRequest o e).1.Sealed := by
  rw [Raft.logRequest_fst]
  split_ifs with hok
  · have hrequest := checkedRequest_follows (G := Rules.any Hash) (I := fun _ _ => False) h o hok
      fun _ _ => trivial
    exact hs.call h ho hrequest (merkle_clientRequestInternal o e)
  · exact hs

theorem Sealed.relinquishLeadership (hs : r.Sealed) (h : r.Inv S) {o : Oracle}
    (ho : o.Untampered) : (r.relinquishLeadership o).Sealed := by
  rw [Raft.relinquishLeadership]
  split_ifs
  · exact hs
  · have hmark := appendNoopAndRelinquish_follows (G := Rules.any Hash) (I := fun _ _ => False) h o
    exact hs.call h ho hmark (merkle_clientRequestInternal o LogEntry.default)

theorem Sealed.resetPeer (hs : r.Sealed) (h : r.Inv S) {id : PeerId} (hid : id ≠ r.me) :
    (r.resetPeer id).Sealed :=
  hs.of_follows h (resetPeer_follows (G := Rules.any Hash) (I := fun _ _ => False) h hid)
    (merkle_resetPeer id)

theorem Sealed.takeCommittedLog (hs : r.Sealed) : r.takeCommittedLog.1.Sealed := by
  rw [Raft.takeCommittedLog]
  split_ifs
  · exact hs
  · simp only
    split
    · exact hs.congr rfl rfl
    · exact hs.congr rfl rfl

section Receive

variable [DecidableEq Hash] {src : PeerId} {m : AppendRequest Hash} {k : Nat}

omit [DecidableEq Hash] in
theorem Sealed.finishAppendRequest (hs : r.Sealed) (h : r.Inv S) {o : Oracle} (ho : o.Untampered)
    (hrole : r.role = .follower) (hin : I src ⟨S.group, r.currentTerm, .appendRequest m⟩)
    (hagree : Agrees r.log.full m k) (hle : m.leaderCommit ≤ m.leaderPromise) :
    (r.finishAppendRequest o m src (m.prevLogIdx + k)).Sealed := by
  rw [Raft.finishAppendRequest]
  split_ifs
  · rw [ho, hs.verifyMerkleTree_eq h]
    have hlearn := learn_follows (G := Rules.any Hash) h hrole hin hagree hle
    have hlen := hagree.length_le
    refine (sealed_updateMerkleTree hlearn.inv ?_).reply _ _
    rw [raiseCommit_raisePromise h ((Nat.min_le_right _ _).trans hlen)
      ((Nat.min_le_right _ _).trans hlen), merkleErrors_raise]
    exact hs.errors
  · exact hs.reply _ _

theorem Sealed.handleAppendRequest (hs : r.Sealed) (h : r.Inv S) {o : Oracle} (ho : o.Untampered)
    {t : Nat} (hin : I src ⟨S.group, t, .appendRequest m⟩)
    (hprev : m.prevLogIdx ≠ 0 → ∀ e, entryAt r.log.full m.prevLogIdx = some e →
      e.term = m.prevLogTerm → e.hashChain = m.prevLogHashChain)
    (hle : m.leaderCommit ≤ m.leaderPromise) (hvet : Vetted r.log m) :
    (r.handleAppendRequest o t m src).Sealed := by
  have hfollow := followSender_follows (G := Rules.any Hash) (I := I) h o src
  rcases handleAppendRequest_cases (G := Rules.any Hash) h o hin hprev hvet with
    heq | ⟨r₁, response, hr₁, -, heq⟩ | ⟨r₁, k, hr₁, hfollows, rfl, hrole, hagree, heq⟩
  · rw [heq]
    exact hs
  · rw [heq]
    rcases hr₁ with rfl | rfl
    · exact hs.reply _ _
    · exact (hs.of_follows h hfollow (merkle_followSender o src)).reply _ _
  · rw [heq]
    have hm : r₁.merkle = r.merkle := by
      rw [hr₁, merkle_processEntries, merkle_followSender]
    exact (hs.of_follows h hfollows hm).finishAppendRequest hfollows.inv ho hrole hin hagree hle

@[simp] theorem merkle_handleAppendResponse (t : Nat) (m : AppendResponse Hash)
    (src : PeerId) : (r.handleAppendResponse t m src).merkle = r.merkle := by
  rw [handleAppendResponse]
  split_ifs
  · rfl
  · rfl
  · exact merkle_modifyFollower _ _
  · exact merkle_modifyFollower _ _
  · rfl

theorem Sealed.receive (hs : r.Sealed) (h : r.Inv S) {o : Oracle} (ho : o.Untampered)
    {msg : RaftMessage Hash} (hsrc : src ≠ r.me) (hin : I src msg)
    (hpromise : ∀ m, msg.inner = .appendResponse m → m.success = true → m.promiseIdx ≤ m.matchIdx) :
    (r.receive o msg src).Sealed := by
  rw [Raft.receive]
  split
  · rename_i hok
    have hhandle := handleMessage_follows h o hsrc hin hpromise hok (mayCampaign_any _)
    refine Sealed.maybeChangeStateAndSendMessages ?_ hhandle.inv ho
    obtain ⟨hgroup, hrequest, -⟩ := validateReceivedMessage_ok h hok
    have hnote := noteMessage_follows (G := Rules.any Hash) (I := I) h o msg src
    have hs₁ := hs.of_follows h hnote (merkle_noteMessage o msg src)
    have frame : (r.handleMessage o msg src).merkle = r.merkle →
        (r.handleMessage o msg src).Sealed := hs.of_follows h hhandle
    rw [← noteMessage_log o msg src] at hrequest
    obtain ⟨group, t, inner⟩ := msg
    cases hgroup
    cases inner with
    | appendRequest m =>
      obtain ⟨hprev, hle, hvet⟩ := hrequest m rfl
      exact hs₁.handleAppendRequest hnote.inv ho hin hprev hle hvet
    | _ =>
      apply frame
      simp only [Raft.handleMessage]
      try split_ifs
      all_goals simp
  · exact hs.check _
  · exact hs

end Receive

theorem sealed_newFollower {group : Nat} {me : PeerId} {mem : Membership} {log : Log Hash}
    {config : RaftConfig} {superMajority : Nat} {o : Oracle}
    (h : (newFollower group me mem log config true superMajority o).Inv S) :
    (newFollower group me mem log config true superMajority o).Sealed :=
  ⟨rfl, merkleHashAt_eq h h.applied_le, merkleHashAt_eq h (h.applied_le.trans h.commit_le)⟩

theorem sealed_new {group : Nat} {me : PeerId} {mem : Membership} {log : Log Hash}
    {config : RaftConfig} {superMajority : Nat} {o : Oracle}
    (h : (newFollower group me mem log config true superMajority o).Inv S) (ho : o.Untampered) :
    (new group me mem log config true superMajority o).Sealed := by
  have hs := sealed_newFollower h
  simp only [new]
  generalize newFollower group me mem log config true superMajority o = r at h hs
  split_ifs
  · have htimeout := electionTimeout_follows (I := fun _ _ => False) h o (mayCampaign_any _)
    exact (hs.call h ho htimeout (merkle_electionTimeout o)).check _
  · exact hs

end Raft

end SVR2
