import SVR2.Core.Moves
import SVR2.Core.Replies

/-!
# Raft messages are sent before the handling of a message returns

`RaftStep` sends what Raft has to send.  Most calls of Raft are followed by it.  Those that are not
(a peer connects, a request to log is refused, the configuration changes) may leave messages behind
only where they make any, and the theorem says when that is.
-/

namespace SVR2

open Lib

variable {Hash : Type} [Platform Hash]

namespace Raft

variable (r : Raft Hash) (o : Oracle)

/-- A candidate that does not have the votes of a quorum. -/
structure Unelected (r : Raft Hash) : Prop where
  votes : r.role = .candidate → r.candidate.votesGranted.card < r.membershipQuorumSize

/-! ### What keeps the role -/

omit [Platform Hash] in
theorem role_handleMembershipChange : r.handleMembershipChange.role = r.role := by
  rw [handleMembershipChange]
  split_ifs <;> rfl

omit [Platform Hash] in
theorem role_maybeChangeUncommittedMemberships :
    r.maybeChangeUncommittedMembershipsBasedOnLog.role = r.role := by
  rw [maybeChangeUncommittedMembershipsBasedOnLog]
  split_ifs
  · exact role_handleMembershipChange _
  · rfl

theorem role_logAppend (e : LogEntry Hash) : (r.logAppend e).1.role = r.role := by
  rw [logAppend]
  dsimp only
  split
  · rfl
  · split
    · dsimp only
      split
      · exact role_handleMembershipChange _
      · rfl
    · rfl

theorem role_clientRequestInternal (e : LogEntry Hash) :
    (r.clientRequestInternal o e).1.role = r.role := by
  rw [clientRequestInternal]
  dsimp only
  split_ifs
  · rfl
  · exact role_logAppend _ _

omit [Platform Hash] in
theorem role_maybeAdvanceCommitIndex : r.maybeAdvanceCommitIndex.role = r.role := by
  have hpromise : ∀ (r : Raft Hash) n, (r.raisePromise n).role = r.role := by
    intro r n
    rw [raisePromise]
    split_ifs <;> rfl
  have hcommit : ∀ (r : Raft Hash) n, (r.raiseCommit n).role = r.role := by
    intro r n
    rw [raiseCommit]
    split_ifs
    · exact role_maybeChangeUncommittedMemberships _
    · rfl
  rw [maybeAdvanceCommitIndex]
  split_ifs
  · rfl
  · dsimp only
    split
    · rfl
    · split
      · exact hpromise _ _
      · split_ifs
        · exact (hcommit _ _).trans (hpromise _ _)
        · exact (hcommit _ _).trans (hpromise _ _)

theorem role_advanceVerified : (r.advanceVerified o).role = r.role := by
  have hverify : (r.verifyMerkleTree (o.nodesVerify 1)).1.role = r.role := by
    rw [verifyMerkleTree]
    split_ifs <;> rfl
  rw [advanceVerified]
  split
  · rename_i r' heq
    rw [heq] at hverify
    exact (role_maybeAdvanceCommitIndex r').trans hverify
  · rename_i r' err _ heq
    rw [heq] at hverify
    exact hverify

theorem role_appendEntries (peer : PeerId) : (r.appendEntries peer).role = r.role := by
  have hmodify : ∀ f, (r.modifyFollower peer f).role = r.role := by
    intro f
    rw [modifyFollower]
    split <;> rfl
  rw [appendEntries]
  split_ifs
  · rfl
  · split
    · rfl
    · dsimp only
      split_ifs
      · rfl
      · rfl
      · rfl
      · exact hmodify _

theorem role_foldl_appendEntries (peers : List PeerId) :
    (peers.foldl appendEntries r).role = r.role := by
  induction peers generalizing r with
  | nil => rfl
  | cons peer peers ih => exact (ih _).trans (r.role_appendEntries peer)

/-! ### A replica that does not lead has nothing to send -/

theorem foldl_appendEntries_eq_self (hrole : r.role ≠ .leader) (peers : List PeerId) :
    peers.foldl appendEntries r = r := by
  induction peers with
  | nil => rfl
  | cons peer peers ih => rw [List.foldl_cons, appendEntries, if_pos hrole, ih]

/-- A replica that does not lead and is not elected only looks at its Merkle tree. -/
theorem maybeChangeStateAndSendMessages_eq (h : r.Unelected) (hrole : r.role ≠ .leader) :
    r.maybeChangeStateAndSendMessages o = r.advanceVerified o := by
  have hbecome : r.maybeBecomeLeader o = r := by
    rw [maybeBecomeLeader]
    split_ifs with hcandidate hvotes
    · rfl
    · rfl
    · exact absurd (h.votes (not_not.mp hcandidate)) hvotes
  have hrole' : (r.advanceVerified o).role ≠ .leader := by
    rw [role_advanceVerified]
    exact hrole
  rw [maybeChangeStateAndSendMessages, hbecome]
  rw [foldl_appendEntries_eq_self _ hrole', if_neg (fun h => hrole' h.1)]

theorem advanceVerified_of_not_leader (hrole : r.role ≠ .leader) :
    (r.advanceVerified o).sendableMessages = r.sendableMessages ∧
      (r.Unelected → (r.advanceVerified o).Unelected) := by
  have hverify : (r.verifyMerkleTree (o.nodesVerify 1)).1.sendableMessages = r.sendableMessages ∧
      (r.Unelected → (r.verifyMerkleTree (o.nodesVerify 1)).1.Unelected) ∧
      (r.verifyMerkleTree (o.nodesVerify 1)).1.role = r.role := by
    rw [verifyMerkleTree]
    split_ifs <;> exact ⟨rfl, fun h => ⟨h.votes⟩, rfl⟩
  rw [advanceVerified]
  split
  · rename_i r' heq
    rw [heq] at hverify
    obtain ⟨hsendable, hunelected, hrole'⟩ := hverify
    have hadvance : r'.maybeAdvanceCommitIndex = r' := by
      rw [maybeAdvanceCommitIndex, if_pos (by rw [hrole']; exact hrole)]
    rw [hadvance]
    exact ⟨hsendable, fun h => ⟨(hunelected h).votes⟩⟩
  · rename_i r' err _ heq
    rw [heq] at hverify
    exact ⟨hverify.1, hverify.2.1⟩

theorem unelected_maybeChangeStateAndSendMessages :
    (r.maybeChangeStateAndSendMessages o).Unelected := by
  by_cases hunelected : r.Unelected ∧ r.role ≠ .leader
  · rw [r.maybeChangeStateAndSendMessages_eq o hunelected.1 hunelected.2]
    exact (r.advanceVerified_of_not_leader o hunelected.2).2 hunelected.1
  · have hleader : (r.maybeBecomeLeader o).role = .leader := by
      rw [maybeBecomeLeader]
      split_ifs with hcandidate hvotes
      · by_contra hrole
        exact hunelected ⟨⟨fun hc => absurd hc hcandidate⟩, hrole⟩
      · have hrole : r.role = .candidate := not_not.mp hcandidate
        exact absurd ⟨⟨fun _ => hvotes⟩, by rw [hrole]; decide⟩ hunelected
      · exact role_clientRequestInternal _ _ _
    refine ⟨fun hcandidate => ?_⟩
    rw [maybeChangeStateAndSendMessages] at hcandidate
    split_ifs at hcandidate with hrelinquish
    · rw [tryToRelinquishLeadership] at hcandidate
      dsimp only at hcandidate
      split at hcandidate
      · rw [hrelinquish.1] at hcandidate
        cases hcandidate
      · cases hcandidate
    · rw [role_foldl_appendEntries, role_advanceVerified, hleader] at hcandidate
      cases hcandidate

omit [Platform Hash] in
theorem unelected_check (h : r.Unelected) (b : Bool) : (r.check b).Unelected := ⟨h.votes⟩

theorem unelected_logRequest (h : r.Unelected) (e : LogEntry Hash) :
    (r.logRequest o e).1.Unelected := by
  rw [logRequest_fst]
  split_ifs
  · exact unelected_maybeChangeStateAndSendMessages _ o
  · exact h

omit [Platform Hash] in
theorem unelected_resetPeer (h : r.Unelected) (id : PeerId) : (r.resetPeer id).Unelected := by
  rw [resetPeer]
  split_ifs
  · split
    · exact h
    · exact ⟨h.votes⟩
    · rw [modifyFollower]
      split <;> exact ⟨h.votes⟩
  · exact h

theorem unelected_new (group : Nat) (me : PeerId) (mem : Membership) (log : Log Hash)
    (config : RaftConfig) (committedLog : Bool) (superMajority : Nat) :
    (new group me mem log config committedLog superMajority o).Unelected := by
  rw [new]
  dsimp only
  split_ifs
  · exact unelected_check _ (unelected_maybeChangeStateAndSendMessages _ o) _
  · exact ⟨by rintro ⟨⟩⟩

omit [Platform Hash] in
theorem sendable_of_check (h : (r.check (r.sendableMessages = [])).aborted = false) :
    (r.check (r.sendableMessages = [])).sendableMessages = [] := by
  rw [check, Bool.or_eq_false_iff] at h
  exact of_decide_eq_true (Bool.not_eq_eq_eq_not.mp h.2)

theorem sendable_new (group : Nat) (me : PeerId) (mem : Membership) (log : Log Hash)
    (config : RaftConfig) (committedLog : Bool) (superMajority : Nat)
    (halive : (new group me mem log config committedLog superMajority o).aborted = false) :
    (new group me mem log config committedLog superMajority o).sendableMessages = [] := by
  rw [new] at halive ⊢
  dsimp only at halive ⊢
  split_ifs at halive ⊢
  · exact sendable_of_check _ halive
  · rfl

/-- What `LogRequest` needs of a leader once its checks have passed: it is not relinquishing, and the
    log has room for the entry, which is no larger than a protobuf may be. -/
structure Accepts (r : Raft Hash) (o : Oracle) (e : LogEntry Hash) : Prop where
  relinquishing : r.leader.relinquishing = false
  term : r.currentTerm ≠ 0
  room : r.log.HasRoom (logentryBytesInLog (r.stamped o e)) r.lastApplied
  size : Platform.byteSizeLong (r.stamped o e) ≤ INT_MAX

instance (r : Raft Hash) (o : Oracle) (e : LogEntry Hash) : Decidable (r.Accepts o e) :=
  decidable_of_iff (r.leader.relinquishing = false ∧ r.currentTerm ≠ 0 ∧
      r.log.HasRoom (logentryBytesInLog (r.stamped o e)) r.lastApplied ∧
      Platform.byteSizeLong (r.stamped o e) ≤ INT_MAX)
    ⟨fun h => ⟨h.1, h.2.1, h.2.2.1, h.2.2.2⟩, fun h => ⟨h.relinquishing, h.term, h.room, h.size⟩⟩

omit [Platform Hash] in
theorem fromProto_of_checkLogRequest {e : LogEntry Hash} {g : ReplicaGroup}
    (hcheck : r.checkLogRequest e = .ok) (hinner : e.inner = .membershipChange g) :
    ∃ m, Membership.fromProto g = .ok m := by
  rw [checkLogRequest, hinner] at hcheck
  dsimp only at hcheck
  cases hproto : Membership.fromProto g with
  | ok m => exact ⟨m, rfl⟩
  | error err =>
    rw [hproto] at hcheck
    split_ifs at hcheck
    exact absurd hcheck (Membership.fromReplicas_error hproto)

theorem logAppend_err {e : LogEntry Hash}
    (hproto : ∀ g, e.inner = .membershipChange g → ∃ m, Membership.fromProto g = .ok m) :
    (r.logAppend e).2.2 = (r.log.append e r.lastApplied).2 := by
  rw [logAppend]
  dsimp only
  split
  · rename_i err herr
    cases hinner : e.inner with
    | membershipChange g =>
      obtain ⟨m, hm⟩ := hproto g hinner
      simp [hinner, hm, Except.map] at herr
    | _ => simp [hinner] at herr
  · split
    · rename_i happend
      rw [happend]
    · rename_i happend
      rw [happend]

/-- A request that passes the checks of a leader succeeds exactly if the leader accepts it. -/
theorem logRequest_eq_ok {e : LogEntry Hash} (hrole : r.role = .leader)
    (hcheck : r.checkLogRequest e = .ok) : (r.logRequest o e).2.2 = .ok ↔ r.Accepts o e := by
  rw [logRequest, hcheck]
  change (r.clientRequestInternal o e).2.2 = .ok ↔ _
  rw [clientRequestInternal]
  dsimp only
  split_ifs with hrefuse
  · refine iff_of_false (by rintro ⟨⟩) fun h => ?_
    exact hrefuse.elim (· hrole) fun hrel => absurd (h.relinquishing.symm.trans hrel) Bool.false_ne_true
  · rw [not_or, Bool.not_eq_true] at hrefuse
    have hproto : ∀ g, (r.stamped o e).inner = .membershipChange g →
        ∃ m, Membership.fromProto g = .ok m := fun _ => r.fromProto_of_checkLogRequest hcheck
    change (r.logAppend (r.stamped o e)).2.2 = .ok ↔ _
    rw [r.logAppend_err hproto, Log.append_snd_eq_ok]
    exact ⟨fun h => ⟨hrefuse.2, h.1, h.2.2.1, h.2.2.2⟩,
      fun h => ⟨h.term, by rintro ⟨⟩, h.room, h.size⟩⟩

theorem sendable_logRequest_refused (h : r.Unelected) (e : LogEntry Hash)
    (hrefused : (r.logRequest o e).2.2 ≠ .ok)
    (hstray : r.role = .leader → r.checkLogRequest e = .ok → r.Accepts o e) :
    (r.logRequest o e).1.sendableMessages = r.sendableMessages := by
  have hrole : r.checkLogRequest e = .ok → r.role ≠ .leader := fun hcheck hrole =>
    hrefused ((r.logRequest_eq_ok o hrole hcheck).mpr (hstray hrole hcheck))
  rw [logRequest]
  split
  · rename_i hcheck
    have hrole := hrole hcheck
    have hinternal : (r.clientRequestInternal o e).1 = r := by
      rw [clientRequestInternal]
      dsimp only
      rw [if_pos (.inl hrole)]
    change ((r.clientRequestInternal o e).1.maybeChangeStateAndSendMessages o).sendableMessages = _
    rw [hinternal, r.maybeChangeStateAndSendMessages_eq o h hrole]
    exact (r.advanceVerified_of_not_leader o hrole).1
  · rfl

end Raft

variable [DecidableEq Hash]

/-- No call of a replica takes votes from it and leaves it a candidate that should lead. -/
theorem RaftCall.unelected_after (call : RaftCall Hash) (h : call.before.Unelected) :
    call.after.Unelected := by
  cases call with
  | timerTick r o => exact Raft.unelected_maybeChangeStateAndSendMessages _ o
  | logRequest r o e => exact Raft.unelected_logRequest r o h e
  | relinquishLeadership r o =>
    rw [after, Raft.relinquishLeadership]
    split_ifs
    · exact h
    · exact Raft.unelected_maybeChangeStateAndSendMessages _ o
  | receive r o msg src =>
    rw [after, Raft.receive]
    split
    · exact Raft.unelected_maybeChangeStateAndSendMessages _ o
    · exact ⟨h.votes⟩
    · exact h
  | resetPeer r id => exact Raft.unelected_resetPeer r h id
  | reconfigure r config => exact ⟨h.votes⟩
  | takeCommittedLog r =>
    rw [after, Raft.takeCommittedLog]
    split_ifs
    · exact h
    · dsimp only
      split <;> exact ⟨h.votes⟩

variable {DB : Type} [Database DB] {o : CoreOracle} {m : UntrustedMessage Hash DB}

/-- What is called without `RaftStep` after it leaves no messages: a peer of the group does not
    connect to a candidate, and a leader accepts the requests that pass its checks. -/
def RaftCall.LeavesNothing : RaftCall Hash → Prop
  | .resetPeer r id => r.role = .candidate → id ∉ r.membership.allReplicas
  | .logRequest r o e =>
    r.role = .leader → r.checkLogRequest e = .ok → r.Accepts o e
  | _ => True

instance : ∀ call : RaftCall Hash, Decidable call.LeavesNothing
  | .resetPeer r _ => inferInstanceAs (Decidable (r.role = .candidate → _))
  | .logRequest r _ e => inferInstanceAs (Decidable (r.role = .leader → r.checkLogRequest e = .ok → _))
  | .timerTick .. | .relinquishLeadership .. | .receive .. | .reconfigure ..
  | .takeCommittedLog .. => inferInstanceAs (Decidable True)

namespace Core

def Drained (c : Core Hash DB) : Prop :=
  ∀ r, c.raft.loaded.raft = some r → r.sendableMessages = []

/-- The loaded replica is not a candidate with the votes of a quorum. -/
def Unelected (c : Core Hash DB) : Prop := ∀ r, c.raft.loaded.raft = some r → r.Unelected

/-- If no check has failed, and none of the calls made has left messages, then there are none to
    send. -/
structure Ends (c : Core Hash DB) : Prop where
  drained : c.aborted = false → (∀ call ∈ c.calls, call.LeavesNothing) → c.Drained

end Core

omit [DecidableEq Hash] in
theorem Sends.ends {P : PeerId → E2EMessage Hash → Prop} {c c' : Core Hash DB} (h : Sends P c c')
    (hc : c.Ends) : c'.Ends := by
  refine ⟨fun halive hcalls r hr => ?_⟩
  rw [h.calls] at hcalls
  rw [h.raft] at hr
  refine hc.drained ?_ hcalls r hr
  cases haborted : c.aborted with
  | false => rfl
  | true => exact (h.aborted haborted).symm.trans halive

namespace Core

variable (c : Core Hash DB)

/-! ### Steps of Raft -/

omit [Platform Hash] [DecidableEq Hash] in
theorem drained_of_none {c : Core Hash DB} (h : c.raft.loaded.raft = none) : c.Drained :=
  fun _ hr => nomatch h.symm.trans hr

omit [Platform Hash] [DecidableEq Hash] in
theorem unelected_of_none {c : Core Hash DB} (h : c.raft.loaded.raft = none) : c.Unelected :=
  fun _ hr => nomatch h.symm.trans hr

omit [DecidableEq Hash] in
theorem Drained.ends {c : Core Hash DB} (h : c.Drained) : c.Ends := ⟨fun _ _ => h⟩

omit [Platform Hash] [DecidableEq Hash] in
theorem Drained.of_eq {c c' : Core Hash DB} (h : c.Drained)
    (heq : c'.raft.loaded.raft = c.raft.loaded.raft) : c'.Drained :=
  fun r hr => h r (heq ▸ hr)

omit [DecidableEq Hash] in
theorem Drained.ends_of_eq {c c' : Core Hash DB} (h : c.Drained)
    (heq : c'.raft.loaded.raft = c.raft.loaded.raft) : c'.Ends :=
  (h.of_eq heq).ends

omit [Platform Hash] in
theorem drained_raftHandleCommittedLogsLoop (n : Nat) (hc : c.Drained) :
    (raftHandleCommittedLogsLoop o n c).Drained := by
  induction n generalizing c with
  | zero => exact hc
  | succ n ih =>
    rw [raftHandleCommittedLogsLoop]
    split
    · exact hc
    · rename_i r hr
      dsimp only
      split_ifs
      · exact hc
      · refine ih _ fun r' hr' => ?_
        rw [(keeps_raftHandleCommittedLog _ o _ _).replica] at hr'
        obtain rfl := Option.some.inj hr'
        have hsendable : r.takeCommittedLog.1.sendableMessages = r.sendableMessages := by
          rw [Raft.takeCommittedLog]
          split_ifs
          · rfl
          · dsimp only
            split <;> rfl
        exact hsendable.trans (hc r hr)

theorem ends_raftStep : (c.raftStep o).Ends := by
  have hsend : ∀ c : Core Hash DB, c.raftSendMessages.Drained := by
    intro c
    cases hr : c.raft.loaded.raft with
    | none =>
      rw [raftSendMessages, hr]
      intro r hr'
      rw [c.calm_abort.raft, hr] at hr'
      cases hr'
    | some r =>
      intro r' hr'
      rw [(c.calm_raftSendMessages hr).raft] at hr'
      obtain rfl := Option.some.inj hr'
      rfl
  refine Drained.ends ?_
  rw [raftStep, raftHandleCommittedLogs]
  split
  · exact hsend _
  · exact drained_raftHandleCommittedLogsLoop _ _ (hsend _)

omit [DecidableEq Hash] in
/-- A request to log is refused, and nothing is left to send. -/
theorem ends_refused {r r' : Raft Hash} {o' : Oracle} {e : LogEntry Hash}
    {loc : LogLocation Hash} {err : Error} (hr : c.raft.loaded.raft = some r) (hc : c.Drained)
    (hu : c.Unelected) (heq : r.logRequest o' e = (r', loc, err)) (herr : err ≠ .ok) :
    (c.called (.logRequest r o' e) r').Ends := by
  refine ⟨fun _ hcalls r'' hr'' => ?_⟩
  obtain rfl := Option.some.inj hr''
  have hleaves : (RaftCall.logRequest r o' e).LeavesNothing :=
    hcalls _ (List.mem_append_right _ List.mem_cons_self)
  have hsame := r.sendable_logRequest_refused o' (hu r hr) e (by rw [heq]; exact herr) hleaves
  rw [heq, hc r hr] at hsame
  exact hsame

/-! ### Requests of the host -/

theorem ends_raftWriteLogTransaction (entry : LogEntry Hash) (cb : LogTransactionCallback Hash)
    (hc : c.Drained) (hu : c.Unelected) : (c.raftWriteLogTransaction o entry cb).1.Ends := by
  rw [raftWriteLogTransaction]
  split_ifs
  · exact hc.ends
  · split
    · exact c.calm_abort.ends hc.ends
    · rename_i r hr
      split_ifs
      · exact hc.ends
      · split
        · exact ends_raftStep _
        · rename_i r' loc err herr heq
          exact c.ends_refused hr hc hu heq herr
      · split
        · dsimp only
          exact (c.sends_anyE2ETransaction o ..).ends hc.ends
        · exact hc.ends

theorem ends_handleExistingClient (clientId : Nat) (data : Except Error (Database.Request DB))
    (tx : TransactionID) (hc : c.Drained) (hu : c.Unelected) :
    (c.handleExistingClient o clientId data tx).1.Ends := by
  rw [handleExistingClient]
  split
  · exact hc.ends
  · split_ifs
    · split
      · exact hc.ends_of_eq rfl
      · exact hc.ends
    · split
      · exact hc.ends
      · split
        · exact hc.ends
        · split
          · exact c.ends_raftWriteLogTransaction _ _ hc hu
          · exact hc.ends

theorem ends_handleUpdateMinimums (tx : TransactionID) (update : MinimumLimits) (hc : c.Drained)
    (hu : c.Unelected) : (c.handleUpdateMinimums o tx update).Ends := by
  rw [handleUpdateMinimums]
  split
  · split
    · have hwrite := c.ends_raftWriteLogTransaction (o := o)
        { LogEntry.default with inner := .minimums update } (.reply tx) hc hu
      dsimp only
      split
      · rename_i c' heq
        rw [heq] at hwrite
        exact hwrite
      · rename_i c' err herr heq
        rw [heq] at hwrite
        exact (c'.quiet_replyWithError ..).ends hwrite
    · exact (c.quiet_replyWithError ..).ends hc.ends
  · exact (c.quiet_replyWithError ..).ends hc.ends

theorem ends_handleHostDatabaseRequest (tx : TransactionID) (authenticatedId : Bytes)
    (request : Option (Database.Request DB)) (hc : c.Drained) (hu : c.Unelected) :
    (c.handleHostDatabaseRequest o tx authenticatedId request).1.Ends := by
  rw [handleHostDatabaseRequest.eq_def]
  split
  · exact hc.ends
  · split
    · exact hc.ends
    · exact c.ends_raftWriteLogTransaction _ _ hc hu

theorem ends_handleCreateNewRaftGroupRequest (tx : TransactionID) :
    (c.handleCreateNewRaftGroupRequest o tx).Ends := by
  rw [handleCreateNewRaftGroupRequest]
  exact (quiet_replyWithError ..).ends (ends_raftStep _)

omit [DecidableEq Hash] in
theorem ends_handleJoinRaft (peerId : Option PeerId) (tx : TransactionID) (hc : c.Drained) :
    (c.handleJoinRaft o peerId tx).Ends := by
  rw [handleJoinRaft.eq_def]
  split_ifs
  · exact (c.quiet_replyWithError ..).ends hc.ends
  · split
    · exact (c.quiet_replyWithError ..).ends hc.ends
    · dsimp only
      split
      · exact (quiet_joinRaftFromFirstPeer _ o).ends (drained_of_none rfl).ends
      · exact (drained_of_none rfl).ends
      · exact (calm_connectToPeer _ o _).ends (drained_of_none rfl).ends

omit [DecidableEq Hash] in
theorem ends_handleReconfigure (req : EnclaveConfig) (hc : c.Drained) :
    (c.handleReconfigure req).1.Ends := by
  rw [handleReconfigure]
  dsimp only
  split
  · split
    · rename_i r _ hr
      refine Drained.ends fun r' hr' => ?_
      obtain rfl := Option.some.inj hr'
      exact hc r hr
    · rename_i r _ hr
      refine Drained.ends fun r' hr' => ?_
      obtain rfl := Option.some.inj hr'
      exact hc r hr
    · exact hc.ends_of_eq rfl
    · exact hc.ends_of_eq rfl
    · exact hc.ends_of_eq rfl
  · exact hc.ends

theorem ends_handleRelinquishLeadership (tx : TransactionID) (hc : c.Drained) :
    (c.handleRelinquishLeadership o tx).Ends := by
  rw [handleRelinquishLeadership]
  split_ifs
  · exact (c.quiet_replyWithError ..).ends hc.ends
  · split
    · exact c.calm_abort.ends hc.ends
    · split_ifs
      · exact (c.quiet_replyWithError ..).ends hc.ends
      · exact ends_raftStep _

theorem ends_handleHostToEnclave (tx : TransactionID) (req : HostRequest DB) (hc : c.Drained)
    (hu : c.Unelected) : (c.handleHostToEnclave o tx req).1.Ends := by
  rw [handleHostToEnclave.eq_def]
  split_ifs
  · exact hc.ends
  · cases req with
    | newClient authenticatedId => exact (c.quiet_handleNewClient o authenticatedId tx).ends hc.ends
    | existingClient clientId data =>
      have h := c.ends_handleExistingClient (o := o) clientId data tx hc hu
      dsimp only
      split
      · rename_i c' heq
        rw [heq] at h
        exact h
      · rename_i c' err _ heq
        rw [heq] at h
        exact (quiet_replyWithError ..).ends ((c'.calm_removeClient clientId).ends h)
    | closeClient clientId =>
      exact (quiet_replyWithError ..).ends ((c.calm_removeClient clientId).ends hc.ends)
    | createNewRaftGroup => exact c.ends_handleCreateNewRaftGroupRequest tx
    | joinRaft peerId => exact c.ends_handleJoinRaft peerId tx hc
    | pingPeer peerId =>
      cases peerId with
      | none => exact (c.quiet_replyWithError ..).ends hc.ends
      | some peer => exact (c.quiet_pingPeer o peer tx).ends hc.ends
    | refreshAttestation rotate =>
      exact (quiet_replyWithError ..).ends ((c.calm_peerManagerRefreshAttestation o).ends hc.ends)
    | requestVoting => exact (c.quiet_askLeader o tx _ _ (by trivial)).ends hc.ends
    | getEnclaveStatus => exact hc.ends_of_eq rfl
    | metrics => exact hc.ends_of_eq rfl
    | databaseRequest authenticatedId request =>
      exact c.ends_handleHostDatabaseRequest tx authenticatedId request hc hu
    | reconfigure config =>
      exact (quiet_replyWithError ..).ends (c.ends_handleReconfigure config hc)
    | setLogLevel level => exact (c.quiet_replyWithError ..).ends hc.ends
    | relinquishLeadership => exact c.ends_handleRelinquishLeadership tx hc
    | requestRemoval => exact (c.quiet_askLeader o tx _ _ (by trivial)).ends hc.ends
    | hashes =>
      have h := (c.quiet_handleHostHashes tx).ends hc.ends
      dsimp only
      split
      · rename_i c' heq
        rw [heq] at h
        exact h
      · rename_i c' err _ heq
        rw [heq] at h
        exact (c'.quiet_replyWithError ..).ends h
    | resetPeerId id =>
      cases id with
      | none => exact hc.ends
      | some id => exact (quiet_replyWithError ..).ends ((c.quiet_resetPeer o id).ends hc.ends)
    | updateMinimums update => exact c.ends_handleUpdateMinimums tx update hc hu
    | notSet => exact hc.ends

/-! ### Ticks and messages from other enclaves -/

theorem ends_handleTimerTick (time : Nat) (hc : c.Drained) : (c.handleTimerTick o time).Ends := by
  have htick : Quiet c (({ c with localTime := time }.maybeUpdateGroupTime o).timeoutTimerTick o) := by
    refine Sends.trans ?_ (quiet_timeoutTimerTick _ o)
    exact Sends.trans (c.quiet_rest ..) (calm_maybeUpdateGroupTime _ o).toSends
  have hends := htick.ends hc.ends
  rw [handleTimerTick]
  split_ifs
  · exact hends
  · split
    · exact (calm_abort _).ends hends
    · exact ends_raftStep _

theorem ends_logMembershipChange {r : Raft Hash} (hr : c.raft.loaded.raft = some r)
    (e : LogEntry Hash) (respond : LogLocation Hash → TransactionResponse Hash) (hc : c.Drained)
    (hu : c.Unelected) : (c.logMembershipChange o r e respond).1.Ends := by
  rw [logMembershipChange]
  split
  · exact ends_raftStep _
  · rename_i r' loc err herr heq
    exact c.ends_refused hr hc hu heq herr

theorem ends_handleRequestRaftMembership (src : PeerId) (hc : c.Drained) (hu : c.Unelected) :
    (c.handleRequestRaftMembership o src).1.Ends := by
  rw [handleRequestRaftMembership]
  split_ifs
  · exact hc.ends
  · split
    · exact c.calm_abort.ends hc.ends
    · rename_i r hr
      dsimp only
      split_ifs
      · exact hc.ends
      · exact c.ends_logMembershipChange hr _ _ hc hu

theorem ends_handleRequestRaftVoting (src : PeerId) (hc : c.Drained) (hu : c.Unelected) :
    (c.handleRequestRaftVoting o src).1.Ends := by
  rw [handleRequestRaftVoting]
  split_ifs
  · exact hc.ends
  · split
    · exact c.calm_abort.ends hc.ends
    · rename_i r hr
      split_ifs
      · exact hc.ends
      · exact c.ends_logMembershipChange hr _ _ hc hu
      · exact hc.ends

theorem ends_handleRaftWrite (entry : LogEntry Hash) (hc : c.Drained) (hu : c.Unelected) :
    (c.handleRaftWrite o entry).1.Ends := by
  rw [handleRaftWrite]
  split_ifs
  · exact hc.ends
  · split
    · exact c.calm_abort.ends hc.ends
    · rename_i r hr
      split_ifs
      · exact hc.ends
      · exact c.ends_logMembershipChange hr _ _ hc hu

theorem ends_handlePeerRequestedRaftRemoval (src : PeerId) (id : TransactionID) (hc : c.Drained)
    (hu : c.Unelected) : (c.handlePeerRequestedRaftRemoval o src id).Ends := by
  rw [handlePeerRequestedRaftRemoval]
  split_ifs
  · exact (c.calm_sendE2EError ..).ends hc.ends
  · split
    · exact c.calm_abort.ends hc.ends
    · rename_i r hr
      dsimp only
      split_ifs
      · exact (c.calm_sendE2EError ..).ends hc.ends
      · split
        · exact ends_raftStep _
        · rename_i r' loc err herr heq
          exact (calm_sendE2EError ..).ends (c.ends_refused hr hc hu heq herr)

omit [DecidableEq Hash] in
theorem ends_respond (dst : PeerId) (id : TransactionID) (err : Error)
    (resp : TransactionResponse Hash) (hc : c.Ends) : (c.respond dst id err resp).1.Ends := by
  have hsend : ∀ msg, (c.sendToPeer dst msg).1.Ends := fun msg =>
    (c.calm_sendAnyToPeer dst msg).ends hc
  rw [respond.eq_def]
  split_ifs
  · exact hsend _
  · split
    · exact hsend _
    · exact hsend _

omit [DecidableEq Hash] in
theorem ends_requestRaftReplication (hc : c.Drained) : (c.requestRaftReplication o).Ends := by
  rw [requestRaftReplication]
  split_ifs
  · exact hc.ends
  · split
    · exact c.calm_abort.ends hc.ends
    · dsimp only
      split_ifs
      · exact hc.ends
      · exact (sends_anyE2ETransaction _ o ..).ends (hc.ends_of_eq rfl)

omit [DecidableEq Hash] in
/-- A peer connects, and the leader will send to it, but does not do so yet. -/
theorem ends_called_resetPeer {r : Raft Hash} (hr : c.raft.loaded.raft = some r) (src : PeerId)
    (hc : c.Drained) : (c.called (.resetPeer r src) (r.resetPeer src)).Ends := by
  refine ⟨fun _ hcalls r' hr' => ?_⟩
  obtain rfl := Option.some.inj hr'
  have hleaves : (RaftCall.resetPeer r src).LeavesNothing :=
    hcalls _ (List.mem_append_right _ List.mem_cons_self)
  rw [Raft.resetPeer]
  split_ifs with hmember
  · split
    · exact hc r hr
    · rename_i hrole
      exact absurd hmember (hleaves hrole)
    · rw [Raft.modifyFollower]
      split
      · exact hc r hr
      · exact hc r hr
  · exact hc r hr

omit [DecidableEq Hash] in
theorem ends_handlePeerConnect (src : PeerId) (hc : c.Drained) :
    (c.handlePeerConnect o src).Ends := by
  have htimestamp := c.quiet_sendTimestamp o src c.localTime
  rw [handlePeerConnect]
  have hc' : (c.sendTimestamp o src c.localTime).Drained :=
    hc.of_eq (by rw [htimestamp.raft])
  generalize c.sendTimestamp o src c.localTime = c at hc'
  split
  · split_ifs
    · exact hc'.ends
    · exact c.ends_requestRaftReplication hc'
  · split_ifs
    · exact (c.quiet_joinRaftFromFirstPeer o).ends hc'.ends
    · exact hc'.ends
  · split
    · exact c.calm_abort.ends hc'.ends
    · rename_i r hr
      exact c.ends_called_resetPeer hr src hc'
  · split
    · exact c.calm_abort.ends hc'.ends
    · rename_i r hr
      exact c.ends_called_resetPeer hr src hc'
  · exact hc'.ends

omit [DecidableEq Hash] in
theorem ends_gotRaft (tx : TransactionID) (peer : PeerId) (groupConfig : RaftGroupConfig)
    (replicaGroup : ReplicaGroup) (hc : c.Drained) :
    (c.gotRaft o tx peer groupConfig replicaGroup).Ends := by
  have hreply : ∀ err, (c.replyWithError tx err).Ends := fun err =>
    (c.quiet_replyWithError tx err).ends hc.ends
  rw [gotRaft]
  split_ifs
  · exact hreply _
  · exact hreply _
  · exact hreply _
  · split
    · exact hreply _
    · have hconnect := (c.calm_connectToReplicas o replicaGroup).ends hc.ends
      split
      · dsimp only
        split
        · exact ends_requestRaftReplication _ (drained_of_none rfl)
        · exact (quiet_replyWithError ..).ends (drained_of_none rfl).ends
      · rename_i c' err _ heq
        rw [heq] at hconnect
        exact (quiet_replyWithError ..).ends hconnect

variable [PushSize Hash]

omit [DecidableEq Hash] in
theorem ends_sendNextReplicationState (k : Nat) (hc : c.Ends) :
    (c.sendNextReplicationState o k).Ends :=
  (c.sends_sendNextReplicationState o k).ends hc

omit [PushSize Hash] in
theorem ends_promoteRaftToLoaded (hc : c.Drained) : (c.promoteRaftToLoaded o).Ends := by
  rw [promoteRaftToLoaded]
  dsimp only
  split
  · refine (quiet_raftRequestMembership ..).ends ⟨fun halive _ r hr => ?_⟩
    obtain rfl := Option.some.inj hr
    rw [promoted, Bool.or_eq_false_iff] at halive
    exact Raft.sendable_new _ _ _ _ _ _ _ _ halive.2
  · exact (calm_abort _).ends (hc.ends_of_eq rfl)

theorem ends_e2eCallback (resp : TransactionResponse Hash) (callback : E2ECallback Hash)
    (hc : c.Drained) : (c.e2eCallback o resp callback).Ends := by
  rw [e2eCallback.eq_def]
  split
  · split
    · exact (c.quiet_replyWithError ..).ends hc.ends
    · split
      · exact c.ends_gotRaft _ _ _ _ hc
      · exact c.ends_gotRaft _ _ _ _ hc
    · exact c.ends_promoteRaftToLoaded hc
    · split
      · exact hc.ends_of_eq rfl
      · exact hc.ends_of_eq rfl
    · split
      · exact c.calm_abort.ends hc.ends
      · split_ifs
        · exact hc.ends
        · exact (calm_sendE2EError ..).ends ((calm_setPushState ..).ends hc.ends)
        · exact hc.ends
        · exact c.ends_sendNextReplicationState _ hc.ends
    · split
      · exact hc.ends_of_eq rfl
      · exact (c.quiet_logTransactionCallback ..).ends hc.ends
    · exact hc.ends
  · exact (c.quiet_e2eCallbackError ..).ends hc.ends

theorem ends_handleE2EResponse (id : TransactionID) (resp : TransactionResponse Hash)
    (hc : c.Drained) : (c.handleE2EResponse o id resp).Ends := by
  rw [handleE2EResponse]
  split
  · exact hc.ends
  · refine ends_e2eCallback _ _ _ (hc.of_eq ?_)
    rw [(quiet_cancelTimeout ..).raft]

omit [DecidableEq Hash] in
theorem ends_startPipeline (k n : Nat) (hc : c.Ends) : (startPipeline o k n c).Ends := by
  induction n generalizing c with
  | zero => exact hc
  | succ n ih =>
    rw [startPipeline]
    split_ifs
    · exact hc
    · exact ih _ (c.ends_sendNextReplicationState k hc)

omit [DecidableEq Hash] in
theorem ends_handleReplicateStateRequest (src : PeerId) (id : TransactionID)
    (groupId replicationId : Nat) (hc : c.Drained) :
    (c.handleReplicateStateRequest o src id groupId replicationId).1.Ends := by
  rw [handleReplicateStateRequest]
  split_ifs
  · exact (c.calm_sendE2EError ..).ends hc.ends
  · split
    · exact c.calm_abort.ends hc.ends
    · dsimp only
      split_ifs
      · exact (c.calm_sendE2EError ..).ends hc.ends
      · exact ends_startPipeline _ _ _ (hc.ends_of_eq rfl)

omit [DecidableEq Hash] [PushSize Hash] in
theorem ends_handleReplicateStatePush (push : ReplicateStatePush Hash) (hc : c.Drained) :
    (c.handleReplicateStatePush push).1.Ends := by
  rw [handleReplicateStatePush]
  split_ifs
  · exact hc.ends
  · exact (calm_check ..).ends (hc.ends_of_eq rfl)

theorem ends_handleE2ETransaction (src : PeerId) (id : TransactionID)
    (req : TransactionRequest Hash) (hc : c.Drained) (hu : c.Unelected) :
    (c.handleE2ETransaction o src id req).1.Ends := by
  cases req with
  | ping => exact c.ends_respond _ _ _ _ hc.ends
  | getRaft =>
    rw [handleE2ETransaction]
    split_ifs
    · exact c.ends_respond _ _ _ _ hc.ends
    · split
      · exact c.calm_abort.ends hc.ends
      · exact c.ends_respond _ _ _ _ hc.ends
  | replicateState groupId replicationId =>
    exact c.ends_handleReplicateStateRequest src id groupId replicationId hc
  | replicateStatePush push =>
    exact ends_respond _ _ _ _ _ (c.ends_handleReplicateStatePush push hc)
  | raftMembershipRequest =>
    exact ends_respond _ _ _ _ _ (c.ends_handleRequestRaftMembership src hc hu)
  | raftVotingRequest => exact ends_respond _ _ _ _ _ (c.ends_handleRequestRaftVoting src hc hu)
  | raftWrite entry => exact ends_respond _ _ _ _ _ (c.ends_handleRaftWrite entry hc hu)
  | newTimestampUnixSecs =>
    exact ends_respond _ _ _ _ _ ((c.calm_maybeUpdateGroupTime o).ends hc.ends)
  | raftRemovalRequest => exact c.ends_handlePeerRequestedRaftRemoval src id hc hu
  | notSet => exact c.ends_respond _ _ _ _ hc.ends

theorem ends_handleE2E (src : PeerId) (msg : E2EMessage Hash) (hc : c.Drained)
    (hu : c.Unelected) : (c.handleE2E o src msg).1.Ends := by
  cases msg with
  | connected => exact c.ends_handlePeerConnect src hc
  | raftMessage msg =>
    rw [handleE2E]
    split_ifs
    · exact hc.ends
    · split
      · exact c.calm_abort.ends hc.ends
      · exact ends_raftStep _
  | transactionRequest id req => exact c.ends_handleE2ETransaction src id req hc hu
  | transactionResponse id resp => exact c.ends_handleE2EResponse id resp hc
  | attestationUpdate => exact hc.ends

/-- No handler returns with messages to send, unless a call has left them. -/
theorem ends_receive (hc : c.Drained) (hu : c.Unelected) : (c.receive o m).1.Ends := by
  cases m with
  | h2eRequest tx req => exact ends_handleHostToEnclave _ tx req hc hu
  | timerTick time => exact ends_handleTimerTick _ time hc
  | resetPeer id =>
    cases id with
    | none => exact hc.ends_of_eq rfl
    | some id => exact (quiet_resetPeer _ o id).ends (hc.ends_of_eq rfl)
  | peerMessage src msg =>
    have hrecv := calm_recvFromPeer { c with out := [], calls := [], promotions := [], answers := [] }
      o src msg
    change (handlePeerMessage _ o src msg).1.Ends
    rw [handlePeerMessage]
    split
    · rename_i c' decoded heq
      rw [heq] at hrecv
      exact c'.ends_handleE2E src decoded (hc.of_eq (by rw [hrecv.raft]))
        (fun r hr => hu r (by rw [← hr, hrecv.raft]))
    · rename_i c' err _ _ heq
      rw [heq] at hrecv
      exact hrecv.ends (hc.ends_of_eq rfl)

end Core

variable [PushSize Hash]

theorem CoreMove.unelected {s c c' : Core Hash DB} (h : CoreMove s o m c c') (hc : c.Unelected) :
    c'.Unelected := by
  have of_raft : ∀ {c' : Core Hash DB}, c'.raft.loaded.raft = c.raft.loaded.raft → c'.Unelected :=
    fun heq r hr => hc r (heq ▸ hr)
  cases h with
  | quiet h => exact of_raft (by rw [h.raft])
  | call call hr _ _ =>
    intro r hr'
    obtain rfl := Option.some.inj hr'
    exact call.unelected_after (hc _ hr)
  | log r r' e loc cb hr _ _ hok _ =>
    intro r'' hr''
    obtain rfl := Option.some.inj hr''
    have h := RaftCall.unelected_after (.logRequest r (o.raft 0) e) (hc r hr)
    rw [RaftCall.after, hok] at h
    exact h
  | register loc cb _ => exact of_raft rfl
  | sendMessages =>
    cases hr : c.raft.loaded.raft with
    | none =>
      rw [Core.raftSendMessages, hr]
      exact of_raft (by rw [c.calm_abort.raft])
    | some r =>
      intro r' hr'
      rw [(c.calm_raftSendMessages hr).raft] at hr'
      obtain rfl := Option.some.inj hr'
      exact ⟨(hc r hr).votes⟩
  | applyLog r hr _ =>
    intro r' hr'
    rw [(Core.keeps_raftHandleCommittedLog _ o _ _).replica] at hr'
    obtain rfl := Option.some.inj hr'
    exact RaftCall.unelected_after (.takeCommittedLog r) (hc r hr)
  | push k => exact of_raft (by rw [(c.sends_sendNextReplicationState o k).raft])
  | serve _ _ _ _ _ _ r hr => exact of_raft (by rw [(c.sends_serve o hr ..).raft])
  | forward r _ dst entry _ cb _ => exact of_raft (by rw [(c.sends_anyE2ETransaction o ..).raft])
  | tellGroup r _ _ dst id => exact of_raft (by rw [(c.calm_sendAnyToPeer ..).raft])
  | tellPlace r o' e loc _ _ dst id resp _ _ =>
    exact of_raft (by rw [(c.calm_sendAnyToPeer ..).raft])
  | load src id push _ _ _ b => exact of_raft rfl
  | replicate _ => exact of_raft rfl
  | wait tx peer _ _ _ => exact Core.unelected_of_none rfl
  | startLoading src id groupConfig replicaGroup mem peer tx _ _ _ _ _ => exact Core.unelected_of_none rfl
  | failPromotion => exact of_raft rfl
  | promote src id resp _ loadFrom tx _ _ log mem _ _ =>
    intro r hr
    obtain rfl := Option.some.inj hr
    exact Raft.unelected_new _ _ _ _ _ _ _ _
  | create tx _ _ =>
    intro r hr
    obtain rfl := Option.some.inj hr
    exact Raft.unelected_new _ _ _ _ _ _ _ _
  | reconfigure config => exact of_raft rfl

theorem CoreMoves.unelected {s c c' : Core Hash DB} (h : CoreMoves s o m c c') (hc : c.Unelected) :
    c'.Unelected := by
  induction h with
  | refl => exact hc
  | tail _ hmove ih => exact hmove.unelected ih

namespace Core

variable (c : Core Hash DB)

theorem drained_step {e : CoreOracle × UntrustedMessage Hash DB}
    (hc : c.aborted = false → c.Drained) (hu : c.Unelected)
    (hleaves : ∀ call ∈ (c.step e).calls, call.LeavesNothing) :
    ((c.step e).aborted = false → (c.step e).Drained) ∧ (c.step e).Unelected := by
  rw [step] at hleaves ⊢
  split_ifs at hleaves ⊢ with haborted
  · exact ⟨hc, hu⟩
  · refine ⟨fun halive => ?_, (c.moves_receive e.1 e.2).unelected hu⟩
    exact (c.ends_receive (hc (Bool.not_eq_true _ ▸ haborted)) hu).drained halive hleaves

theorem drained_served (es : List (CoreOracle × UntrustedMessage Hash DB))
    (hc : c.aborted = false → c.Drained) (hu : c.Unelected)
    (hleaves : ∀ n < es.length, ∀ call ∈ (c.served (es.take (n + 1))).calls, call.LeavesNothing) :
    (c.served es).aborted = false → (c.served es).Drained := by
  induction es generalizing c with
  | nil => exact hc
  | cons e es ih =>
    obtain ⟨hdrained, hunelected⟩ := c.drained_step hc hu (hleaves 0 (Nat.succ_pos _))
    exact ih (c.step e) hdrained hunelected fun n hn => hleaves (n + 1) (Nat.succ_lt_succ hn)

/-- Whenever the handling of a message returns, the loaded replica has nothing to send, if no peer
    of the group has connected to a candidate and leaders, whenever a request to log passed their
    checks, were not relinquishing and had room for it. -/
theorem sendable_eq_nil {me : PeerId} {groupConfig : RaftGroupConfig} {config : EnclaveConfig}
    {time : Nat} (hcreate : create me groupConfig config o time = .ok c)
    (es : List (CoreOracle × UntrustedMessage Hash DB))
    (hleaves : ∀ n < es.length, ∀ call ∈ (c.served (es.take (n + 1))).calls, call.LeavesNothing)
    (halive : (c.served es).aborted = false) (r : Raft Hash)
    (hr : (c.served es).raft.loaded.raft = some r) : r.sendableMessages = [] := by
  have hnone : c.raft.loaded.raft = none := by
    rw [create] at hcreate
    split at hcreate
    · obtain rfl := Except.ok.inj hcreate
      rfl
    · simp at hcreate
    · simp at hcreate
  exact c.drained_served es (fun _ => drained_of_none hnone) (unelected_of_none hnone) hleaves
    halive r hr

end Core

namespace Sample

/-- Enclave 2 votes, calls for an election, and then enclave 1 connects to it. -/
def connectsToCandidate : List (CoreOracle × UntrustedMessage IdealHash DB2) :=
  Cluster.history 2 .empty (voting ++
    [.host 2 (coreOracle 5) (.timerTick 1), .host 2 (coreOracle 5) (.timerTick 2),
      .host 2 (coreOracle 5) (.peerMessage 1 .syn)])

/-- A request for its vote is left when the handling of the connection returns. -/
theorem sendable_ne_nil :
    ((core 2).served connectsToCandidate).aborted = false ∧
      ((core 2).served connectsToCandidate).raft.loaded.raft.map
        (fun r => (r.role, r.sendableMessages.map (·.dst))) = some (.candidate, [some 1]) := by
  decide +kernel

/-- What enclave 1 handles while enclave 2 joins its group and becomes a voter. -/
def admits : List (CoreOracle × UntrustedMessage IdealHash DB2) := Cluster.history 1 .empty voting

theorem sendable_eq_nil_admits : ∃ r, ((core 1).served admits).raft.loaded.raft = some r ∧
    r.sendableMessages = [] := by
  have hsome : ((core 1).served admits).raft.loaded.raft.isSome := by decide +kernel
  obtain ⟨r, hr⟩ := Option.isSome_iff_exists.mp hsome
  refine ⟨r, hr, (core 1).sendable_eq_nil (create_core 1) admits ?_ (by decide +kernel) r hr⟩
  decide +kernel

end Sample

end SVR2
