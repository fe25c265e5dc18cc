import Mathlib.Logic.Relation
import SVR2.Raft.LogSpec
import SVR2.Raft.Replica

/-!
# Where log entries, memberships and messages come from

A change of a replica, as far as its log, its memberships, its commit index and its messages are
concerned.  Every call of a replica is a sequence of changes, whoever it talks to: this says what
a call can bring into a log or a message, without saying anything about who leads or why.
-/

namespace SVR2

open Lib Relation

variable {Hash : Type}

def RaftMessage.Carries (msg : RaftMessage Hash) (i : Nat) (e : LogEntry Hash) : Prop :=
  ∃ m, msg.inner = .appendRequest m ∧ ∃ j, m.entries[j]? = some e ∧ i = m.prevLogIdx + 1 + j

/-- What a message carries is in the log, at that index if the log begins at 1 or later. -/
def RaftMessage.From (msg : RaftMessage Hash) (log : Log Hash) : Prop :=
  ∀ i e, msg.Carries i e → e ∈ log.entries ∧ (1 ≤ log.oldestStoredIdx → log.at? i = some e)

theorem RaftMessage.from_of_ne {msg : RaftMessage Hash}
    (h : ∀ m, msg.inner ≠ .appendRequest m) (log : Log Hash) : msg.From log := by
  rintro i e ⟨m, hm, -⟩
  exact absurd hm (h m)

/-- The membership that an entry brings into force, with the index of the entry. -/
def Inner.Brings (inner : Inner) (idx : Nat) (us : List (Nat × Membership)) : Prop :=
  match inner with
  | .membershipChange g => ∃ m, Membership.fromProto g = .ok m ∧ us = [(idx, m)]
  | _ => us = []

namespace Raft

def kept (r : Raft Hash) : PeerId × Nat × Nat × Log Hash × Membership × List (Nat × Membership) ×
    Nat × Nat × List (SendableRaftMessage Hash) :=
  (r.me, r.group, r.superMajority, r.log, r.committedMembership, r.uncommittedMemberships,
    r.commitIdx, r.lastApplied, r.sendableMessages)

/-- One change of a replica: of nothing that matters here, of its log, of its memberships, of its
    commit index, or one more message.  An entry that is appended satisfies `P` at its index. -/
inductive Change [Platform Hash] (P : Nat → Inner → Prop) : Raft Hash → Raft Hash → Prop where
  | rest {r r' : Raft Hash} (h : r'.kept = r.kept) : Change P r r'
  | append {r : Raft Hash} (e : LogEntry Hash) (log : Log Hash) (us : List (Nat × Membership))
      (he : P r.log.nextIdx e.inner) (hlog : r.log.append e r.lastApplied = (log, .ok))
      (hus : e.inner.Brings log.lastIdx us) :
      Change P r { r with log := log, uncommittedMemberships := r.uncommittedMemberships ++ us }
  | trim {r : Raft Hash} (e : LogEntry Hash) (log : Log Hash) (err : Error) (herr : err ≠ .ok)
      (hlog : r.log.append e r.lastApplied = (log, err)) : Change P r { r with log := log }
  | cancel {r : Raft Hash} (idx : Nat) (log : Log Hash) (hidx : r.commitIdx < idx)
      (hlog : r.log.cancelFrom idx = (log, .ok)) : Change P r { r with log := log }
  | memberships {r : Raft Hash} (m : Membership) (us : List (Nat × Membership))
      (hm : m = r.committedMembership ∨ ∃ u ∈ r.uncommittedMemberships, m = u.2)
      (hus : us ⊆ r.uncommittedMemberships) : Change P r (r.setMemberships m us)
  | commit {r : Raft Hash} (n : Nat) (hn : r.commitIdx ≤ n) : Change P r { r with commitIdx := n }
  | send {r : Raft Hash} (msg : SendableRaftMessage Hash)
      (hmsg : msg.message.From r.log) :
      Change P r { r with sendableMessages := r.sendableMessages ++ [msg] }

def Changes [Platform Hash] (P : Nat → Inner → Prop) : Raft Hash → Raft Hash → Prop :=
  ReflTransGen (Change P)

section Changes

variable [Platform Hash] {P : Nat → Inner → Prop}

theorem Changes.refl (r : Raft Hash) : Changes P r r := ReflTransGen.refl

theorem Changes.single {r r' : Raft Hash} (h : Change P r r') : Changes P r r' :=
  ReflTransGen.single h

theorem Changes.trans {r₁ r₂ r₃ : Raft Hash} (h : Changes P r₁ r₂) (h' : Changes P r₂ r₃) :
    Changes P r₁ r₃ := ReflTransGen.trans h h'

theorem Changes.rest {r r' : Raft Hash} (h : r'.kept = r.kept) : Changes P r r' :=
  .single (.rest h)

theorem Changes.foldl {α : Type} {f : Raft Hash → α → Raft Hash}
    (hf : ∀ r a, Changes P r (f r a)) (l : List α) (r : Raft Hash) :
    Changes P r (l.foldl f r) := by
  induction l generalizing r with
  | nil => exact .refl _
  | cons a l ih => exact (hf r a).trans (ih (f r a))

variable (r : Raft Hash)

/-! ### Small functions -/

theorem changes_check (c : Bool) : Changes P r (r.check c) :=
  .rest rfl

theorem changes_setFollowers (fs : OrdMap PeerId ReplicationState) :
    Changes P r (r.setFollowers fs) :=
  .rest rfl

theorem changes_modifyFollower (peer : PeerId) (f : ReplicationState → ReplicationState) :
    Changes P r (r.modifyFollower peer f) := by
  rw [modifyFollower]
  split
  · exact r.changes_setFollowers _
  · exact .refl _

theorem changes_modifyFollowers (f : ReplicationState → ReplicationState) :
    Changes P r (r.modifyFollowers f) :=
  r.changes_setFollowers _

theorem changes_addSendableMessage (msg : SendableRaftMessage Hash)
    (hmsg : msg.message.From r.log) : Changes P r (r.addSendableMessage msg) := by
  rw [addSendableMessage]
  split
  · exact (r.changes_check _).trans (.single (.send msg hmsg))
  · split_ifs
    · exact .refl _
    · exact .single (.send msg hmsg)

theorem changes_reply (dst : PeerId) (inner : MessageInner Hash)
    (hinner : ∀ m, inner ≠ .appendRequest m) : Changes P r (r.reply dst inner) :=
  r.changes_addSendableMessage _ (RaftMessage.from_of_ne hinner _)

theorem changes_checkMerkleHashes : Changes P r r.checkMerkleHashes := r.changes_check _

theorem changes_updateMerkleTree : Changes P r r.updateMerkleTree :=
  .rest rfl

theorem changes_verifyMerkleTree (nodesVerify : Bool) :
    Changes P r (r.verifyMerkleTree nodesVerify).1 := by
  rw [verifyMerkleTree]
  split_ifs
  · exact .rest rfl
  · exact .rest rfl
  · exact r.changes_checkMerkleHashes

theorem changes_handleMembershipChange : Changes P r r.handleMembershipChange := by
  rw [handleMembershipChange]
  split_ifs
  · exact r.changes_setFollowers _
  · exact .refl _

/-! ### Memberships -/

theorem changes_maybeChangeUncommittedMemberships :
    Changes P r r.maybeChangeUncommittedMembershipsBasedOnLog := by
  rw [maybeChangeUncommittedMembershipsBasedOnLog]
  have hset : Changes P r (r.setMemberships
      (((r.uncommittedMemberships.takeWhile fun u => u.1 ≤ r.commitIdx).getLast?.map (·.2)).getD
        r.committedMembership)
      ((r.uncommittedMemberships.dropWhile fun u => u.1 ≤ r.commitIdx).rdropWhile
        fun u => r.log.lastIdx < u.1)) := by
    refine .single (.memberships _ _ ?_ ?_)
    · cases hlast : (r.uncommittedMemberships.takeWhile fun u => u.1 ≤ r.commitIdx).getLast? with
      | none => exact .inl rfl
      | some u =>
        have hu := List.mem_of_getLast? hlast
        exact .inr ⟨u, (List.takeWhile_prefix _).subset hu, rfl⟩
    · exact fun u hu => (List.dropWhile_suffix _).subset ((List.rdropWhile_prefix _ _).subset hu)
  split_ifs
  · exact hset.trans (changes_handleMembershipChange _)
  · exact hset

theorem changes_raisePromise (n : Nat) : Changes P r (r.raisePromise n) := by
  rw [raisePromise]
  split_ifs
  · exact .rest rfl
  · exact .refl _

theorem changes_raiseCommit (n : Nat) : Changes P r (r.raiseCommit n) := by
  rw [raiseCommit]
  split_ifs with h
  · exact (Changes.single (.commit n h.le)).trans (changes_maybeChangeUncommittedMemberships _)
  · exact .refl _

/-! ### Appending -/

theorem changes_logAppend (e : LogEntry Hash) (he : P r.log.nextIdx e.inner) :
    Changes P r (r.logAppend e).1 := by
  rw [logAppend]
  dsimp only
  split
  · exact .refl _
  · rename_i mem hmem
    split
    · rename_i log hlog
      dsimp only
      cases mem with
      | none =>
        have hus : e.inner.Brings log.lastIdx [] := by
          cases hinner : e.inner with
          | membershipChange g =>
            cases hproto : Membership.fromProto g <;> simp [hinner, hproto, Except.map] at hmem
          | _ => rfl
        simpa using Changes.single (.append e log [] he hlog hus)
      | some m =>
        have hus : e.inner.Brings log.lastIdx [(log.lastIdx, m)] := by
          cases hinner : e.inner with
          | membershipChange g =>
            cases hproto : Membership.fromProto g with
            | error err => simp [hinner, hproto, Except.map] at hmem
            | ok m' =>
              have heq : m' = m := by simpa [hinner, hproto, Except.map] using hmem
              exact ⟨m, heq ▸ hproto, rfl⟩
          | _ => simp [hinner] at hmem
        refine (Changes.single (.append e log _ he hlog hus)).trans ?_
        simp only [addUncommittedMembership]
        refine Changes.trans ?_ (changes_handleMembershipChange _)
        exact .rest rfl
    · rename_i log err herr hlog
      exact .single (.trim e log err herr hlog)

omit [Platform Hash] in
theorem addUncommittedMembership_log (idx : Nat) (m : Membership) :
    (r.addUncommittedMembership idx m).log = r.log := by
  simp only [addUncommittedMembership, handleMembershipChange]
  split_ifs <;> rfl

theorem logAppend_ok {r' : Raft Hash} {e : LogEntry Hash} {loc : LogLocation Hash}
    (h : r.logAppend e = (r', loc, .ok)) : r.log.append e r.lastApplied = (r'.log, .ok) ∧
      loc = ⟨r.currentTerm, r'.log.lastIdx, e.hashChain⟩ := by
  rw [logAppend] at h
  dsimp only at h
  split at h
  · rename_i err herr
    obtain ⟨g, hg⟩ : ∃ g, Membership.fromProto g = .error err := by
      cases hinner : e.inner with
      | membershipChange g =>
        refine ⟨g, ?_⟩
        cases hproto : Membership.fromProto g with
        | error err' => simpa [hinner, hproto, Except.map] using herr
        | ok m => simp [hinner, hproto, Except.map] at herr
      | _ => simp [hinner] at herr
    obtain ⟨-, -, rfl⟩ := h
    exact absurd rfl (Membership.fromReplicas_error hg)
  · rename_i mem hmem
    split at h
    · rename_i log hlog
      obtain ⟨rfl, rfl, -⟩ := h
      cases mem with
      | none => exact ⟨hlog, rfl⟩
      | some m =>
        dsimp only
        rw [addUncommittedMembership_log]
        exact ⟨hlog, rfl⟩
    · rename_i log err herr _
      obtain ⟨-, -, rfl⟩ := h
      exact absurd rfl herr

theorem logRequest_ok {r' : Raft Hash} {o : Oracle} {e : LogEntry Hash} {loc : LogLocation Hash}
    (h : r.logRequest o e = (r', loc, .ok)) : r.checkLogRequest e = .ok ∧ r.role = .leader ∧
      ∃ r₁ e₁, e₁.inner = e.inner ∧ r.logAppend e₁ = (r₁, loc, .ok) ∧
        r' = r₁.maybeChangeStateAndSendMessages o := by
  rw [logRequest] at h
  split at h
  · rename_i hcheck
    rw [clientRequestInternal] at h
    dsimp only at h
    split_ifs at h with hrole
    · simp at h
    · rw [not_or, not_not] at hrole
      obtain ⟨rfl, hout⟩ := Prod.mk.inj h
      exact ⟨hcheck, hrole.1, _, ⟨r.currentTerm, e.inner, some (r.nextHash o
        { e with term := r.currentTerm })⟩, rfl, Prod.ext rfl hout, rfl⟩
  · rename_i herr
    exact absurd (Prod.mk.inj (Prod.mk.inj h).2).2 herr

theorem changes_clientRequestInternal (o : Oracle) (e : LogEntry Hash)
    (he : P r.log.nextIdx e.inner) :
    Changes P r (r.clientRequestInternal o e).1 := by
  rw [clientRequestInternal]
  dsimp only
  split_ifs
  · exact .refl _
  · exact r.changes_logAppend _ he

/-! ### Elections -/

theorem changes_electionTimeout (o : Oracle) : Changes P r (r.electionTimeout o) := by
  rw [electionTimeout]
  split_ifs
  · exact .rest rfl
  · split
    · exact .refl _
    · refine Changes.trans ?_ (changes_addSendableMessage _ _
        (RaftMessage.from_of_ne (by simp [requestVoteMessage]) _))
      exact .rest rfl

theorem changes_maybeBecomeLeader (o : Oracle) (hP : ∀ i, P i .notSet) :
    Changes P r (r.maybeBecomeLeader o) := by
  rw [maybeBecomeLeader]
  split_ifs
  · exact .refl _
  · exact .refl _
  · dsimp only
    refine Changes.trans ?_ (changes_clientRequestInternal _ o _ (hP _))
    exact .rest rfl

/-! ### Replication -/

theorem at?_of_entriesToSend {log : Log Hash} {maxSize n idx total j : Nat} {e : LogEntry Hash}
    (h : (entriesToSend log maxSize n idx total)[j]? = some e) : log.at? (idx + j) = some e := by
  induction n generalizing idx total j with
  | zero => simp [entriesToSend] at h
  | succ n ih =>
    rw [entriesToSend] at h
    split at h
    · simp at h
    · rename_i x hx
      dsimp only at h
      split_ifs at h
      · cases j with
        | zero => exact hx.trans h
        | succ j => simp at h
      · cases j with
        | zero => exact hx.trans h
        | succ j =>
          have hj := ih (List.getElem?_cons_succ.symm.trans h)
          rwa [Nat.add_right_comm, Nat.add_assoc] at hj

theorem from_appendRequestFor (replication : ReplicationState) (group term : Nat) :
    RaftMessage.From ⟨group, term, .appendRequest (r.appendRequestFor replication)⟩ r.log := by
  rintro i e ⟨m, hm, j, hj, rfl⟩
  obtain rfl := MessageInner.appendRequest.inj hm
  rw [appendRequestFor] at hj
  dsimp only at hj
  split_ifs at hj
  · have hat := at?_of_entriesToSend hj
    refine ⟨Log.mem_of_at? hat, fun holdest => ?_⟩
    by_cases hzero : replication.nextIdx = 0
    · -- a log that begins at 1 or later has nothing to send from index 0
      have hnone : r.log.at? 0 = none := if_pos holdest
      rw [hzero, Nat.sub_zero, entriesToSend, hnone] at hj
      nomatch hj
    · have hidx : replication.nextIdx - 1 + 1 + j = replication.nextIdx + j := by omega
      exact hidx ▸ hat
  · simp at hj

theorem changes_appendEntries (peer : PeerId) : Changes P r (r.appendEntries peer) := by
  rw [appendEntries]
  split_ifs
  · exact .refl _
  · split
    · exact .refl _
    · rename_i replication _
      dsimp only
      split_ifs
      · exact .refl _
      · exact .refl _
      · exact .refl _
      · refine (r.changes_modifyFollower peer _).trans (changes_addSendableMessage _ _ ?_)
        rw [modifyFollower]
        split
        · exact r.from_appendRequestFor replication _ _
        · exact r.from_appendRequestFor replication _ _

theorem changes_maybeAdvanceCommitIndex : Changes P r r.maybeAdvanceCommitIndex := by
  rw [maybeAdvanceCommitIndex]
  split_ifs
  · exact .refl _
  · dsimp only
    split
    · exact r.changes_check _
    · rename_i newPromise _
      have hpromise : Changes P r (r.raisePromise newPromise) := r.changes_raisePromise newPromise
      refine hpromise.trans ?_
      split
      · exact changes_check _ _
      · rename_i newCommit _
        refine (changes_raiseCommit _ newCommit).trans ?_
        split_ifs
        · exact changes_modifyFollowers _ _
        · exact .refl _

/-! ### Message handlers -/

theorem changes_handleVoteRequest (o : Oracle) (msgTerm : Nat) (msg : VoteRequest Hash)
    (src : PeerId) : Changes P r (r.handleVoteRequest o msgTerm msg src) := by
  rw [handleVoteRequest]
  dsimp only
  split_ifs
  · exact .refl _
  · refine Changes.trans ?_ (changes_reply _ src _ (by simp))
    exact .rest rfl
  · exact r.changes_reply src _ (by simp)

theorem changes_handleVoteResponse (msgTerm : Nat) (msg : VoteResponse) (src : PeerId) :
    Changes P r (r.handleVoteResponse msgTerm msg src) := by
  rw [handleVoteResponse]
  split_ifs
  · exact .refl _
  · exact .refl _
  · exact .rest rfl
  · exact .refl _

variable [DecidableEq Hash] in
theorem changes_processEntries (o : Oracle) (idx : Nat) (es : List (LogEntry Hash))
    (hes : ∀ j e, es[j]? = some e → P (idx + 1 + j) e.inner) :
    Changes P r (r.processEntries o idx es).1 := by
  induction es generalizing r idx with
  | nil => exact .refl _
  | cons e rest ih =>
    have he : P (idx + 1) e.inner := hes 0 e rfl
    have hrest : ∀ j x, rest[j]? = some x → P (idx + 1 + 1 + j) x.inner := by
      intro j x hx
      rw [Nat.add_right_comm _ 1 j, Nat.add_assoc]
      exact hes (j + 1) x hx
    -- what is done once a conflicting entry has been cancelled
    have hnext : ∀ r : Raft Hash, Changes P r
        (if idx + 1 = r.log.lastIdx + 1 then r.processAppend o idx e rest
        else processEntries o r (idx + 1) rest).1 := by
      intro r
      rw [processAppend]
      split_ifs with hidx
      · exact .refl _
      · have happend := r.changes_logAppend (P := P) e (by rwa [Log.nextIdx, ← hidx])
        split
        · rename_i r' _ heq
          rw [heq] at happend
          exact happend.trans (ih r' (idx + 1) hrest)
        · rename_i r' _ _ _ heq
          rw [heq] at happend
          exact happend
      · exact ih r (idx + 1) hrest
    rcases processEntries_cases o r idx e rest with heq | ⟨r₁, hr₁, heq⟩
    · rw [heq]
      exact .refl _
    · rw [heq]
      rcases hr₁ with rfl | ⟨hcommit, log, hcancel, rfl⟩
      · exact hnext _
      · refine (Changes.single (.cancel (idx + 1) log hcommit hcancel)).trans ?_
        exact (changes_maybeChangeUncommittedMemberships _).trans (hnext _)

theorem changes_finishAppendRequest (o : Oracle) (msg : AppendRequest Hash) (src : PeerId)
    (lastProcessedIdx : Nat) : Changes P r (r.finishAppendRequest o msg src lastProcessedIdx) := by
  have hreply : ∀ r : Raft Hash, Changes P r (r.replyProcessed src lastProcessedIdx) :=
    fun r => r.changes_reply src _ (by simp)
  rw [finishAppendRequest]
  dsimp only
  split_ifs
  · have hverify := r.changes_verifyMerkleTree (P := P) (o.nodesVerify 0)
    split
    · rename_i r' heq
      rw [heq] at hverify
      refine hverify.trans (Changes.trans ?_ (hreply _))
      refine Changes.trans ?_ (changes_updateMerkleTree _)
      exact (r'.changes_raiseCommit _).trans (changes_raisePromise _ _)
    · rename_i r' _ _ heq
      rw [heq] at hverify
      exact hverify
  · exact hreply r

theorem changes_followSender (o : Oracle) (src : PeerId) : Changes P r (r.followSender o src) := by
  rw [followSender]
  split <;> exact .rest rfl

variable [DecidableEq Hash] in
theorem changes_handleAppendRequest (o : Oracle) (msgTerm : Nat) (msg : AppendRequest Hash)
    (src : PeerId) (hmsg : ∀ j e, msg.entries[j]? = some e → P (msg.prevLogIdx + 1 + j) e.inner) :
    Changes P r (r.handleAppendRequest o msgTerm msg src) := by
  -- once the role is settled
  have hhandle : ∀ (r : Raft Hash) (c : Bool), Changes P r
      (((r.check c).processEntries o msg.prevLogIdx msg.entries).1.finishAppendRequest o msg src
        ((r.check c).processEntries o msg.prevLogIdx msg.entries).2) := fun r c =>
    (r.changes_check c).trans ((changes_processEntries _ o _ _ hmsg).trans
      (changes_finishAppendRequest _ o msg src _))
  rw [handleAppendRequest]
  dsimp only
  split_ifs
  · exact .refl _
  · exact .refl _
  · exact (r.changes_followSender o src).trans (changes_reply _ src _ (by simp))
  · exact (r.changes_followSender o src).trans (hhandle _ _)
  · exact r.changes_reply src _ (by simp)
  · exact hhandle r _

variable [DecidableEq Hash] in
theorem changes_handleAppendResponse (msgTerm : Nat) (msg : AppendResponse Hash) (src : PeerId) :
    Changes P r (r.handleAppendResponse msgTerm msg src) := by
  rw [handleAppendResponse]
  split_ifs
  · exact .refl _
  · exact .refl _
  · exact Changes.trans (r.changes_check _) (changes_modifyFollower _ src _)
  · exact r.changes_modifyFollower src _
  · exact .refl _

theorem changes_updateTerm (o : Oracle) (msg : RaftMessage Hash) :
    Changes P r (r.updateTerm o msg) := by
  rw [updateTerm]
  split_ifs
  · exact .refl _
  · exact .rest rfl

/-! ### Calls -/

theorem changes_tryToRelinquishLeadership (o : Oracle) :
    Changes P r (r.tryToRelinquishLeadership o) := by
  rw [tryToRelinquishLeadership]
  dsimp only
  split
  · exact .refl _
  · rename_i next _
    refine (r.changes_reply next (.timeoutNow true) (by simp)).trans ?_
    exact .rest rfl

theorem changes_advanceVerified (o : Oracle) : Changes P r (r.advanceVerified o) := by
  have hverify := r.changes_verifyMerkleTree (P := P) (o.nodesVerify 1)
  rw [advanceVerified]
  split
  · rename_i r' heq
    rw [heq] at hverify
    exact hverify.trans ((changes_maybeAdvanceCommitIndex _).trans (changes_updateMerkleTree _))
  · rename_i r' _ _ heq
    rw [heq] at hverify
    exact hverify

theorem changes_maybeChangeStateAndSendMessages (o : Oracle) (hP : ∀ i, P i .notSet) :
    Changes P r (r.maybeChangeStateAndSendMessages o) := by
  have hsend : Changes P r
      (((r.maybeBecomeLeader o).advanceVerified o).peers.foldl appendEntries
        ((r.maybeBecomeLeader o).advanceVerified o)) :=
    (r.changes_maybeBecomeLeader o hP).trans ((changes_advanceVerified _ o).trans
      (Changes.foldl (fun r peer => r.changes_appendEntries peer) _ _))
  rw [maybeChangeStateAndSendMessages]
  split_ifs
  · exact hsend.trans (changes_tryToRelinquishLeadership _ o)
  · exact hsend

theorem changes_countTick (o : Oracle) : Changes P r (r.countTick o) := by
  rw [countTick]
  split
  · dsimp only
    split_ifs
    · refine Changes.trans ?_ (changes_electionTimeout _ o)
      exact .rest rfl
    · exact .rest rfl
  · dsimp only
    split_ifs
    · refine Changes.trans ?_ (changes_electionTimeout _ o)
      exact .rest rfl
    · exact .rest rfl
  · dsimp only
    split_ifs <;> exact .rest rfl

theorem changes_timerTick (o : Oracle) (hP : ∀ i, P i .notSet) : Changes P r (r.timerTick o) :=
  (r.changes_countTick o).trans (changes_maybeChangeStateAndSendMessages _ o hP)

theorem changes_resetPeer (id : PeerId) : Changes P r (r.resetPeer id) := by
  rw [resetPeer]
  split_ifs
  · split
    · exact .refl _
    · exact r.changes_addSendableMessage _ (RaftMessage.from_of_ne (by simp [requestVoteMessage]) _)
    · exact r.changes_modifyFollower id _
  · exact .refl _

theorem changes_reconfigure (config : RaftConfig) : Changes P r (r.reconfigure config) :=
  .rest rfl

theorem changes_relinquishLeadership (o : Oracle) (hP : ∀ i, P i .notSet) :
    Changes P r (r.relinquishLeadership o) := by
  rw [relinquishLeadership]
  split_ifs
  · exact .refl _
  · refine Changes.trans ?_ (changes_maybeChangeStateAndSendMessages _ o hP)
    refine Changes.trans (r.changes_clientRequestInternal o LogEntry.default (hP _)) ?_
    exact .rest rfl

theorem changes_logRequest (o : Oracle) (e : LogEntry Hash) (hP : ∀ i, P i .notSet)
    (he : r.checkLogRequest e = .ok → P r.log.nextIdx e.inner) : Changes P r (r.logRequest o e).1 := by
  rw [logRequest_fst]
  split_ifs with hok
  · exact (r.changes_clientRequestInternal o e (he hok)).trans
      (changes_maybeChangeStateAndSendMessages _ o hP)
  · exact .refl _

variable [DecidableEq Hash] in
theorem changes_receive (o : Oracle) (msg : RaftMessage Hash) (src : PeerId) (hP : ∀ i, P i .notSet)
    (hmsg : ∀ i e, msg.Carries i e → P i e.inner) : Changes P r (r.receive o msg src) := by
  have hnote : Changes P r (r.noteMessage o msg src) := by
    rw [noteMessage]
    split_ifs
    · exact (r.changes_updateTerm o msg).trans (changes_modifyFollower _ src _)
    · exact r.changes_updateTerm o msg
  have hhandle : Changes P r (r.handleMessage o msg src) := by
    rw [handleMessage]
    refine hnote.trans ?_
    cases hinner : msg.inner with
    | voteRequest m => exact changes_handleVoteRequest _ o msg.term m src
    | voteResponse m =>
      dsimp only
      split_ifs
      · exact .refl _
      · exact changes_handleVoteResponse _ msg.term m src
    | appendRequest m =>
      exact changes_handleAppendRequest _ o msg.term m src
        fun j e he => hmsg _ e ⟨m, hinner, j, he, rfl⟩
    | appendResponse m =>
      dsimp only
      split_ifs
      · exact .refl _
      · exact changes_handleAppendResponse _ msg.term m src
    | timeoutNow b =>
      dsimp only
      split_ifs
      · exact .refl _
      · exact changes_electionTimeout _ o
    | notSet => exact .refl _
  rcases r.receive_cases o msg src with ⟨-, h⟩ | ⟨-, h⟩ | h <;> rw [h]
  · exact hhandle.trans (changes_maybeChangeStateAndSendMessages _ o hP)
  · exact r.changes_check _
  · exact .refl _

theorem changes_new (group : Nat) (me : PeerId) (mem : Membership) (log : Log Hash)
    (config : RaftConfig) (committedLog : Bool) (superMajority : Nat) (o : Oracle)
    (hP : ∀ i, P i .notSet) :
    Changes P (newFollower group me mem log config committedLog superMajority o)
      (new group me mem log config committedLog superMajority o) := by
  rw [new]
  split_ifs
  · refine Changes.trans ?_ (changes_check _ _)
    exact (changes_electionTimeout _ o).trans (changes_maybeChangeStateAndSendMessages _ o hP)
  · exact .refl _

end Changes

end Raft

end SVR2
