import Mathlib.Logic.Relation
import SVR2.Core.Frame
import SVR2.Raft.Changes

/-!
# What handling a message can do to `raft_`

Every message that the core handles is a sequence of moves.  A move is quiet, or it is one of the
few things that touch `raft_` or send what is in it.  Each move says where its data comes from: the
message, the replica or the surroundings.  An invariant of the core follows from what it says about
every move.
-/

namespace SVR2

open Lib Relation

variable {Hash DB : Type} [DecidableEq Hash] [Platform Hash]

namespace RaftCall

omit [DecidableEq Hash] [Platform Hash] in
def before : RaftCall Hash → Raft Hash
  | .timerTick r _ => r
  | .logRequest r _ _ => r
  | .relinquishLeadership r _ => r
  | .receive r _ _ _ => r
  | .resetPeer r _ => r
  | .reconfigure r _ => r
  | .takeCommittedLog r => r

def after : RaftCall Hash → Raft Hash
  | .timerTick r o => r.timerTick o
  | .logRequest r o e => (r.logRequest o e).1
  | .relinquishLeadership r o => r.relinquishLeadership o
  | .receive r o msg src => r.receive o msg src
  | .resetPeer r id => r.resetPeer id
  | .reconfigure r config => r.reconfigure config
  | .takeCommittedLog r => r.takeCommittedLog.1

/-- A call of the replica is a sequence of changes, unless it takes a committed entry. -/
theorem changes {P : Nat → Inner → Prop} (call : RaftCall Hash) (hP : ∀ i, P i .notSet)
    (hlog : ∀ r o e, call = .logRequest r o e → r.checkLogRequest e = .ok →
      P r.log.nextIdx e.inner)
    (hreceive : ∀ r o msg src, call = .receive r o msg src →
      ∀ i e, msg.Carries i e → P i e.inner)
    (htake : ∀ r, call ≠ .takeCommittedLog r) : Raft.Changes P call.before call.after := by
  cases call with
  | timerTick r o => exact r.changes_timerTick o hP
  | logRequest r o e => exact r.changes_logRequest o e hP (hlog r o e rfl)
  | relinquishLeadership r o => exact r.changes_relinquishLeadership o hP
  | receive r o msg src => exact r.changes_receive o msg src hP (hreceive r o msg src rfl)
  | resetPeer r id => exact r.changes_resetPeer id
  | reconfigure r config => exact r.changes_reconfigure config
  | takeCommittedLog r => exact absurd rfl (htake r)

end RaftCall

variable [Database DB] [PushSize Hash]

abbrev UntrustedMessage.e2e (src : PeerId) (msg : E2EMessage Hash) : UntrustedMessage Hash DB :=
  .peerMessage src (.data msg)

/-- What the core asks its replica, or the leader, to log while it handles `m`; `s` is the core when
    it began. -/
inductive Asked (s c : Core Hash DB) (o : CoreOracle) (m : UntrustedMessage Hash DB)
    (r : Raft Hash) : Inner → Prop where
  | client (tx : TransactionID) (clientId : Nat) (request : Database.Request DB)
      (hm : m = .h2eRequest tx (.existingClient clientId (.ok request))) (client : Client)
      (hclient : c.clients.find? clientId = some client) (log : Database.ClientLog DB)
      (hlog : @Database.logPBFromRequest DB _ request client.authenticatedId o.newKey = .ok log)
      (hvalid : Database.validateClientLog log = .ok) :
      Asked s c o m r (.data ((@Database.wireLog DB _).serialize log))
  | database (tx : TransactionID) (authenticatedId : Bytes) (request : Database.Request DB)
      (hm : m = .h2eRequest tx (.databaseRequest authenticatedId (some request)))
      (log : Database.ClientLog DB)
      (hlog : @Database.logPBFromRequest DB _ request authenticatedId o.newKey = .ok log) :
      Asked s c o m r (.data ((@Database.wireLog DB _).serialize log))
  | minimums (tx : TransactionID) (update : MinimumLimits)
      (hm : m = .h2eRequest tx (.updateMinimums update)) (hstart : Quiet s c)
      (hok : (Minimums.updateLimits c.minimums update).2 = .ok) : Asked s c o m r (.minimums update)
  | write (src : PeerId) (id : TransactionID) (entry : LogEntry Hash)
      (hm : m = .e2e src (.transactionRequest id (.raftWrite entry))) : Asked s c o m r entry.inner
  | addMember (src : PeerId) (id : TransactionID)
      (hm : m = .e2e src (.transactionRequest id .raftMembershipRequest)) :
      Asked s c o m r (.membershipChange (r.membership.asProto ++ [⟨some src, false⟩]))
  | addVoter (src : PeerId) (id : TransactionID)
      (hm : m = .e2e src (.transactionRequest id .raftVotingRequest)) (hstart : Quiet s c) :
      Asked s c o m r (.membershipChange (Core.setVoting r.membership.asProto src true))
  | removeMember (src : PeerId) (id : TransactionID)
      (hm : m = .e2e src (.transactionRequest id .raftRemovalRequest)) :
      Asked s c o m r
        (.membershipChange (r.membership.asProto.filter fun replica => replica.peerId ≠ some src))
  | heal (time : Nat) (hm : m = .timerTick time) (g : ReplicaGroup)
      (hnext : c.nextReplicaGroup r = some g) : Asked s c o m r (.membershipChange g)

def RaftCall.Why (s c : Core Hash DB) (o : CoreOracle) (m : UntrustedMessage Hash DB) :
    RaftCall Hash → Prop
  | .timerTick _ o' => (∃ time, m = .timerTick time) ∧ o' = o.raft 0
  | .logRequest r o' e => Asked s c o m r e.inner ∧ (o' = o.raft 0 ∨ o' = o.raft 1)
  | .relinquishLeadership _ o' => (∃ tx, m = .h2eRequest tx .relinquishLeadership) ∧ o' = o.raft 0
  | .receive _ o' msg src => m = .e2e src (.raftMessage msg) ∧ o' = o.raft 0
  | .resetPeer _ id => ∃ msg, m = .peerMessage id msg
  | .reconfigure _ config => config = c.enclaveConfig.raft.toRaftConfig
  | .takeCommittedLog _ => False

/-- A callback waits for the response to a transaction. -/
def Core.Awaits (c : Core Hash DB) (id : TransactionID) (callback : E2ECallback Hash) : Prop :=
  ∃ t ∈ c.outstandingE2ETransactions, t.1 = id ∧ t.2.callback = callback

/-- Why a log transaction is registered for a place in the log, other than that the entry was just
    logged there: the replica has just relinquished its leadership, or a response has come. -/
inductive Placed (s c : Core Hash DB) (m : UntrustedMessage Hash DB) :
    LogLocation Hash → LogTransactionCallback Hash → Prop where
  | relinquished (r : Raft Hash) (hr : c.raft.loaded.raft = some r) (tx : TransactionID) :
      Placed s c m { idx := r.log.nextIdx, term := r.log.lastTerm + 1 } (.reply tx)
  | answered (src : PeerId) (id : TransactionID) (resp : TransactionResponse Hash)
      (hm : m = .e2e src (.transactionResponse id resp)) (loc : LogLocation Hash)
      (cb : LogTransactionCallback Hash)
      (hstart : Quiet s c) (hstatus : resp.statusOf = .ok)
      (hloc : resp = .raftWrite loc ∧ s.Awaits id (.raftWrite cb) ∨
        (resp = .raftMembershipResponse loc ∨
          (∀ loc, resp ≠ .raftMembershipResponse loc) ∧ loc = {}) ∧
          ∃ tx cancel, cb = .requestMembership tx cancel ∧ s.Awaits id (.requestMembership tx cancel)) :
      Placed s c m loc cb

/-- The push state whose pushes a message makes the core send: that of a new replication, or that of
    the push to which the message is the response. -/
def Core.serving (c : Core Hash DB) : UntrustedMessage Hash DB → Option Nat
  | .peerMessage _ (.data (.transactionRequest _ (.replicateState _ _))) => some c.pushStates.length
  | .peerMessage _ (.data (.transactionResponse id _)) =>
    (c.outstandingE2ETransactions.find? fun t => t.1 = id).bind fun t =>
      match t.2.callback with
      | .sendNextReplicationState k _ => some k
      | _ => none
  | _ => none

inductive CoreMove (s : Core Hash DB) (o : CoreOracle) (m : UntrustedMessage Hash DB) :
    Core Hash DB → Core Hash DB → Prop where
  | quiet {c c' : Core Hash DB} (h : Quiet c c') : CoreMove s o m c c'
  | call {c : Core Hash DB} (call : RaftCall Hash) (hr : c.raft.loaded.raft = some call.before)
      (hstate : c.raft.state = .loadedPartOfGroup ∨ c.raft.state = .loadedRequestingMembership)
      (hwhy : call.Why s c o m) : CoreMove s o m c (c.called call call.after)
  | log {c : Core Hash DB} (r r' : Raft Hash) (e : LogEntry Hash) (loc : LogLocation Hash)
      (cb : LogTransactionCallback Hash) (hr : c.raft.loaded.raft = some r)
      (hstate : c.raft.state = .loadedPartOfGroup) (hasked : Asked s c o m r e.inner)
      (hok : r.logRequest (o.raft 0) e = (r', loc, .ok))
      (hcb : ∀ clientId tx entry, cb = .client clientId tx entry → entry = e) :
      CoreMove s o m c ((c.called (.logRequest r (o.raft 0) e) r').addLogTransaction loc cb)
  | register {c : Core Hash DB} (loc : LogLocation Hash) (cb : LogTransactionCallback Hash)
      (hwhy : Placed s c m loc cb) : CoreMove s o m c (c.addLogTransaction loc cb)
  | sendMessages {c : Core Hash DB} : CoreMove s o m c c.raftSendMessages
  | applyLog {c : Core Hash DB} (r : Raft Hash) (hr : c.raft.loaded.raft = some r)
      (hidx : r.takeCommittedLog.2.1 ≠ 0) :
      CoreMove s o m c ((c.called (.takeCommittedLog r) r.takeCommittedLog.1).raftHandleCommittedLog o
        r.takeCommittedLog.2.1 r.takeCommittedLog.2.2)
  | push {c : Core Hash DB} (k : Nat) (hserving : s.serving m = some k) (hstart : Quiet s c)
      (ps : ReplicationPushState) (hps : c.pushStates[k]? = some ps) (hsent : ps.sentResponse = false)
      (hfinished : ps.finishedSending = false) : CoreMove s o m c (c.sendNextReplicationState o k)
  | serve {c : Core Hash DB} (src : PeerId) (id : TransactionID) (groupId replicationId : Nat)
      (hm : m = .e2e src (.transactionRequest id (.replicateState groupId replicationId)))
      (hstart : Quiet s c) (r : Raft Hash) (hr : c.raft.loaded.raft = some r)
      (hstate : c.raft.state = .loadedPartOfGroup) :
      CoreMove s o m c (Core.startPipeline o c.pushStates.length
        c.enclaveConfig.raft.replicationPipeline
        { c with pushStates := c.pushStates ++
          [{ logsFromIdxInclusive := r.log.oldestStored
             target := src
             tx := id
             replicationId := replicationId }] })
  | forward {c : Core Hash DB} (r : Raft Hash) (hr : c.raft.loaded.raft = some r) (dst : PeerId)
      (entry : LogEntry Hash) (hasked : Asked s c o m r entry.inner) (cb : LogTransactionCallback Hash)
      (hcb : ∀ clientId tx e, cb = .client clientId tx e → e = entry) :
      CoreMove s o m c (c.sendE2ETransaction o dst (.raftWrite entry) true (.raftWrite cb))
  | tellGroup {c : Core Hash DB} (r : Raft Hash) (hr : c.raft.loaded.raft = some r)
      (hstate : c.raft.state = .loadedPartOfGroup) (dst : PeerId) (id : TransactionID) :
      CoreMove s o m c (c.sendToPeer dst (.transactionResponse id
        (.getRaft c.raft.loaded.groupConfig r.membership.asProto))).1
  | tellPlace {c : Core Hash DB} (r : Raft Hash) (o' : Oracle) (e : LogEntry Hash)
      (loc : LogLocation Hash) (hcall : .logRequest r o' e ∈ c.calls)
      (hok : (r.logRequest o' e).2 = (loc, .ok)) (dst : PeerId) (id : TransactionID)
      (resp : TransactionResponse Hash) (hid : ∃ req, m = .e2e dst (.transactionRequest id req))
      (hresp : resp = .raftMembershipResponse loc ∨ resp = .raftVotingResponse loc ∨
        resp = .raftWrite loc ∧ m = .e2e dst (.transactionRequest id (.raftWrite e))) :
      CoreMove s o m c (c.sendToPeer dst (.transactionResponse id resp)).1
  | load {c : Core Hash DB} (src : PeerId) (id : TransactionID) (push : ReplicateStatePush Hash)
      (hm : m = .e2e src (.transactionRequest id (.replicateStatePush push)))
      (hstart : Quiet s c) (hstate : c.raft.state = .loading) (b : Bool) :
      CoreMove s o m c ((c.setLoading (c.raft.loading.handleReplicateStatePush push).1).check b)
  | replicate {c : Core Hash DB} (hstate : c.raft.state = .loading) :
      CoreMove s o m c
        (c.setLoading { c.raft.loading with started := true, replicationId := o.randomBytes })
  | wait {c : Core Hash DB} (tx : TransactionID) (peer : PeerId)
      (hm : m = .h2eRequest tx (.joinRaft (some peer))) (hstart : Quiet s c)
      (hstate : c.raft.state ≠ .loadedPartOfGroup) :
      CoreMove s o m c { c with raft :=
        { state := .waitingForFirstConnection
          waitingForFirstConnection := { peer := peer, joinTx := tx } } }
  | startLoading {c : Core Hash DB} (src : PeerId) (id : TransactionID)
      (groupConfig : RaftGroupConfig) (replicaGroup : ReplicaGroup) (mem : Membership)
      (peer : PeerId) (tx : TransactionID)
      (hm : m = .e2e src (.transactionResponse id (.getRaft groupConfig replicaGroup)))
      (hstart : Quiet s c) (hstate : c.raft.state = .waitingForFirstConnection)
      (hconfig : raftGroupConfigsEqualExceptForGroupID c.raftConfigTemplate groupConfig = true)
      (hmem : Membership.fromProto replicaGroup = .ok mem) :
      CoreMove s o m c { c with raft :=
        { state := .loading
          loading :=
            { groupConfig := groupConfig
              replicaGroup := replicaGroup
              log := some (Log.new c.enclaveConfig.raft.logMaxBytes)
              db := some Database.newDB
              mem := some mem
              loadFrom := peer
              joinTx := tx } } }
  | failPromotion {c : Core Hash DB} :
      CoreMove s o m c { c with promotions := c.promotions ++ [c.raft] }.abort
  | promote {c : Core Hash DB} (src : PeerId) (id : TransactionID) (resp : TransactionResponse Hash)
      (hm : m = .e2e src (.transactionResponse id resp)) (loadFrom : PeerId) (tx : TransactionID)
      (hawaits : s.Awaits id (.requestRaftReplication loadFrom tx)) (hstart : Quiet s c)
      (log : Log Hash) (mem : Membership) (hlog : c.raft.loading.log = some log)
      (hmem : c.raft.loading.mem = some mem) :
      CoreMove s o m c ({ c with promotions := c.promotions ++ [c.raft] }.promoted o log mem)
  | create {c : Core Hash DB} (tx : TransactionID) (hm : m = .h2eRequest tx .createNewRaftGroup)
      (hstart : Quiet s c) : CoreMove s o m c (c.created o)
  | reconfigure {c : Core Hash DB} (config : EnclaveConfig) :
      CoreMove s o m c { c with enclaveConfig := config }

def CoreMoves (s : Core Hash DB) (o : CoreOracle) (m : UntrustedMessage Hash DB) :
    Core Hash DB → Core Hash DB → Prop :=
  ReflTransGen (CoreMove s o m)

section

variable {s : Core Hash DB} {o : CoreOracle} {m : UntrustedMessage Hash DB}

theorem CoreMoves.refl (c : Core Hash DB) : CoreMoves s o m c c := ReflTransGen.refl

theorem CoreMoves.single {c c' : Core Hash DB} (h : CoreMove s o m c c') : CoreMoves s o m c c' :=
  ReflTransGen.single h

theorem CoreMoves.quiet {c c' : Core Hash DB} (h : Quiet c c') : CoreMoves s o m c c' := .single (.quiet h)

theorem CoreMoves.still {c c' : Core Hash DB} (h : Still c c') : CoreMoves s o m c c' := .quiet h.toSends

theorem CoreMoves.trans {a b c : Core Hash DB} (h : CoreMoves s o m a b) (h' : CoreMoves s o m b c) :
    CoreMoves s o m a c :=
  ReflTransGen.trans h h'

end

namespace Core

variable (c : Core Hash DB) {s : Core Hash DB} {o : CoreOracle} {m : UntrustedMessage Hash DB}

/-! ### Steps of Raft -/

theorem moves_raftHandleCommittedLogsLoop (n : Nat) :
    CoreMoves s o m c (raftHandleCommittedLogsLoop o n c) := by
  induction n generalizing c with
  | zero => exact .refl c
  | succ n ih =>
    rw [raftHandleCommittedLogsLoop]
    split
    · exact .still c.calm_abort
    · rename_i r hr
      dsimp only
      split_ifs with hidx
      · exact .refl c
      · exact (CoreMoves.single (.applyLog r hr hidx)).trans (ih _)

theorem moves_raftHandleCommittedLogs : CoreMoves s o m c (c.raftHandleCommittedLogs o) := by
  rw [raftHandleCommittedLogs]
  split
  · exact .still (calm_abort _)
  · exact moves_raftHandleCommittedLogsLoop _ _

theorem moves_raftStep : CoreMoves s o m c (c.raftStep o) := by
  rw [raftStep]
  refine CoreMoves.trans ?_ (moves_raftHandleCommittedLogs _)
  refine CoreMoves.trans ?_ (.single .sendMessages)
  exact .still (c.calm_check _)

/-! ### Transactions and joining -/

theorem moves_handleReplicateStateRequest {src : PeerId} {id : TransactionID}
    {groupId replicationId : Nat}
    (hm : m = .e2e src (.transactionRequest id (.replicateState groupId replicationId)))
    (hs : Quiet s c) :
    CoreMoves s o m c (c.handleReplicateStateRequest o src id groupId replicationId).1 := by
  rw [handleReplicateStateRequest]
  split_ifs with hstate
  · exact .still (c.calm_sendE2EError ..)
  · split
    · exact .still c.calm_abort
    · rename_i r hr
      split_ifs
      · exact .still (c.calm_sendE2EError ..)
      · exact .single (.serve src id groupId replicationId hm hs r hr (not_not.mp hstate))

theorem moves_promoteRaftToLoaded {src : PeerId} {id : TransactionID}
    {resp : TransactionResponse Hash} (hm : m = .e2e src (.transactionResponse id resp))
    {loadFrom : PeerId} {tx : TransactionID}
    (hawaits : s.Awaits id (.requestRaftReplication loadFrom tx)) (hs : Quiet s c) :
    CoreMoves s o m c (c.promoteRaftToLoaded o) := by
  rw [promoteRaftToLoaded]
  dsimp only
  split
  · rename_i log mem hlog hmem
    refine CoreMoves.trans ?_ (.quiet (quiet_raftRequestMembership ..))
    exact .single (.promote src id resp hm loadFrom tx hawaits hs log mem hlog hmem)
  · exact .single .failPromotion

theorem moves_requestRaftReplication : CoreMoves s o m c (c.requestRaftReplication o) := by
  rw [requestRaftReplication]
  split_ifs with hstate
  · exact .refl c
  · split
    · exact .still c.calm_abort
    · dsimp only
      split_ifs
      · exact .refl c
      · refine (CoreMoves.single (.replicate (not_not.mp hstate))).trans ?_
        exact .quiet (sends_sendE2ETransaction _ o (.inl (by trivial)) _ _)

theorem moves_gotRaft (src : PeerId) (id : TransactionID) {groupConfig : RaftGroupConfig}
    {replicaGroup : ReplicaGroup} (tx : TransactionID) (peer : PeerId)
    (hm : replicaGroup = [] ∨
      m = .e2e src (.transactionResponse id (.getRaft groupConfig replicaGroup))) (hs : Quiet s c) :
    CoreMoves s o m c (c.gotRaft o tx peer groupConfig replicaGroup) := by
  rw [gotRaft]
  split_ifs with hstate hconfig hempty
  · exact .quiet (c.quiet_replyWithError ..)
  · exact .quiet (c.quiet_replyWithError ..)
  · exact .quiet (c.quiet_replyWithError ..)
  · split
    · exact .quiet (c.quiet_replyWithError ..)
    · rename_i mem hmem
      have hquiet := (c.calm_connectToReplicas o replicaGroup).toSends
      split
      · rename_i c' heq
        rw [heq] at hquiet
        refine (CoreMoves.quiet hquiet).trans (.trans (.single (.startLoading src id groupConfig
          replicaGroup mem peer tx (hm.resolve_left hempty) (hs.trans hquiet) ?_ ?_ hmem)) ?_)
        · rw [hquiet.raft]
          exact not_not.mp hstate
        · rw [hquiet.template]
          simpa using hconfig
        · dsimp only
          split
          · exact moves_requestRaftReplication _
          · exact .quiet (quiet_replyWithError ..)
      · rename_i c' err _ heq
        rw [heq] at hquiet
        exact .quiet (hquiet.trans (quiet_replyWithError ..))

theorem moves_e2eCallback {src : PeerId} {id : TransactionID} {resp : TransactionResponse Hash}
    (hm : m = .e2e src (.transactionResponse id resp)) {callback : E2ECallback Hash}
    (hawaits : s.Awaits id callback)
    (hserving : ∀ k last, callback = .sendNextReplicationState k last → s.serving m = some k)
    (hs : Quiet s c) : CoreMoves s o m c (c.e2eCallback o resp callback) := by
  rw [e2eCallback.eq_def]
  split
  · rename_i hstatus
    cases callback with
    | reply tx => exact .quiet (c.quiet_replyWithError tx _)
    | joinRaftFromFirstPeer tx peer =>
      dsimp only
      split
      · exact c.moves_gotRaft src id tx peer (.inr hm) hs
      · exact c.moves_gotRaft src id tx peer (.inl rfl) hs
    | requestRaftReplication _ _ => exact c.moves_promoteRaftToLoaded hm hawaits hs
    | requestMembership tx cancel =>
      dsimp only
      split
      · exact .single (.register _ _ (.answered src id _ hm _ _ hs hstatus
          (.inr ⟨.inl rfl, tx, cancel, rfl, hawaits⟩)))
      · rename_i hother
        exact .single (.register _ _ (.answered src id _ hm _ _ hs hstatus
          (.inr ⟨.inr ⟨hother, rfl⟩, tx, cancel, rfl, hawaits⟩)))
    | sendNextReplicationState k last =>
      dsimp only
      split
      · exact .still c.calm_abort
      · rename_i ps hps
        split_ifs with hsent hlast hfinished
        · exact .refl c
        · exact .still ((c.calm_setSentResponse hps).trans (calm_sendE2EError ..))
        · exact .refl c
        · exact .single (.push k (hserving k last rfl) hs ps hps (by simpa using hsent)
            (by simpa using hfinished))
    | raftWrite cb =>
      dsimp only
      split
      · exact .single (.register _ _ (.answered src id _ hm _ _ hs hstatus (.inl ⟨rfl, hawaits⟩)))
      · exact .quiet (c.quiet_logTransactionCallback ..)
    | sendTimestamp => exact .refl c
  · exact .quiet (c.quiet_e2eCallbackError ..)

theorem moves_handleE2EResponse {src : PeerId} {id : TransactionID} {resp : TransactionResponse Hash}
    (hm : m = .e2e src (.transactionResponse id resp)) (hs : Still s c) :
    CoreMoves s o m c (c.handleE2EResponse o id resp) := by
  rw [handleE2EResponse]
  split
  · exact .refl c
  · rename_i t ht
    have hawaits : s.Awaits id t.2.callback :=
      ⟨t, hs.e2eTransactions ▸ List.mem_of_find?_eq_some ht, by simpa using List.find?_some ht, rfl⟩
    have hserving : ∀ k last, t.2.callback = .sendNextReplicationState k last →
        s.serving m = some k := by
      intro k last hcallback
      rw [hs.e2eTransactions] at ht
      simp only [hm, serving, ht, Option.bind_some, hcallback]
    have htaken : Quiet c ({ c with outstandingE2ETransactions :=
        c.outstandingE2ETransactions.filter fun t => t.1 ≠ id }.cancelTimeout t.2.timeoutCancel) :=
      (c.quiet_rest ..).trans (quiet_cancelTimeout ..)
    exact (CoreMoves.quiet htaken).trans (moves_e2eCallback _ hm hawaits hserving
      (hs.toSends.trans htaken))

/-! ### Requests of the host -/

theorem moves_logRequest_fst {r : Raft Hash} {o' : Oracle} {e : LogEntry Hash}
    (hr : c.raft.loaded.raft = some r) (hstate : c.raft.state = .loadedPartOfGroup)
    (hasked : Asked s c o m r e.inner) (ho' : o' = o.raft 0 ∨ o' = o.raft 1) :
    CoreMoves s o m c (c.called (.logRequest r o' e) (r.logRequest o' e).1) :=
  .single (.call (.logRequest r o' e) hr (.inl hstate) ⟨hasked, ho'⟩)

theorem moves_logRequest {r r' : Raft Hash} {o' : Oracle} {e : LogEntry Hash}
    {loc : LogLocation Hash} {err : Error} (hr : c.raft.loaded.raft = some r)
    (hstate : c.raft.state = .loadedPartOfGroup) (hasked : Asked s c o m r e.inner)
    (ho' : o' = o.raft 0 ∨ o' = o.raft 1) (heq : r.logRequest o' e = (r', loc, err)) :
    CoreMoves s o m c (c.called (.logRequest r o' e) r') := by
  have h := c.moves_logRequest_fst (s := s) hr hstate hasked ho'
  rw [heq] at h
  exact h

theorem moves_logRequest_register {r r' : Raft Hash} {e : LogEntry Hash} {loc : LogLocation Hash}
    (hr : c.raft.loaded.raft = some r) (hstate : c.raft.state = .loadedPartOfGroup)
    (hasked : Asked s c o m r e.inner) (heq : r.logRequest (o.raft 0) e = (r', loc, .ok))
    (cb : LogTransactionCallback Hash)
    (hcb : ∀ clientId tx entry, cb = .client clientId tx entry → entry = e) :
    CoreMoves s o m c
      (((c.called (.logRequest r (o.raft 0) e) r').addLogTransaction loc cb).raftStep o) := by
  refine CoreMoves.trans ?_ (moves_raftStep _)
  exact .single (.log r r' e loc cb hr hstate hasked heq hcb)

theorem moves_raftWriteLogTransaction (entry : LogEntry Hash) (cb : LogTransactionCallback Hash)
    (hasked : ∀ r, c.raft.loaded.raft = some r → Asked s c o m r entry.inner)
    (hcb : ∀ clientId tx e, cb = .client clientId tx e → e = entry) :
    CoreMoves s o m c (c.raftWriteLogTransaction o entry cb).1 := by
  rw [raftWriteLogTransaction]
  split_ifs with hstate
  · exact .refl c
  · split
    · exact .still c.calm_abort
    · rename_i r hr
      rw [ne_eq, not_not] at hstate
      split_ifs
      · exact .refl c
      · split
        · rename_i r' loc heq
          exact c.moves_logRequest_register hr hstate (hasked r hr) heq cb hcb
        · rename_i r' loc err _ heq
          exact c.moves_logRequest hr hstate (hasked r hr) (.inl rfl) heq
      · split
        · exact .single (.forward r hr _ entry (hasked r hr) cb hcb)
        · exact .refl c

theorem moves_handleExistingClient {tx : TransactionID} {clientId : Nat}
    {data : Except Error (Database.Request DB)}
    (hm : m = .h2eRequest tx (.existingClient clientId data)) :
    CoreMoves s o m c (c.handleExistingClient o clientId data tx).1 := by
  rw [handleExistingClient]
  split
  · exact .refl c
  · rename_i client hclient
    split_ifs
    · split
      · exact .quiet (Sends.trans (c.quiet_rest ..) (sends_send _ trivial))
      · exact .refl c
    · split
      · exact .refl c
      · rename_i request
        split
        · exact .refl c
        · rename_i log hlog
          split
          · rename_i hvalid
            refine c.moves_raftWriteLogTransaction _ _
              (fun r _ => .client tx clientId request hm client hclient log hlog hvalid) ?_
            rintro _ _ _ ⟨⟩
            rfl
          · exact .refl c

theorem moves_handleCreateNewRaftGroupRequest {tx : TransactionID}
    (hm : m = .h2eRequest tx .createNewRaftGroup) (hs : Quiet s c) :
    CoreMoves s o m c (c.handleCreateNewRaftGroupRequest o tx) := by
  rw [handleCreateNewRaftGroupRequest]
  refine CoreMoves.trans ?_ (.quiet (quiet_replyWithError ..))
  refine CoreMoves.trans ?_ (moves_raftStep _)
  have h : ∀ (c : Core Hash DB) (b : Prop) [Decidable b] (err : Error),
      Quiet c (if b then c.replyWithError tx err else c) := by
    intro c b _ err
    split_ifs
    · exact c.quiet_replyWithError tx err
    · exact .refl c
  have hcreate : ∀ {c' : Core Hash DB}, Quiet c c' → CoreMoves s o m c (c'.created o) := fun hq =>
    (CoreMoves.quiet hq).trans (.single (.create tx hm (hs.trans hq)))
  exact hcreate ((h c _ _).trans (h _ _ _))

theorem moves_handleJoinRaft {tx : TransactionID} {peerId : Option PeerId}
    (hm : m = .h2eRequest tx (.joinRaft peerId)) (hs : Quiet s c) :
    CoreMoves s o m c (c.handleJoinRaft o peerId tx) := by
  rw [handleJoinRaft.eq_def]
  split_ifs with hstate
  · exact .quiet (c.quiet_replyWithError ..)
  · split
    · exact .quiet (c.quiet_replyWithError ..)
    · rename_i peer
      dsimp only
      have hwait := CoreMoves.single (.wait (o := o) tx peer hm hs hstate)
      split
      · exact hwait.trans (.quiet (quiet_joinRaftFromFirstPeer _ o))
      · exact hwait
      · exact hwait.trans (.still (calm_connectToPeer _ o peer))

theorem moves_handleHostDatabaseRequest {tx : TransactionID} {authenticatedId : Bytes}
    {request : Option (Database.Request DB)}
    (hm : m = .h2eRequest tx (.databaseRequest authenticatedId request)) :
    CoreMoves s o m c (c.handleHostDatabaseRequest o tx authenticatedId request).1 := by
  rw [handleHostDatabaseRequest.eq_def]
  split
  · exact .refl c
  · rename_i request
    split
    · exact .refl c
    · rename_i log hlog
      exact c.moves_raftWriteLogTransaction _ _
        (fun r _ => .database tx authenticatedId request hm log hlog) (by simp)

theorem moves_handleReconfigure (req : EnclaveConfig) : CoreMoves s o m c (c.handleReconfigure req).1 := by
  rw [handleReconfigure]
  dsimp only
  split
  · have hconfig : CoreMoves s o m c { c with enclaveConfig := defaultEnclaveConfig.mergeFrom req } :=
      .single (.reconfigure _)
    split
    · rename_i r hstate hr
      exact hconfig.trans (.single (.call (.reconfigure r _) hr (.inl hstate) rfl))
    · rename_i r hstate hr
      exact hconfig.trans (.single (.call (.reconfigure r _) hr (.inr hstate) rfl))
    · exact hconfig.trans (.still (calm_abort _))
    · exact hconfig.trans (.still (calm_abort _))
    · exact hconfig
  · exact .refl c

theorem moves_handleRelinquishLeadership {tx : TransactionID}
    (hm : m = .h2eRequest tx .relinquishLeadership) :
    CoreMoves s o m c (c.handleRelinquishLeadership o tx) := by
  rw [handleRelinquishLeadership]
  split_ifs with hstate
  · exact .quiet (c.quiet_replyWithError ..)
  · split
    · exact .still c.calm_abort
    · rename_i r hr
      split_ifs
      · exact .quiet (c.quiet_replyWithError ..)
      · refine CoreMoves.trans ?_ (moves_raftStep _)
        refine CoreMoves.trans (.single (.call (.relinquishLeadership r (o.raft 0)) hr
          (.inl (not_not.mp hstate)) ⟨⟨tx, hm⟩, rfl⟩)) (.single (.register _ _ ?_))
        exact .relinquished _ rfl tx

theorem moves_handleUpdateMinimums {tx : TransactionID} {update : MinimumLimits}
    (hm : m = .h2eRequest tx (.updateMinimums update)) (hs : Quiet s c) :
    CoreMoves s o m c (c.handleUpdateMinimums o tx update) := by
  rw [handleUpdateMinimums]
  split
  · rename_i toCheck hupdate
    split
    · have hwrite : CoreMoves s o m c (c.raftWriteLogTransaction o
          { LogEntry.default with inner := .minimums update } (.reply tx)).1 :=
        c.moves_raftWriteLogTransaction _ _
          (fun r _ => .minimums tx update hm hs (by rw [hupdate])) (by simp)
      dsimp only
      split
      · rename_i c' heq
        rw [heq] at hwrite
        exact hwrite
      · rename_i c' err _ heq
        rw [heq] at hwrite
        exact hwrite.trans (.quiet (quiet_replyWithError ..))
    · exact .quiet (c.quiet_replyWithError ..)
  · exact .quiet (c.quiet_replyWithError ..)

theorem moves_handleHostToEnclave {tx : TransactionID} {req : HostRequest DB}
    (hm : m = .h2eRequest tx req) (hs : Quiet s c) :
    CoreMoves s o m c (c.handleHostToEnclave o tx req).1 := by
  rw [handleHostToEnclave.eq_def]
  split_ifs
  · exact .refl c
  · cases req with
    | newClient authenticatedId => exact .quiet (c.quiet_handleNewClient o ..)
    | existingClient clientId data =>
      have h := c.moves_handleExistingClient (s := s) (o := o) hm
      dsimp only
      split
      · rename_i c' heq
        rw [heq] at h
        exact h
      · rename_i c' err _ heq
        rw [heq] at h
        exact h.trans (.quiet ((calm_removeClient ..).toSends.trans (quiet_replyWithError ..)))
    | closeClient clientId =>
      exact .quiet ((c.calm_removeClient ..).toSends.trans (quiet_replyWithError ..))
    | createNewRaftGroup => exact c.moves_handleCreateNewRaftGroupRequest hm hs
    | joinRaft peerId => exact c.moves_handleJoinRaft hm hs
    | pingPeer peerId =>
      cases peerId with
      | none => exact .quiet (c.quiet_replyWithError ..)
      | some peer => exact .quiet (c.quiet_pingPeer o peer tx)
    | refreshAttestation rotate =>
      exact .quiet ((c.calm_peerManagerRefreshAttestation o).toSends.trans (quiet_replyWithError ..))
    | requestVoting => exact .quiet (c.quiet_askLeader o tx _ _ trivial)
    | getEnclaveStatus => exact .quiet (c.sends_send trivial)
    | metrics => exact .quiet (c.sends_send trivial)
    | databaseRequest authenticatedId request =>
      exact c.moves_handleHostDatabaseRequest hm
    | reconfigure config =>
      exact (c.moves_handleReconfigure config).trans (.quiet (quiet_replyWithError ..))
    | setLogLevel level => exact .quiet (c.quiet_replyWithError ..)
    | relinquishLeadership => exact c.moves_handleRelinquishLeadership hm
    | requestRemoval => exact .quiet (c.quiet_askLeader o tx _ _ trivial)
    | hashes =>
      have h := c.quiet_handleHostHashes tx
      dsimp only
      split
      · rename_i c' heq
        rw [heq] at h
        exact .quiet h
      · rename_i c' err _ heq
        rw [heq] at h
        exact .quiet (h.trans (quiet_replyWithError ..))
    | resetPeerId id =>
      cases id with
      | none => exact .refl c
      | some id => exact .quiet ((c.quiet_resetPeer o id).trans (quiet_replyWithError ..))
    | updateMinimums update => exact c.moves_handleUpdateMinimums hm hs
    | notSet => exact .refl c

/-! ### Ticks -/

theorem moves_raftTimerTick {time : Nat} {r : Raft Hash} (hm : m = .timerTick time)
    (hr : c.raft.loaded.raft = some r) (hstate : c.raft.state = .loadedPartOfGroup) :
    CoreMoves s o m c (c.raftTimerTick o r) := by
  rw [raftTimerTick]
  refine CoreMoves.trans ?_ (moves_raftStep _)
  refine CoreMoves.trans (.single (.call (.timerTick r (o.raft 0)) hr (.inl hstate) ⟨⟨time, hm⟩, rfl⟩)) ?_
  dsimp only
  split
  · rename_i group hnext
    refine moves_logRequest_fst _ rfl hstate (.heal time hm group ?_) (.inr rfl)
    split_ifs at hnext
    exact hnext
  · exact .refl _

theorem moves_handleTimerTick {time : Nat} (hm : m = .timerTick time) :
    CoreMoves s o m c (c.handleTimerTick o time) := by
  have h : Quiet c (({ c with localTime := time }.maybeUpdateGroupTime o).timeoutTimerTick o) := by
    refine Sends.trans ?_ (quiet_timeoutTimerTick _ o)
    exact Sends.trans (c.quiet_rest ..) (calm_maybeUpdateGroupTime _ o).toSends
  rw [handleTimerTick]
  refine (CoreMoves.quiet h).trans ?_
  split_ifs with hstate
  · exact .refl _
  · split
    · exact .still (calm_abort _)
    · rename_i r hr
      have hconnect := calm_connectToRaftMembers
        (({ c with localTime := time }.maybeUpdateGroupTime o).timeoutTimerTick o) o r
      refine (CoreMoves.still hconnect).trans (moves_raftTimerTick _ hm ?_ ?_)
      · rw [hconnect.raft, hr]
      · rw [hconnect.raft, not_not.mp hstate]

end Core

omit [DecidableEq Hash] [Platform Hash] [PushSize Hash] in
theorem RaftCall.Why.ne_takeCommittedLog {s c : Core Hash DB} {o : CoreOracle}
    {m : UntrustedMessage Hash DB} {call : RaftCall Hash} (h : call.Why s c o m) (r : Raft Hash) :
    call ≠ .takeCommittedLog r := by
  rintro rfl
  exact h

theorem CoreMove.aborted {s c c' : Core Hash DB} {o : CoreOracle} {m : UntrustedMessage Hash DB}
    (h : CoreMove s o m c c') (hc : c.aborted = true) : c'.aborted = true := by
  have of_or : ∀ b, (c.aborted || b) = true := fun b => by rw [hc, Bool.true_or]
  cases h with
  | quiet h => exact h.aborted hc
  | call call => exact of_or _
  | log => exact of_or _
  | sendMessages =>
    cases hr : c.raft.loaded.raft with
    | none =>
      rw [Core.raftSendMessages, hr]
      exact c.aborted_abort
    | some r => exact (c.calm_raftSendMessages hr).aborted (of_or _)
  | applyLog r hr hidx => exact (Core.keeps_raftHandleCommittedLog _ o _ _).aborted (of_or _)
  | push k => exact (c.sends_sendNextReplicationState o k).aborted hc
  | serve => exact (Core.sends_startPipeline _ o _ _).aborted hc
  | forward => exact (c.sends_anyE2ETransaction o ..).aborted hc
  | tellGroup => exact (c.calm_sendAnyToPeer ..).aborted hc
  | tellPlace => exact (c.calm_sendAnyToPeer ..).aborted hc
  | load => exact (Core.calm_check _ _).aborted hc
  | failPromotion => exact Core.aborted_abort _
  | promote => exact of_or _
  | create => exact of_or _
  | _ => exact hc

/-! ### Messages from other enclaves -/

theorem CoreMove.calls_subset {s c c' : Core Hash DB} {o : CoreOracle}
    {m : UntrustedMessage Hash DB} (h : CoreMove s o m c c') : c.calls ⊆ c'.calls := by
  have of_eq : ∀ {c'' : Core Hash DB}, c''.calls = c.calls → c.calls ⊆ c''.calls :=
    fun h => h ▸ List.Subset.refl _
  cases h with
  | quiet h => exact of_eq h.calls
  | call => exact List.subset_append_left ..
  | log => exact List.subset_append_left ..
  | sendMessages => exact of_eq c.calls_raftSendMessages
  | applyLog r hr hidx =>
    rw [(Core.keeps_raftHandleCommittedLog _ o _ _).calls]
    exact List.subset_append_left ..
  | push k => exact of_eq (c.sends_sendNextReplicationState o k).calls
  | serve => exact of_eq (Core.sends_startPipeline _ o _ _).calls
  | forward r hr dst entry hasked cb hcb =>
    exact of_eq (c.sends_anyE2ETransaction o ..).calls
  | tellGroup => exact of_eq (c.calm_sendAnyToPeer ..).calls
  | tellPlace => exact of_eq (c.calm_sendAnyToPeer ..).calls
  | _ => exact List.Subset.refl _

theorem CoreMoves.calls_subset {s c c' : Core Hash DB} {o : CoreOracle}
    {m : UntrustedMessage Hash DB} (h : CoreMoves s o m c c') : c.calls ⊆ c'.calls := by
  induction h with
  | refl => exact List.Subset.refl _
  | tail _ h ih => exact List.Subset.trans ih h.calls_subset

namespace Core

variable (c : Core Hash DB) {s : Core Hash DB} {o : CoreOracle} {m : UntrustedMessage Hash DB}

theorem moves_logMembershipChange {src : PeerId} {id : TransactionID} {req : TransactionRequest Hash}
    {r : Raft Hash} {e : LogEntry Hash} {resp : LogLocation Hash → TransactionResponse Hash}
    (hm : m = .e2e src (.transactionRequest id req)) (hr : c.raft.loaded.raft = some r)
    (hstate : c.raft.state = .loadedPartOfGroup) (hasked : Asked s c o m r e.inner)
    (hresp : resp = .raftMembershipResponse ∨ resp = .raftVotingResponse ∨
      resp = .raftWrite ∧ req = .raftWrite e) :
    CoreMoves s o m c (((c.logMembershipChange o r e resp).1).respond src id
      (c.logMembershipChange o r e resp).2.1 (c.logMembershipChange o r e resp).2.2).1 := by
  rw [logMembershipChange]
  split
  · rename_i r' loc heq
    have hlogged := c.moves_logRequest (s := s) hr hstate hasked (.inl rfl) heq
    have hstep := moves_raftStep (s := s) (o := o) (m := m) (c.called (.logRequest r (o.raft 0) e) r')
    have hcall : RaftCall.logRequest r (o.raft 0) e ∈
        ((c.called (.logRequest r (o.raft 0) e) r').raftStep o).calls :=
      hstep.calls_subset (List.mem_append_right _ List.mem_cons_self)
    have hok : (r.logRequest (o.raft 0) e).2 = (loc, .ok) := by rw [heq]
    refine (hlogged.trans hstep).trans ?_
    rcases hresp with rfl | rfl | ⟨rfl, rfl⟩
    · exact .single (.tellPlace r _ e loc hcall hok src id _ ⟨req, hm⟩ (.inl rfl))
    · exact .single (.tellPlace r _ e loc hcall hok src id _ ⟨req, hm⟩ (.inr (.inl rfl)))
    · exact .single (.tellPlace r _ e loc hcall hok src id _ ⟨_, hm⟩ (.inr (.inr ⟨rfl, hm⟩)))
  · rename_i r' loc err _ heq
    exact (c.moves_logRequest hr hstate hasked (.inl rfl) heq).trans
      (.still (calm_respond_error ..))

theorem moves_handleRequestRaftMembership {src : PeerId} {id : TransactionID}
    (hm : m = .e2e src (.transactionRequest id .raftMembershipRequest)) :
    CoreMoves s o m c (((c.handleRequestRaftMembership o src).1).respond src id
      (c.handleRequestRaftMembership o src).2.1 (c.handleRequestRaftMembership o src).2.2).1 := by
  rw [handleRequestRaftMembership]
  split_ifs with hstate
  · exact .still (c.calm_respond_error ..)
  · split
    · exact .still (c.calm_abort.trans (calm_respond_error ..))
    · rename_i r hr
      dsimp only
      split_ifs
      · exact .still (c.calm_respond_error ..)
      · exact c.moves_logMembershipChange hm hr (not_not.mp hstate) (.addMember src id hm) (.inl rfl)

theorem moves_handleRequestRaftVoting {src : PeerId} {id : TransactionID}
    (hm : m = .e2e src (.transactionRequest id .raftVotingRequest)) (hs : Quiet s c) :
    CoreMoves s o m c (((c.handleRequestRaftVoting o src).1).respond src id
      (c.handleRequestRaftVoting o src).2.1 (c.handleRequestRaftVoting o src).2.2).1 := by
  rw [handleRequestRaftVoting]
  split_ifs with hstate
  · exact .still (c.calm_respond_error ..)
  · split
    · exact .still (c.calm_abort.trans (calm_respond_error ..))
    · rename_i r hr
      split_ifs
      · exact .still (c.calm_respond_error ..)
      · exact c.moves_logMembershipChange hm hr (not_not.mp hstate) (.addVoter src id hm hs)
          (.inr (.inl rfl))
      · exact .still (c.calm_respond_error ..)

theorem moves_handleRaftWrite {src : PeerId} {id : TransactionID} {entry : LogEntry Hash}
    (hm : m = .e2e src (.transactionRequest id (.raftWrite entry))) :
    CoreMoves s o m c (((c.handleRaftWrite o entry).1).respond src id
      (c.handleRaftWrite o entry).2.1 (c.handleRaftWrite o entry).2.2).1 := by
  rw [handleRaftWrite]
  split_ifs with hstate
  · exact .still (c.calm_respond_error ..)
  · split
    · exact .still (c.calm_abort.trans (calm_respond_error ..))
    · rename_i r hr
      split_ifs
      · exact .still (c.calm_respond_error ..)
      · exact c.moves_logMembershipChange hm hr (not_not.mp hstate) (.write src id entry hm)
          (.inr (.inr ⟨rfl, rfl⟩))

theorem moves_handlePeerRequestedRaftRemoval {src : PeerId} {id : TransactionID}
    (hm : m = .e2e src (.transactionRequest id .raftRemovalRequest)) :
    CoreMoves s o m c (c.handlePeerRequestedRaftRemoval o src id) := by
  rw [handlePeerRequestedRaftRemoval]
  split_ifs with hstate
  · exact .still (c.calm_sendE2EError ..)
  · split
    · exact .still c.calm_abort
    · rename_i r hr
      rw [ne_eq, not_not] at hstate
      dsimp only
      split_ifs
      · exact .still (c.calm_sendE2EError ..)
      · split
        · rename_i r' loc heq
          exact c.moves_logRequest_register hr hstate (.removeMember src id hm) heq _ (by simp)
        · rename_i r' loc err _ heq
          exact (c.moves_logRequest hr hstate (.removeMember src id hm) (.inl rfl) heq).trans
            (.still (calm_sendE2EError ..))

theorem moves_handleE2ETransaction {src : PeerId} {id : TransactionID} {req : TransactionRequest Hash}
    (hm : m = .e2e src (.transactionRequest id req)) (hs : Quiet s c) :
    CoreMoves s o m c (c.handleE2ETransaction o src id req).1 := by
  cases req with
  | ping => exact .still (c.calm_sendToPeer (.inl trivial))
  | getRaft =>
    rw [handleE2ETransaction]
    split_ifs with hstate
    · exact .still (c.calm_respond_error ..)
    · split
      · exact .still c.calm_abort
      · rename_i r hr
        exact .single (.tellGroup r hr (not_not.mp hstate) src id)
  | replicateState groupId replicationId => exact c.moves_handleReplicateStateRequest hm hs
  | replicateStatePush push =>
    have hpush : CoreMoves s o m c (c.handleReplicateStatePush push).1 := by
      rw [handleReplicateStatePush]
      split_ifs with hstate
      · exact .refl c
      · exact .single (.load src id push hm hs (not_not.mp hstate) _)
    exact hpush.trans (.still (calm_respond_error ..))
  | raftMembershipRequest => exact c.moves_handleRequestRaftMembership hm
  | raftVotingRequest => exact c.moves_handleRequestRaftVoting hm hs
  | raftWrite entry => exact c.moves_handleRaftWrite hm
  | newTimestampUnixSecs time =>
    exact .still ((c.calm_maybeUpdateGroupTime o).trans (calm_respond_error ..))
  | raftRemovalRequest => exact c.moves_handlePeerRequestedRaftRemoval hm
  | notSet => exact .still (c.calm_respond_error ..)

theorem moves_handlePeerConnect {src : PeerId} {msg : PeerMessage Hash}
    (hm : m = .peerMessage src msg) : CoreMoves s o m c (c.handlePeerConnect o src) := by
  rw [handlePeerConnect]
  refine (CoreMoves.quiet (c.quiet_sendTimestamp o src c.localTime)).trans ?_
  generalize c.sendTimestamp o src c.localTime = c
  split
  · split_ifs
    · exact .refl c
    · exact c.moves_requestRaftReplication
  · split_ifs
    · exact .quiet (c.quiet_joinRaftFromFirstPeer o)
    · exact .refl c
  · rename_i hstate
    split
    · exact .still c.calm_abort
    · rename_i r hr
      exact .single (.call (.resetPeer r src) hr (.inr hstate) ⟨msg, hm⟩)
  · rename_i hstate
    split
    · exact .still c.calm_abort
    · rename_i r hr
      exact .single (.call (.resetPeer r src) hr (.inl hstate) ⟨msg, hm⟩)
  · exact .refl c

theorem moves_handleE2E {src : PeerId} {msg : PeerMessage Hash} {decoded : E2EMessage Hash}
    (hm : m = .peerMessage src msg) (hdecoded : decoded = .connected ∨ msg = .data decoded)
    (hs : Still s c) : CoreMoves s o m c (c.handleE2E o src decoded).1 := by
  cases decoded with
  | connected => exact c.moves_handlePeerConnect hm
  | raftMessage rm =>
    obtain rfl := hdecoded.resolve_left nofun
    rw [handleE2E]
    split_ifs with hstate
    · exact .refl c
    · split
      · exact .still c.calm_abort
      · rename_i r hr
        refine CoreMoves.trans ?_ (moves_raftStep _)
        refine .single (.call (.receive r (o.raft 0) rm src) hr ?_ ⟨hm, rfl⟩)
        tauto
  | transactionRequest id req =>
    obtain rfl := hdecoded.resolve_left nofun
    exact c.moves_handleE2ETransaction hm hs.toSends
  | transactionResponse id resp =>
    obtain rfl := hdecoded.resolve_left nofun
    exact c.moves_handleE2EResponse hm hs
  | attestationUpdate => exact .refl c

theorem moves_handlePeerMessage {src : PeerId} {msg : PeerMessage Hash}
    (hm : m = .peerMessage src msg) : CoreMoves c o m c (c.handlePeerMessage o src msg).1 := by
  have hrecv := c.calm_recvFromPeer o src msg
  rw [handlePeerMessage]
  split
  · rename_i c' decoded heq
    have hdecoded := c.recvFromPeer_decoded o heq
    rw [heq] at hrecv
    exact (CoreMoves.still hrecv).trans (c'.moves_handleE2E hm hdecoded hrecv)
  · rename_i c' err _ _ heq
    rw [heq] at hrecv
    exact .still hrecv

/-- The core when the handling of a message begins. -/
def fresh : Core Hash DB := { c with out := [], calls := [], promotions := [], answers := [] }

theorem moves_receive (o : CoreOracle) (m : UntrustedMessage Hash DB) :
    CoreMoves c.fresh o m c.fresh (c.receive o m).1 := by
  cases m with
  | h2eRequest tx req => exact moves_handleHostToEnclave _ rfl (.refl _)
  | timerTick time => exact moves_handleTimerTick _ rfl
  | resetPeer id =>
    cases id with
    | none => exact .refl _
    | some id => exact .quiet (quiet_resetPeer _ o id)
  | peerMessage src msg => exact moves_handlePeerMessage _ rfl

end Core

end SVR2
