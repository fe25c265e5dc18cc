import SVR2.Core.Cluster
import SVR2.Core.Frame

/-!
# Responses to the host

A request of the host is answered at once, or a callback is left to answer it: the callback of a
transaction with another enclave, or of a log transaction.  For a request that is not a join, the
responses sent and the callbacks left to send one are counted together, and no function of the core
makes that number larger than what it was handed.
-/

namespace SVR2

open Lib

variable {Hash DB : Type}

def LogTransactionCallback.request : LogTransactionCallback Hash → Option TransactionID
  | .client _ tx _ => some tx
  | .reply tx => some tx
  | .requestMembership tx _ => some tx
  | .peerRequestedRemoval _ _ => none

/-- The request of the host that the callback answers, itself or through a log transaction. -/
def E2ECallback.request : E2ECallback Hash → Option TransactionID
  | .reply tx => some tx
  | .joinRaftFromFirstPeer tx _ => some tx
  | .requestRaftReplication _ tx => some tx
  | .requestMembership _ _ => none
  | .sendNextReplicationState _ _ => none
  | .raftWrite cb => cb.request
  | .sendTimestamp => none

def E2ECallback.join : E2ECallback Hash → Option TransactionID
  | .joinRaftFromFirstPeer tx _ => some tx
  | .requestRaftReplication _ tx => some tx
  | .requestMembership tx _ => some tx
  | _ => none

/-- One, for the request that is meant. -/
def share (request : Option TransactionID) (tx : TransactionID) : Nat :=
  if request = some tx then 1 else 0

theorem share_of_ne {requestId tx : TransactionID} (h : requestId ≠ tx) :
    share (some requestId) tx = 0 := if_neg fun heq => h (Option.some.inj heq)

def LogTransaction.answers (tx : TransactionID) (t : Nat × LogTransaction Hash) : Bool :=
  t.2.cb.request = some tx

def E2ECall.answers (tx : TransactionID) (t : TransactionID × E2ECall Hash) : Bool :=
  t.2.callback.request = some tx

theorem sum_map_share {α : Type} (l : List α) (request : α → Option TransactionID)
    (tx : TransactionID) :
    (l.map fun a => share (request a) tx).sum = l.countP fun a => request a = some tx := by
  induction l with
  | nil => rfl
  | cons a l ih =>
    rw [List.map_cons, List.sum_cons, ih, List.countP_cons, share, Nat.add_comm]
    simp

variable [Database DB]

namespace Core

/-- The callbacks that are left to answer the request. -/
def owed (c : Core Hash DB) (tx : TransactionID) : Nat :=
  c.outstandingLogTransactions.countP (LogTransaction.answers tx) +
    c.outstandingE2ETransactions.countP (E2ECall.answers tx)

/-- The responses to the request, with the callbacks that are left to answer it. -/
def balance (c : Core Hash DB) (tx : TransactionID) : Nat := c.owed tx + (c.repliesTo tx).length

/-- Nothing of the core belongs to a join that the request has asked for. -/
structure NotJoining (tx : TransactionID) (c : Core Hash DB) : Prop where
  waiting : c.raft.waitingForFirstConnection.joinTx ≠ tx
  loading : c.raft.loading.joinTx ≠ tx
  calls : ∀ t ∈ c.outstandingE2ETransactions, t.2.callback.join ≠ some tx
  timeouts : ∀ t ∈ c.timeout.timeouts, t.2 ≠ .requestMembership tx

end Core

/-- From `c` to `c'`, at most `k` is added to the balance of a request that is not a join. -/
structure Settles (tx : TransactionID) (k : Nat) (c c' : Core Hash DB) : Prop where
  holds : c.NotJoining tx → c'.NotJoining tx ∧ c'.balance tx ≤ c.balance tx + k

namespace Settles

variable {tx : TransactionID}

theorem refl (c : Core Hash DB) : Settles tx 0 c c := ⟨fun h => ⟨h, le_rfl⟩⟩

theorem of_eq {c c' : Core Hash DB}
    (hwaiting : c'.raft.waitingForFirstConnection = c.raft.waitingForFirstConnection)
    (hloading : c'.raft.loading.joinTx = c.raft.loading.joinTx)
    (he2e : c'.outstandingE2ETransactions = c.outstandingE2ETransactions)
    (htimeout : c'.timeout = c.timeout)
    (hlog : c'.outstandingLogTransactions = c.outstandingLogTransactions) (hout : c'.out = c.out) :
    Settles tx 0 c c' := by
  refine ⟨fun hc => ⟨⟨?_, ?_, ?_, ?_⟩, ?_⟩⟩
  · rw [hwaiting]
    exact hc.waiting
  · rw [hloading]
    exact hc.loading
  · rw [he2e]
    exact hc.calls
  · rw [htimeout]
    exact hc.timeouts
  · rw [Core.balance, Core.balance, Core.owed, Core.owed, Core.repliesTo, Core.repliesTo, hlog,
      he2e, hout, Nat.add_zero]

theorem trans {k k' : Nat} {a b c : Core Hash DB} (hab : Settles tx k a b)
    (hbc : Settles tx k' b c) : Settles tx (k + k') a c := by
  refine ⟨fun h => ?_⟩
  obtain ⟨hb, hle⟩ := hab.holds h
  obtain ⟨hc, hle'⟩ := hbc.holds hb
  exact ⟨hc, by omega⟩

theorem after {k : Nat} {a b c : Core Hash DB} (hbc : Settles tx k b c) (hab : Settles tx 0 a b) :
    Settles tx k a c := by
  have h := hab.trans hbc
  rwa [Nat.zero_add] at h

theorem le {k k' : Nat} {c c' : Core Hash DB} (h : Settles tx k c c') (hk : k ≤ k') :
    Settles tx k' c c' :=
  ⟨fun hc => ⟨(h.holds hc).1, (h.holds hc).2.trans (Nat.add_le_add_left hk _)⟩⟩

theorem foldl {α : Type} {f : Core Hash DB → α → Core Hash DB} {w : α → Nat} (l : List α)
    (hf : ∀ c, ∀ a ∈ l, Settles tx (w a) c (f c a)) (c : Core Hash DB) :
    Settles tx (l.map w).sum c (l.foldl f c) := by
  induction l generalizing c with
  | nil => exact refl c
  | cons a l ih =>
    rw [List.map_cons, List.sum_cons]
    exact (hf c a List.mem_cons_self).trans (ih (fun c b hb => hf c b (List.mem_cons_of_mem a hb)) _)

theorem foldl_zero {α : Type} {f : Core Hash DB → α → Core Hash DB} (l : List α)
    (hf : ∀ c, ∀ a ∈ l, Settles tx 0 c (f c a)) (c : Core Hash DB) :
    Settles tx 0 c (l.foldl f c) := by
  induction l generalizing c with
  | nil => exact refl c
  | cons a l ih =>
    exact (ih (fun c b hb => hf c b (List.mem_cons_of_mem a hb)) _).after (hf c a List.mem_cons_self)

end Settles

theorem Calm.settles {P : PeerId → E2EMessage Hash → Prop} {tx : TransactionID} {c c' : Core Hash DB}
    (h : Calm P c c') : Settles tx 0 c c' := by
  refine ⟨fun hc => ⟨⟨?_, ?_, ?_, ?_⟩, ?_⟩⟩
  · rw [h.raft]
    exact hc.waiting
  · rw [h.raft]
    exact hc.loading
  · rw [h.e2eTransactions]
    exact hc.calls
  · rw [h.timeout]
    exact hc.timeouts
  · rw [Core.balance, Core.balance, Core.owed, Core.owed, h.logTransactions,
      h.e2eTransactions, h.replies, Nat.add_zero]

namespace Core

variable (c : Core Hash DB) (o : CoreOracle) {tx : TransactionID}

theorem settles_called (call : RaftCall Hash) (r : Raft Hash) : Settles tx 0 c (c.called call r) :=
  .of_eq rfl rfl rfl rfl rfl rfl

/-! ### Answers and callbacks -/

theorem settles_respond (requestId : TransactionID) (resp : HostResponse Hash DB) :
    Settles tx (share (some requestId) tx) c (c.send (.h2eResponse requestId resp)) := by
  refine ⟨fun hc => ⟨⟨hc.waiting, hc.loading, hc.calls, hc.timeouts⟩, ?_⟩⟩
  have hsend : ((c.send (.h2eResponse requestId resp)).repliesTo tx).length ≤
      (c.repliesTo tx).length + share (some requestId) tx := by
    dsimp only [repliesTo, send, share]
    split_ifs with haborted <;> simp_all
  have hlog : (c.send (.h2eResponse requestId resp)).outstandingLogTransactions =
      c.outstandingLogTransactions := rfl
  have he2e : (c.send (.h2eResponse requestId resp)).outstandingE2ETransactions =
      c.outstandingE2ETransactions := rfl
  rw [balance, balance, owed, owed, hlog, he2e]
  omega

theorem settles_replyWithError (requestId : TransactionID) (err : Error) :
    Settles tx (share (some requestId) tx) c (c.replyWithError requestId err) :=
  c.settles_respond requestId _

theorem settles_setTimeout (ticksFromNow : Nat) {fn : TimeoutFn} (hfn : fn ≠ .requestMembership tx) :
    Settles tx 0 c (c.setTimeout ticksFromNow fn).1 := by
  refine ⟨fun hc => ⟨⟨hc.waiting, hc.loading, hc.calls, fun t ht => ?_⟩, le_rfl⟩⟩
  rcases List.mem_append.mp ht with ht | ht
  · exact hc.timeouts t ht
  · rw [List.mem_singleton.mp ht]
    exact hfn

theorem settles_cancelTimeout (tc : Cancel) : Settles tx 0 c (c.cancelTimeout tc) := by
  refine ⟨fun hc => ⟨⟨hc.waiting, hc.loading, hc.calls, fun t ht => ?_⟩, le_rfl⟩⟩
  exact hc.timeouts t (List.mem_filter.mp ht).1

theorem settles_closeClientWith (clientId : Nat) (requestId : TransactionID) (entry : LogEntry Hash)
    (err : Error) :
    Settles tx (share (some requestId) tx) c (c.closeClientWith clientId requestId entry err) :=
  ((settles_replyWithError _ requestId err).after (c.calm_noteAnswer entry _).settles).trans
    (calm_removeClient _ clientId).settles

theorem settles_clientLogTransaction (clientId : Nat) (requestId : TransactionID)
    (entry : LogEntry Hash) (err : Error) (response : Option (Database.Response DB)) :
    Settles tx (share (some requestId) tx) c
      (c.clientLogTransaction o clientId requestId entry err response) := by
  have hclose : ∀ err,
      Settles tx (share (some requestId) tx) c (c.closeClientWith clientId requestId entry err) :=
    c.settles_closeClientWith clientId requestId entry
  rw [clientLogTransaction.eq_def]
  by_cases hcancelled : err = .coreLogTransactionCancelled
  · rw [if_pos hcancelled]
    exact hclose _
  · rw [if_neg hcancelled]
    by_cases herr : err ≠ .ok
    · rw [if_pos herr]
      exact hclose _
    · rw [if_neg herr]
      split
      · exact hclose _
      · split_ifs
        · split
          · exact (settles_respond _ requestId _).after (c.calm_noteAnswer entry _).settles
          · exact hclose _
        · exact hclose _

theorem settles_logTransactionCallback (err : Error) (response : Option (Database.Response DB))
    (cb : LogTransactionCallback Hash) :
    Settles tx (share cb.request tx) c (c.logTransactionCallback o err response cb) := by
  cases cb with
  | client clientId requestId entry => exact c.settles_clientLogTransaction ..
  | reply requestId => exact c.settles_replyWithError requestId err
  | requestMembership requestId cancel =>
    refine (settles_replyWithError _ requestId err).after ?_
    split_ifs
    · exact c.settles_cancelTimeout cancel
    · exact .refl c
  | peerRequestedRemoval src id => exact (c.calm_sendE2EError src id err).settles

theorem settles_addLogTransaction (loc : LogLocation Hash) (cb : LogTransactionCallback Hash) :
    Settles tx (share cb.request tx) c (c.addLogTransaction loc cb) := by
  refine ⟨fun hc => ⟨⟨hc.waiting, hc.loading, hc.calls, hc.timeouts⟩, ?_⟩⟩
  dsimp only [balance, owed, repliesTo, addLogTransaction]
  rw [List.countP_append, List.countP_singleton, share]
  simp only [LogTransaction.answers, decide_eq_true_eq]
  omega

theorem settles_takeLogTransactions {f : Core Hash DB → Nat × LogTransaction Hash → Core Hash DB}
    {kept taken : List (Nat × LogTransaction Hash)}
    (hf : ∀ c, ∀ t ∈ taken, Settles tx (share t.2.cb.request tx) c (f c t))
    (hcount : kept.countP (LogTransaction.answers tx) + taken.countP (LogTransaction.answers tx) ≤
      c.outstandingLogTransactions.countP (LogTransaction.answers tx)) :
    Settles tx 0 c (taken.foldl f { c with outstandingLogTransactions := kept }) := by
  refine ⟨fun hc => ?_⟩
  have hfold := Settles.foldl taken hf { c with outstandingLogTransactions := kept }
  rw [sum_map_share taken (fun t => t.2.cb.request)] at hfold
  obtain ⟨hjoin, hle⟩ := hfold.holds ⟨hc.waiting, hc.loading, hc.calls, hc.timeouts⟩
  refine ⟨hjoin, hle.trans ?_⟩
  have htaken : taken.countP (fun t => t.2.cb.request = some tx) =
      taken.countP (LogTransaction.answers tx) := rfl
  rw [htaken]
  dsimp only [balance, owed, repliesTo]
  omega

theorem settles_handleRaftMembershipChange (g : ReplicaGroup) :
    Settles tx 0 c (c.handleRaftMembershipChange o g) := by
  rw [handleRaftMembershipChange]
  split
  · split_ifs
    · exact .refl c
    · have hstate : Settles tx 0 c (c.setRaftState .loadedRequestingMembership) :=
        .of_eq rfl rfl rfl rfl rfl rfl
      refine Settles.after ?_ hstate
      refine settles_takeLogTransactions _ (fun c t _ => ?_) ?_
      · exact c.settles_logTransactionCallback ..
      · rw [(o.shuffle_perm _).countP_eq, List.countP_nil, Nat.zero_add]
        exact le_rfl
  · split_ifs
    · exact .of_eq rfl rfl rfl rfl rfl rfl
    · exact .refl c
  · exact c.calm_abort.settles

theorem settles_applyCommittedEntry (inner : Inner) :
    Settles tx 0 c (c.applyCommittedEntry o inner).1 := by
  cases inner with
  | membershipChange g => exact c.settles_handleRaftMembershipChange o g
  | data d =>
    change Settles tx 0 c (c.raftApplyLogToDatabase d).1
    rw [raftApplyLogToDatabase.eq_def]
    split
    · exact c.calm_abort.settles
    · exact .refl c
    · dsimp only
      split
      · exact .of_eq rfl rfl rfl rfl rfl rfl
      · exact .refl c
  | minimums limits =>
    refine Settles.after ((calm_check _ _).trans (calm_minimumsUpdated _)).settles ?_
    exact .of_eq rfl rfl rfl rfl rfl rfl
  | notSet => exact .refl c

theorem settles_handleLogTransactionsForRaftLog [DecidableEq Hash] (idx : Nat) (e : LogEntry Hash)
    (response : Option (Database.Response DB)) :
    Settles tx 0 c (c.handleLogTransactionsForRaftLog o idx e response) := by
  rw [handleLogTransactionsForRaftLog]
  refine c.settles_takeLogTransactions (fun c t _ => ?_) ?_
  · exact c.settles_logTransactionCallback ..
  · rw [(o.shuffle_perm _).countP_eq, Nat.add_comm,
      List.countP_eq_countP_filter_add c.outstandingLogTransactions _ (fun t => t.1 = idx)]
    simp

theorem settles_raftHandleCommittedLogsLoop [DecidableEq Hash] (n : Nat) :
    Settles tx 0 c (raftHandleCommittedLogsLoop o n c) := by
  induction n generalizing c with
  | zero => exact .refl c
  | succ n ih =>
    rw [raftHandleCommittedLogsLoop]
    split
    · exact c.calm_abort.settles
    · dsimp only
      split_ifs
      · exact .refl c
      · refine (ih _).after ?_
        rw [raftHandleCommittedLog]
        refine (settles_handleLogTransactionsForRaftLog ..).after ?_
        refine (settles_applyCommittedEntry _ o _).after ?_
        exact .of_eq rfl rfl rfl rfl rfl rfl

theorem settles_raftSendMessages : Settles tx 0 c c.raftSendMessages := by
  cases hr : c.raft.loaded.raft with
  | none =>
    rw [raftSendMessages, hr]
    exact c.calm_abort.settles
  | some r =>
    refine (c.calm_raftSendMessages hr).settles.after ?_
    exact .of_eq rfl rfl rfl rfl rfl rfl

theorem settles_raftHandleCommittedLogs [DecidableEq Hash] :
    Settles tx 0 c (c.raftHandleCommittedLogs o) := by
  rw [raftHandleCommittedLogs]
  split
  · exact c.calm_abort.settles
  · exact settles_raftHandleCommittedLogsLoop ..

theorem settles_raftStep [DecidableEq Hash] : Settles tx 0 c (c.raftStep o) := by
  rw [raftStep]
  refine (settles_raftHandleCommittedLogs _ o).after ?_
  exact (settles_raftSendMessages _).after (c.calm_check _).settles

/-! ### Transactions with other enclaves -/

theorem settles_e2eCallbackError (err : Error) (callback : E2ECallback Hash) :
    Settles tx (share callback.request tx) c (c.e2eCallbackError o err callback) := by
  cases callback with
  | reply requestId => exact c.settles_replyWithError requestId err
  | joinRaftFromFirstPeer requestId peer => exact c.settles_replyWithError requestId err
  | requestRaftReplication src requestId => exact c.settles_replyWithError requestId err
  | requestMembership requestId cancel => exact .refl c
  | sendNextReplicationState k last =>
    rw [e2eCallbackError]
    split
    · exact c.calm_abort.settles
    · split_ifs
      · exact .refl c
      · exact ((c.calm_setPushState k _).trans (calm_sendE2EError ..).still_calm).settles
  | raftWrite cb => exact c.settles_logTransactionCallback ..
  | sendTimestamp => exact .refl c

/-- Transactions are taken off the list, and their callbacks run with an error. -/
theorem settles_cancelE2ETransactions (kept taken : List (TransactionID × E2ECall Hash)) (err : Error)
    (hkept : ∀ t ∈ kept, t ∈ c.outstandingE2ETransactions)
    (hcount : kept.countP (E2ECall.answers tx) + taken.countP (E2ECall.answers tx) ≤
      c.outstandingE2ETransactions.countP (E2ECall.answers tx))
    {c' : Core Hash DB} (hc' : Settles tx 0 { c with outstandingE2ETransactions := kept } c') :
    Settles tx 0 c (taken.foldl (fun c t => c.e2eCallbackError o err t.2.callback) c') := by
  refine ⟨fun hc => ?_⟩
  have hfold : Settles tx _ c' _ :=
    Settles.foldl taken (fun c t _ => c.settles_e2eCallbackError o err t.2.callback) c'
  rw [sum_map_share taken (fun t => t.2.callback.request)] at hfold
  obtain ⟨hjoin, hle⟩ := (hfold.after hc').holds
    ⟨hc.waiting, hc.loading, fun t ht => hc.calls t (hkept t ht), hc.timeouts⟩
  refine ⟨hjoin, hle.trans ?_⟩
  have htaken : taken.countP (fun t => t.2.callback.request = some tx) =
      taken.countP (E2ECall.answers tx) := rfl
  rw [htaken]
  dsimp only [balance, owed, repliesTo]
  omega

theorem settles_sendE2ETransaction (dst : PeerId) (req : TransactionRequest Hash)
    (withTimeout : Bool) (callback : E2ECallback Hash) (hjoin : callback.join ≠ some tx) :
    Settles tx (share callback.request tx) c
      (c.sendE2ETransaction o dst req withTimeout callback) := by
  have hsend : Settles tx 0 c
      (({ c with e2eTxnId := c.e2eTxnId + 1 }).sendToPeer dst
        (.transactionRequest (c.e2eTxnId + 1) req)).1 :=
    (calm_sendAnyToPeer ..).settles.after
      (.of_eq rfl rfl rfl rfl rfl rfl)
  have hadd : ∀ (c : Core Hash DB) (id : TransactionID) (tc : Cancel),
      Settles tx (share callback.request tx) c { c with outstandingE2ETransactions :=
        c.outstandingE2ETransactions ++ [(id, ⟨callback, tc, dst⟩)] } := by
    intro c id tc
    refine ⟨fun hc => ⟨⟨hc.waiting, hc.loading, fun t ht => ?_, hc.timeouts⟩, ?_⟩⟩
    · rcases List.mem_append.mp ht with ht | ht
      · exact hc.calls t ht
      · rw [List.mem_singleton.mp ht]
        exact hjoin
    · dsimp only [balance, owed, repliesTo]
      rw [List.countP_append, List.countP_singleton, share]
      simp only [E2ECall.answers, decide_eq_true_eq]
      omega
  rw [sendE2ETransaction]
  dsimp only
  split
  · rename_i c' heq
    rw [heq] at hsend
    refine Settles.after ?_ hsend
    cases withTimeout with
    | false => exact hadd c' _ _
    | true => exact (hadd _ _ _).after (c'.settles_setTimeout _ (by rintro ⟨⟩))
  · rename_i c' err _ heq
    rw [heq] at hsend
    exact (settles_e2eCallbackError ..).after hsend

theorem settles_sendTimestamp (dst : PeerId) (unixSecs : Nat) :
    Settles tx 0 c (c.sendTimestamp o dst unixSecs) :=
  c.settles_sendE2ETransaction o dst _ true .sendTimestamp (by nofun)

theorem settles_sendTimestampToAll : Settles tx 0 c (c.sendTimestampToAll o) := by
  rw [sendTimestampToAll]
  refine (settles_setTimeout _ _ (by rintro ⟨⟩)).after (Settles.foldl_zero _ (fun c e _ => ?_) c)
  exact c.settles_sendTimestamp o e.1 _

theorem settles_resetPeer (id : PeerId) : Settles tx 0 c (c.resetPeer o id).1 := by
  rw [resetPeer]
  dsimp only
  refine c.settles_cancelE2ETransactions o
    (c.outstandingE2ETransactions.filter fun t => t.2.dst ≠ id) _ _
    (fun t ht => (List.mem_filter.mp ht).1) ?_ ?_
  · rw [(o.shuffle_perm _).countP_eq, Nat.add_comm,
      List.countP_eq_countP_filter_add c.outstandingE2ETransactions _ (fun t => t.2.dst = id)]
    simp
  · refine (calm_peerManagerResetPeer _ id).settles.after (Settles.foldl_zero _ (fun c t _ => ?_) _)
    exact c.settles_cancelTimeout t.2.timeoutCancel

end Core

theorem Loading.joinTx_maybeApplyLogToReplicatingDatabase (l : Loading Hash DB) (e : LogEntry Hash) :
    (l.maybeApplyLogToReplicatingDatabase e).1.joinTx = l.joinTx := by
  rw [maybeApplyLogToReplicatingDatabase]
  split
  · rfl
  · dsimp only
    split_ifs
    · rfl
    · split
      · rfl
      · split_ifs
        · rfl
        · split <;> rfl

theorem Loading.joinTx_appendEntries [Platform Hash] (l : Loading Hash DB) (es : List (LogEntry Hash)) :
    (l.appendEntries es).1.joinTx = l.joinTx := by
  induction es generalizing l with
  | nil => rfl
  | cons e es ih =>
    rw [appendEntries]
    split
    · rfl
    · split
      · rename_i log' _
        have happly := ({ l with log := some log' }).joinTx_maybeApplyLogToReplicatingDatabase e
        split
        · rename_i l' heq
          rw [heq] at happly
          exact (ih l').trans happly
        · rename_i l' err _ heq
          rw [heq] at happly
          exact happly
      · rfl

theorem Loading.joinTx_loadRows (l : Loading Hash DB) (rows : List Bytes) :
    (l.loadRows rows).1.joinTx = l.joinTx := by
  rw [loadRows]
  split
  · rfl
  · dsimp only
    split_ifs <;> rfl

theorem Loading.joinTx_handleReplicateStatePush [Platform Hash] (l : Loading Hash DB)
    (push : ReplicateStatePush Hash) : (l.handleReplicateStatePush push).1.joinTx = l.joinTx := by
  rw [handleReplicateStatePush]
  split
  · rfl
  · dsimp only
    split_ifs
    · rfl
    · rfl
    · rfl
    all_goals
      split
      · rfl
      · rename_i mem _
        split
        · rename_i l' heq
          have happend := congrArg (fun x => x.1.joinTx) heq
          rw [joinTx_appendEntries] at happend
          have hrows := l'.joinTx_loadRows push.rows
          split
          · rename_i l'' heq'
            rw [heq'] at hrows
            exact hrows.trans happend.symm
          · rename_i l'' err _ heq'
            rw [heq'] at hrows
            exact hrows.trans happend.symm
        · rename_i l' err _ heq
          have happend := congrArg (fun x => x.1.joinTx) heq
          rw [joinTx_appendEntries] at happend
          exact happend.symm

namespace Core

variable (c : Core Hash DB) (o : CoreOracle) {tx : TransactionID}

/-! ### Replication and joining -/

section Joining

variable [Platform Hash]

theorem settles_sendNextReplicationState [PushSize Hash] (k : Nat) :
    Settles tx 0 c (c.sendNextReplicationState o k) := by
  rw [sendNextReplicationState.eq_def]
  split
  · dsimp only
    split
    · split_ifs
      · exact ((c.calm_check _).still_calm.trans (calm_setPushState ..)).settles
      · exact (((c.calm_check _).still_calm.trans (calm_setPushState ..)).trans
          (calm_sendE2EError ..).still_calm).settles
    · refine (settles_sendE2ETransaction _ o _ _ true (.sendNextReplicationState _ _) (by rintro ⟨⟩)).after ?_
      exact ((c.calm_check _).still_calm.trans (calm_setPushState ..)).settles
  · exact c.calm_abort.settles

theorem settles_handleReplicateStateRequest [PushSize Hash] (target : PeerId)
    (requestId : TransactionID) (groupId replicationId : Nat) :
    Settles tx 0 c (c.handleReplicateStateRequest o target requestId groupId replicationId).1 := by
  have hpipeline : ∀ (k n : Nat) (c : Core Hash DB), Settles tx 0 c (startPipeline o k n c) := by
    intro k n
    induction n with
    | zero => exact fun c => .refl c
    | succ n ih =>
      intro c
      rw [startPipeline]
      split_ifs
      · exact .refl c
      · exact (ih _).after (c.settles_sendNextReplicationState o k)
  rw [handleReplicateStateRequest]
  split_ifs
  · exact (c.calm_sendE2EError ..).settles
  · split
    · exact c.calm_abort.settles
    · split_ifs
      · exact (c.calm_sendE2EError ..).settles
      · exact (hpipeline _ _ _).after (.of_eq rfl rfl rfl rfl rfl rfl)

theorem settles_handleReplicateStatePush (push : ReplicateStatePush Hash) :
    Settles tx 0 c (c.handleReplicateStatePush push).1 := by
  rw [handleReplicateStatePush]
  split_ifs
  · exact .refl c
  · exact .of_eq rfl (Loading.joinTx_handleReplicateStatePush _ push) rfl rfl rfl rfl

omit [Platform Hash] in
theorem settles_raftRequestMembership {requestId : TransactionID} (hne : requestId ≠ tx) :
    Settles tx 0 c (c.raftRequestMembership o requestId) := by
  have hjoin : ∀ cancel, (E2ECallback.requestMembership requestId cancel : E2ECallback Hash).join ≠
      some tx := by
    intro cancel h
    exact hne (Option.some.inj h)
  rw [raftRequestMembership]
  dsimp only
  split
  · refine (calm_abort _).settles.after ?_
    exact (settles_setTimeout _ _ (by simpa using hne)).after (c.calm_check _).settles
  · refine Settles.after (Settles.foldl_zero _ (fun c peer _ => ?_) _) ?_
    · exact c.settles_sendE2ETransaction o peer .raftMembershipRequest true _ (hjoin _)
    · exact (settles_setTimeout _ _ (by simpa using hne)).after (c.calm_check _).settles

theorem settles_promoteRaftToLoaded [DecidableEq Hash] (htx : tx ≠ 0) :
    Settles tx 0 c (c.promoteRaftToLoaded o) := by
  refine ⟨fun hc => ?_⟩
  have hpromoted : ∀ log mem, Settles tx 0 c
      (({ c with promotions := c.promotions ++ [c.raft] }).promoted o log mem) := fun log mem =>
    ⟨fun hc => ⟨⟨htx.symm, htx.symm, hc.calls, hc.timeouts⟩, le_rfl⟩⟩
  refine Settles.holds ?_ hc
  rw [promoteRaftToLoaded]
  dsimp only
  split
  · exact (settles_raftRequestMembership _ o hc.loading).after (hpromoted _ _)
  · exact (calm_abort _).settles.after (.of_eq rfl rfl rfl rfl rfl rfl)

omit [Platform Hash] in
theorem settles_requestRaftReplication : Settles tx 0 c (c.requestRaftReplication o) := by
  refine ⟨fun hc => Settles.holds ?_ hc⟩
  have hjoin : (E2ECallback.requestRaftReplication c.raft.loading.loadFrom c.raft.loading.joinTx :
      E2ECallback Hash).join ≠ some tx := fun h => hc.loading (Option.some.inj h)
  rw [requestRaftReplication]
  split_ifs
  · exact .refl c
  · split
    · exact c.calm_abort.settles
    · dsimp only
      split_ifs
      · exact .refl c
      · have hsend : Settles tx _ _ _ := settles_sendE2ETransaction
          (c.setLoading { c.raft.loading with started := true, replicationId := o.randomBytes }) o
          c.raft.loading.loadFrom
          (.replicateState c.raft.loading.groupConfig.groupId o.randomBytes) false
          (.requestRaftReplication c.raft.loading.loadFrom c.raft.loading.joinTx) hjoin
        exact Settles.after (hsend.le (share_of_ne hc.loading).le) (.of_eq rfl rfl rfl rfl rfl rfl)

omit [Platform Hash] in
theorem settles_gotRaft {requestId : TransactionID} (hne : requestId ≠ tx) (htx : tx ≠ 0)
    (peer : PeerId) (groupConfig : RaftGroupConfig) (replicaGroup : ReplicaGroup) :
    Settles tx 0 c (c.gotRaft o requestId peer groupConfig replicaGroup) := by
  have hreply : ∀ (c : Core Hash DB) (err : Error),
      Settles tx 0 c (c.replyWithError requestId err) := by
    intro c err
    have h : Settles tx _ c _ := c.settles_replyWithError requestId err
    rwa [share_of_ne hne] at h
  rw [gotRaft]
  split_ifs
  · exact hreply c _
  · exact hreply c _
  · exact hreply c _
  · split
    · exact hreply c _
    · have hconnect : Settles tx 0 c _ := (c.calm_connectToReplicas o replicaGroup).settles
      split
      · rename_i c' heq
        rw [heq] at hconnect
        have hloading : ∀ raft : CoreRaft Hash DB, raft.waitingForFirstConnection.joinTx = 0 →
            raft.loading.joinTx = requestId → Settles tx 0 c' { c' with raft := raft } := by
          intro raft hwaiting hjoinTx
          refine ⟨fun hc => ⟨⟨?_, ?_, hc.calls, hc.timeouts⟩, le_rfl⟩⟩
          · exact fun h => htx (h.symm.trans hwaiting)
          · exact fun h => hne (hjoinTx.symm.trans h)
        dsimp only
        split
        · exact (settles_requestRaftReplication _ o).after ((hloading _ rfl rfl).after hconnect)
        · exact (hreply _ _).after ((hloading _ rfl rfl).after hconnect)
      · rename_i c' err _ heq
        rw [heq] at hconnect
        exact (hreply _ _).after hconnect

omit [Platform Hash] in
theorem settles_joinRaftFromFirstPeer : Settles tx 0 c (c.joinRaftFromFirstPeer o) := by
  refine ⟨fun hc => Settles.holds ?_ hc⟩
  rw [joinRaftFromFirstPeer]
  have hjoin : (E2ECallback.joinRaftFromFirstPeer c.raft.waitingForFirstConnection.joinTx
      c.raft.waitingForFirstConnection.peer : E2ECallback Hash).join ≠ some tx :=
    fun h => hc.waiting (Option.some.inj h)
  exact Settles.after (Settles.le (settles_sendE2ETransaction _ o _ _ true _ hjoin)
    (share_of_ne hc.waiting).le) (c.calm_check _).settles

/-- The callback of a transaction that belongs to no join for the request. -/
theorem settles_e2eCallback [DecidableEq Hash] [PushSize Hash] (htx : tx ≠ 0)
    (resp : TransactionResponse Hash) {callback : E2ECallback Hash}
    (hjoin : callback.join ≠ some tx) :
    Settles tx (share callback.request tx) c (c.e2eCallback o resp callback) := by
  rw [e2eCallback.eq_def]
  split
  · cases callback with
    | reply requestId => exact c.settles_replyWithError requestId _
    | joinRaftFromFirstPeer requestId peer =>
      have hne : requestId ≠ tx := fun h => hjoin (congrArg some h)
      dsimp only
      split
      · exact (c.settles_gotRaft o hne htx ..).le (Nat.zero_le _)
      · exact (c.settles_gotRaft o hne htx ..).le (Nat.zero_le _)
    | requestRaftReplication src requestId =>
      exact (c.settles_promoteRaftToLoaded o htx).le (Nat.zero_le _)
    | requestMembership requestId cancel =>
      have hshare : share (some requestId) tx = 0 := share_of_ne fun h => hjoin (congrArg some h)
      dsimp only
      split
      · exact (c.settles_addLogTransaction _ (.requestMembership requestId cancel)).le hshare.le
      · exact (c.settles_addLogTransaction _ (.requestMembership requestId cancel)).le hshare.le
    | sendNextReplicationState k last =>
      dsimp only
      split
      · exact c.calm_abort.settles
      · split_ifs
        · exact .refl c
        · exact ((c.calm_setPushState k _).trans (calm_sendE2EError ..).still_calm).settles
        · exact .refl c
        · exact c.settles_sendNextReplicationState o k
    | raftWrite cb =>
      dsimp only
      split
      · exact c.settles_addLogTransaction _ cb
      · exact c.settles_logTransactionCallback ..
    | sendTimestamp => exact .refl c
  · exact c.settles_e2eCallbackError ..

end Joining

end Core

/-! ### Requests of the host -/

structure Returns (tx : TransactionID) (k : Nat) (c : Core Hash DB) (p : Core Hash DB × Error) :
    Prop where
  settles : Settles tx (if p.2 = .ok then k else 0) c p.1

theorem Returns.ok {tx : TransactionID} {k : Nat} {c c' : Core Hash DB} (h : Settles tx k c c') :
    Returns tx k c (c', .ok) := ⟨h⟩

theorem Returns.error {tx : TransactionID} {k : Nat} {c c' : Core Hash DB} {err : Error}
    (h : Settles tx 0 c c') : Returns tx k c (c', err) := ⟨h.le (Nat.zero_le _)⟩

namespace Core

variable (c : Core Hash DB) (o : CoreOracle) {tx : TransactionID} [DecidableEq Hash]
  [Platform Hash]

theorem returns_raftWriteLogTransaction (entry : LogEntry Hash) (cb : LogTransactionCallback Hash) :
    Returns tx (share cb.request tx) c (c.raftWriteLogTransaction o entry cb) := by
  rw [raftWriteLogTransaction]
  split_ifs with hstate
  · exact .error (.refl c)
  · split
    · exact .error c.calm_abort.settles
    · split_ifs
      · exact .error (.refl c)
      · split
        · refine .ok (Settles.trans ?_ (settles_raftStep _ o))
          exact (settles_addLogTransaction ..).after (.of_eq rfl rfl rfl rfl rfl rfl)
        · exact .error (.of_eq rfl rfl rfl rfl rfl rfl)
      · split
        · exact .ok (c.settles_sendE2ETransaction o _ _ true (.raftWrite cb) (by nofun))
        · exact .error (.refl c)

theorem returns_handleExistingClient (clientId : Nat) (data : Except Error (Database.Request DB))
    (requestId : TransactionID) :
    Returns tx (share (some requestId) tx) c (c.handleExistingClient o clientId data requestId) := by
  rw [handleExistingClient]
  split
  · exact .error (.refl c)
  · split_ifs
    · split
      · exact .ok ((settles_respond ..).after (.of_eq rfl rfl rfl rfl rfl rfl))
      · exact .error (.refl c)
    · split
      · exact .error (.refl c)
      · split
        · exact .error (.refl c)
        · split
          · exact c.returns_raftWriteLogTransaction o _ (.client clientId requestId _)
          · exact .error (.refl c)

omit [DecidableEq Hash] [Platform Hash] in
theorem settles_reportError {c' : Core Hash DB} {requestId : TransactionID} {err : Error}
    (h : Returns tx (share (some requestId) tx) c (c', err)) (herr : err ≠ .ok) :
    Settles tx (share (some requestId) tx) c (c'.replyWithError requestId err) := by
  have hc := h.settles
  rw [if_neg herr] at hc
  exact (c'.settles_replyWithError requestId err).after hc

theorem settles_handleUpdateMinimums (requestId : TransactionID) (update : MinimumLimits) :
    Settles tx (share (some requestId) tx) c (c.handleUpdateMinimums o requestId update) := by
  rw [handleUpdateMinimums]
  split
  · split
    · have hwrite : Returns tx _ c _ := c.returns_raftWriteLogTransaction o
          { LogEntry.default with inner := .minimums update } (.reply requestId)
      dsimp only
      split
      · rename_i c' heq
        rw [heq] at hwrite
        exact hwrite.settles
      · rename_i c' err herr heq
        rw [heq] at hwrite
        exact c.settles_reportError hwrite herr
    · exact c.settles_replyWithError ..
  · exact c.settles_replyWithError ..

/-- A refused request to create a group is answered twice, and a join can be; the theorem is about
    the others. -/
def AnswersOnce (tx : TransactionID) (c : Core Hash DB) (o : CoreOracle) :
    UntrustedMessage Hash DB → Prop
  | .h2eRequest requestId .createNewRaftGroup =>
    requestId = tx → c.raft.state = .noState ∧ o.randomBytesErr = .ok
  | .h2eRequest requestId (.joinRaft peer) =>
    requestId = tx → c.raft.state = .loadedPartOfGroup ∨ peer = none
  | _ => True

theorem settles_created : Settles tx 0 c (c.created o) := .of_eq rfl rfl rfl rfl rfl rfl

theorem settles_handleCreateNewRaftGroupRequest (requestId : TransactionID)
    (honce : AnswersOnce tx c o (.h2eRequest requestId .createNewRaftGroup)) :
    Settles tx (share (some requestId) tx) c (c.handleCreateNewRaftGroupRequest o requestId) := by
  have hfirst : ∀ (c : Core Hash DB) (b : Prop) [Decidable b] (err : Error),
      (requestId = tx → ¬b) →
      Settles tx 0 c (if b then c.replyWithError requestId err else c) := by
    intro c b _ err hb
    split_ifs with h
    · have hreply : Settles tx _ c _ := c.settles_replyWithError requestId err
      rwa [share_of_ne fun heq => hb heq h] at hreply
    · exact .refl c
  rw [handleCreateNewRaftGroupRequest]
  refine (settles_replyWithError _ requestId .ok).after ?_
  refine (settles_raftStep _ o).after ((settles_created _ o).after ?_)
  refine Settles.after (hfirst _ _ _ fun heq => ?_) (hfirst c _ _ fun heq => ?_)
  · exact not_not.mpr (honce heq).2
  · exact not_not.mpr (honce heq).1

omit [DecidableEq Hash] [Platform Hash] in
theorem settles_handleJoinRaft (htx : tx ≠ 0) (requestId : TransactionID) (peerId : Option PeerId)
    (honce : AnswersOnce tx c o (.h2eRequest requestId (.joinRaft peerId))) :
    Settles tx (share (some requestId) tx) c (c.handleJoinRaft o peerId requestId) := by
  rw [handleJoinRaft.eq_def]
  split_ifs with hstate
  · exact c.settles_replyWithError ..
  · split
    · exact c.settles_replyWithError ..
    · rename_i peer
      have hne : requestId ≠ tx := fun heq => (honce heq).elim hstate nofun
      have hwait : Settles tx 0 c { c with raft :=
          { state := .waitingForFirstConnection
            waitingForFirstConnection := { peer := peer, joinTx := requestId } } } :=
        ⟨fun hc => ⟨⟨hne, htx.symm, hc.calls, hc.timeouts⟩, le_rfl⟩⟩
      refine Settles.le ?_ (Nat.zero_le _)
      dsimp only
      split
      · exact (settles_joinRaftFromFirstPeer _ o).after hwait
      · exact hwait
      · exact (calm_connectToPeer _ o peer).settles.after hwait

omit [DecidableEq Hash] [Platform Hash] in
theorem settles_askPeer (requestId : TransactionID) (dst : PeerId) (req : TransactionRequest Hash) :
    Settles tx (share (some requestId) tx) c
      (c.sendE2ETransaction o dst req true (.reply requestId)) :=
  c.settles_sendE2ETransaction o dst req true (.reply requestId) (by nofun)

omit [DecidableEq Hash] [Platform Hash] in
theorem settles_askLeader (requestId : TransactionID) (refuses : Raft Hash → Bool) (err : Error)
    (req : TransactionRequest Hash) :
    Settles tx (share (some requestId) tx) c (c.askLeader o requestId refuses err req) := by
  rw [askLeader]
  split_ifs
  · exact c.settles_replyWithError ..
  · split
    · exact c.calm_abort.settles.le (Nat.zero_le _)
    · split_ifs
      · exact c.settles_replyWithError ..
      · split
        · exact c.settles_replyWithError ..
        · exact c.settles_askPeer ..

theorem settles_handleRelinquishLeadership (requestId : TransactionID) :
    Settles tx (share (some requestId) tx) c (c.handleRelinquishLeadership o requestId) := by
  rw [handleRelinquishLeadership]
  split_ifs
  · exact c.settles_replyWithError ..
  · split
    · exact c.calm_abort.settles.le (Nat.zero_le _)
    · split_ifs
      · exact c.settles_replyWithError ..
      · refine Settles.trans ?_ (settles_raftStep _ o)
        exact (settles_addLogTransaction _ _ (.reply requestId)).after
          (.of_eq rfl rfl rfl rfl rfl rfl)

omit [DecidableEq Hash] [Platform Hash] in
theorem returns_handleHostHashes (requestId : TransactionID) :
    Returns tx (share (some requestId) tx) c (c.handleHostHashes requestId) := by
  rw [handleHostHashes]
  split_ifs
  · exact .error (.refl c)
  · split
    · split
      · exact .error (.refl c)
      · exact .ok (c.settles_respond ..)
    · exact .error c.calm_abort.settles

omit [DecidableEq Hash] [Platform Hash] in
theorem settles_handleReconfigure (req : EnclaveConfig) :
    Settles tx 0 c (c.handleReconfigure req).1 := by
  rw [handleReconfigure]
  dsimp only
  split
  · have hconfig : Settles tx 0 c { c with enclaveConfig := defaultEnclaveConfig.mergeFrom req } :=
      .of_eq rfl rfl rfl rfl rfl rfl
    split
    · exact .of_eq rfl rfl rfl rfl rfl rfl
    · exact .of_eq rfl rfl rfl rfl rfl rfl
    · exact (calm_abort _).settles.after hconfig
    · exact (calm_abort _).settles.after hconfig
    · exact hconfig
  · exact .refl c

theorem settles_handleHostToEnclave (htx : tx ≠ 0) (requestId : TransactionID) (req : HostRequest DB)
    (honce : AnswersOnce tx c o (.h2eRequest requestId req)) :
    Settles tx (share (some requestId) tx) c (c.handleHostToEnclave o requestId req).1 := by
  rw [handleHostToEnclave.eq_def]
  split_ifs
  · exact (Settles.refl c).le (Nat.zero_le _)
  · cases req with
    | newClient authenticatedId =>
      change Settles tx _ c (c.handleNewClient o authenticatedId requestId)
      rw [handleNewClient]
      dsimp only
      split
      · exact (settles_respond _ requestId _).after (.of_eq rfl rfl rfl rfl rfl rfl)
      · exact (settles_replyWithError _ requestId _).after (.of_eq rfl rfl rfl rfl rfl rfl)
    | existingClient clientId data =>
      have h : Returns tx _ c _ := c.returns_handleExistingClient o clientId data requestId
      dsimp only
      split
      · rename_i c' heq
        rw [heq] at h
        exact h.settles
      · rename_i c' err herr heq
        rw [heq] at h
        have hc := h.settles
        rw [if_neg herr] at hc
        exact (settles_replyWithError _ requestId err).after
          ((c'.calm_removeClient clientId).settles.after hc)
    | closeClient clientId =>
      exact (settles_replyWithError _ requestId .ok).after (c.calm_removeClient clientId).settles
    | createNewRaftGroup => exact c.settles_handleCreateNewRaftGroupRequest o requestId honce
    | joinRaft peerId => exact c.settles_handleJoinRaft o htx requestId peerId honce
    | pingPeer peerId =>
      cases peerId with
      | none => exact c.settles_replyWithError ..
      | some peer => exact c.settles_askPeer ..
    | refreshAttestation rotate =>
      exact (settles_replyWithError _ requestId _).after
        (c.calm_peerManagerRefreshAttestation o).settles
    | requestVoting => exact c.settles_askLeader ..
    | getEnclaveStatus => exact c.settles_respond ..
    | metrics => exact c.settles_respond ..
    | databaseRequest authenticatedId request =>
      change Settles tx _ c (c.handleHostDatabaseRequest o requestId authenticatedId request).1
      rw [handleHostDatabaseRequest.eq_def]
      split
      · exact (Settles.refl c).le (Nat.zero_le _)
      · split
        · exact (Settles.refl c).le (Nat.zero_le _)
        · refine (c.returns_raftWriteLogTransaction o _ (.reply requestId)).settles.le ?_
          split_ifs
          · exact le_rfl
          · exact Nat.zero_le _
    | reconfigure config =>
      exact (settles_replyWithError _ requestId _).after (c.settles_handleReconfigure config)
    | setLogLevel level => exact c.settles_replyWithError ..
    | relinquishLeadership => exact c.settles_handleRelinquishLeadership o requestId
    | requestRemoval => exact c.settles_askLeader ..
    | hashes =>
      have h : Returns tx _ c _ := c.returns_handleHostHashes requestId
      dsimp only
      split
      · rename_i c' heq
        rw [heq] at h
        exact h.settles
      · rename_i c' err herr heq
        rw [heq] at h
        exact c.settles_reportError h herr
    | resetPeerId id =>
      cases id with
      | none => exact (Settles.refl c).le (Nat.zero_le _)
      | some id =>
        exact (settles_replyWithError _ requestId _).after (c.settles_resetPeer o id)
    | updateMinimums update => exact c.settles_handleUpdateMinimums o requestId update
    | notSet => exact (Settles.refl c).le (Nat.zero_le _)

/-! ### Ticks and messages from other enclaves -/

omit [DecidableEq Hash] [Platform Hash] [Database DB] in
/-- The first transaction with an id is taken, and those with another id are kept. -/
theorem countP_take {α : Type} {p q : α → Bool} {l : List α} {t : α} (h : l.find? p = some t) :
    (l.filter fun a => !p a).countP q + [t].countP q ≤ l.countP q := by
  have hmem : t ∈ l.filter p := List.mem_filter.mpr ⟨List.mem_of_find?_eq_some h,
    List.find?_some h⟩
  have hle : [t].countP q ≤ (l.filter p).countP q :=
    (List.singleton_sublist.mpr hmem).countP_le
  rw [List.countP_eq_countP_filter_add l q p]
  omega

omit [DecidableEq Hash] [Platform Hash] in
theorem settles_timeoutFn {fn : TimeoutFn} (hfn : fn ≠ .requestMembership tx) :
    Settles tx 0 c (c.timeoutFn o fn) := by
  cases fn with
  | requestMembership requestId =>
    rw [timeoutFn]
    split_ifs
    · exact c.settles_raftRequestMembership o (by simpa using hfn)
    · exact .refl c
  | e2eTransaction id =>
    rw [timeoutFn]
    split
    · exact .refl c
    · rename_i t ht
      refine c.settles_cancelE2ETransactions o
        (c.outstandingE2ETransactions.filter fun t => t.1 ≠ id) [t] _
        (fun t ht => (List.mem_filter.mp ht).1) ?_ (.refl _)
      have hcount := countP_take (q := E2ECall.answers tx) ht
      simpa using hcount
  | sendTimestampToAll => exact c.settles_sendTimestampToAll o

omit [DecidableEq Hash] [Platform Hash] in
theorem settles_timeoutTimerTick : Settles tx 0 c (c.timeoutTimerTick o) := by
  refine ⟨fun hc => Settles.holds ?_ hc⟩
  rw [timeoutTimerTick]
  dsimp only
  refine Settles.after (Settles.foldl_zero _ (fun c fn hfn => ?_) _) ?_
  · refine c.settles_timeoutFn o ?_
    obtain ⟨e, he, rfl⟩ := List.mem_map.mp ((o.shuffle_perm _).mem_iff.mp hfn)
    exact hc.timeouts e (List.mem_filter.mp he).1
  · refine ⟨fun hc => ⟨⟨hc.waiting, hc.loading, hc.calls, fun e he => ?_⟩, le_rfl⟩⟩
    exact hc.timeouts e (List.mem_filter.mp he).1

theorem settles_handleTimerTick (time : Nat) : Settles tx 0 c (c.handleTimerTick o time) := by
  have htick : Settles tx 0 c
      (({ c with localTime := time }.maybeUpdateGroupTime o).timeoutTimerTick o) :=
    (settles_timeoutTimerTick _ o).after
      ((calm_maybeUpdateGroupTime _ o).settles.after (.of_eq rfl rfl rfl rfl rfl rfl))
  rw [handleTimerTick]
  refine Settles.after ?_ htick
  generalize ({ c with localTime := time }.maybeUpdateGroupTime o).timeoutTimerTick o = c
  split_ifs
  · exact .refl c
  · split
    · exact c.calm_abort.settles
    · rename_i r _
      refine Settles.after ?_ (c.calm_connectToRaftMembers o r).settles
      rw [raftTimerTick]
      refine (settles_raftStep _ o).after ?_
      dsimp only
      split
      · exact (settles_called ..).after (settles_called ..)
      · exact settles_called ..

omit [DecidableEq Hash] [Platform Hash] in
theorem settles_respondE2E (dst : PeerId) (id : TransactionID) (err : Error)
    (resp : TransactionResponse Hash) : Settles tx 0 c (c.respond dst id err resp).1 := by
  have hsend : ∀ msg, Settles tx 0 c (c.sendToPeer dst msg).1 := fun msg =>
    (c.calm_sendAnyToPeer dst msg).settles
  rw [respond.eq_def]
  split_ifs
  · exact hsend _
  · split
    · exact hsend _
    · exact hsend _

theorem settles_logMembershipChange (r : Raft Hash) (e : LogEntry Hash)
    (respond : LogLocation Hash → TransactionResponse Hash) :
    Settles tx 0 c (c.logMembershipChange o r e respond).1 := by
  rw [logMembershipChange]
  split
  · exact (settles_raftStep _ o).after (.of_eq rfl rfl rfl rfl rfl rfl)
  · exact .of_eq rfl rfl rfl rfl rfl rfl

theorem settles_handleRequestRaftMembership (src : PeerId) :
    Settles tx 0 c (c.handleRequestRaftMembership o src).1 := by
  rw [handleRequestRaftMembership]
  split_ifs
  · exact .refl c
  · split
    · exact c.calm_abort.settles
    · dsimp only
      split_ifs
      · exact .refl c
      · exact c.settles_logMembershipChange ..

theorem settles_handleRequestRaftVoting (src : PeerId) :
    Settles tx 0 c (c.handleRequestRaftVoting o src).1 := by
  rw [handleRequestRaftVoting]
  split_ifs
  · exact .refl c
  · split
    · exact c.calm_abort.settles
    · split_ifs
      · exact .refl c
      · exact c.settles_logMembershipChange ..
      · exact .refl c

theorem settles_handleRaftWrite (entry : LogEntry Hash) :
    Settles tx 0 c (c.handleRaftWrite o entry).1 := by
  rw [handleRaftWrite]
  split_ifs
  · exact .refl c
  · split
    · exact c.calm_abort.settles
    · split_ifs
      · exact .refl c
      · exact c.settles_logMembershipChange ..

theorem settles_handlePeerRequestedRaftRemoval (src : PeerId) (id : TransactionID) :
    Settles tx 0 c (c.handlePeerRequestedRaftRemoval o src id) := by
  rw [handlePeerRequestedRaftRemoval]
  split_ifs
  · exact (c.calm_sendE2EError ..).settles
  · split
    · exact c.calm_abort.settles
    · dsimp only
      split_ifs
      · exact (c.calm_sendE2EError ..).settles
      · split
        · refine (settles_raftStep _ o).after ?_
          exact (settles_addLogTransaction _ _ (.peerRequestedRemoval src id)).after
            (.of_eq rfl rfl rfl rfl rfl rfl)
        · exact (calm_sendE2EError ..).settles.after (.of_eq rfl rfl rfl rfl rfl rfl)

variable [PushSize Hash]

theorem settles_handleE2ETransaction (src : PeerId) (id : TransactionID)
    (req : TransactionRequest Hash) : Settles tx 0 c (c.handleE2ETransaction o src id req).1 := by
  cases req with
  | ping => exact c.settles_respondE2E ..
  | getRaft =>
    rw [handleE2ETransaction]
    split_ifs
    · exact c.settles_respondE2E ..
    · split
      · exact c.calm_abort.settles
      · exact c.settles_respondE2E ..
  | replicateState groupId replicationId => exact c.settles_handleReplicateStateRequest ..
  | replicateStatePush push =>
    exact (settles_respondE2E ..).after (c.settles_handleReplicateStatePush push)
  | raftMembershipRequest =>
    exact (settles_respondE2E ..).after (c.settles_handleRequestRaftMembership o src)
  | raftVotingRequest =>
    exact (settles_respondE2E ..).after (c.settles_handleRequestRaftVoting o src)
  | raftWrite entry => exact (settles_respondE2E ..).after (c.settles_handleRaftWrite o entry)
  | newTimestampUnixSecs time =>
    exact (settles_respondE2E ..).after (c.calm_maybeUpdateGroupTime o).settles
  | raftRemovalRequest => exact c.settles_handlePeerRequestedRaftRemoval ..
  | notSet => exact c.settles_respondE2E ..

omit [DecidableEq Hash] [Platform Hash] [PushSize Hash] in
theorem settles_handlePeerConnect (src : PeerId) : Settles tx 0 c (c.handlePeerConnect o src) := by
  rw [handlePeerConnect]
  refine Settles.after ?_ (c.settles_sendTimestamp o src c.localTime)
  generalize c.sendTimestamp o src c.localTime = c
  split
  · split_ifs
    · exact .refl c
    · exact c.settles_requestRaftReplication o
  · split_ifs
    · exact c.settles_joinRaftFromFirstPeer o
    · exact .refl c
  · split
    · exact c.calm_abort.settles
    · exact .of_eq rfl rfl rfl rfl rfl rfl
  · split
    · exact c.calm_abort.settles
    · exact .of_eq rfl rfl rfl rfl rfl rfl
  · exact .refl c

theorem settles_handleE2EResponse (htx : tx ≠ 0) (id : TransactionID)
    (resp : TransactionResponse Hash) : Settles tx 0 c (c.handleE2EResponse o id resp) := by
  rw [handleE2EResponse]
  split
  · exact .refl c
  · rename_i t ht
    refine ⟨fun hc => ?_⟩
    have hjoin : t.2.callback.join ≠ some tx := hc.calls t (List.mem_of_find?_eq_some ht)
    have hrun := (settles_e2eCallback _ o htx resp hjoin).after (settles_cancelTimeout
      { c with outstandingE2ETransactions := c.outstandingE2ETransactions.filter fun t => t.1 ≠ id }
      t.2.timeoutCancel)
    obtain ⟨hfree, hle⟩ := hrun.holds ⟨hc.waiting, hc.loading,
      fun t ht => hc.calls t (List.mem_filter.mp ht).1, hc.timeouts⟩
    refine ⟨hfree, hle.trans ?_⟩
    have hcount := countP_take (q := E2ECall.answers tx) ht
    have hfilter : (c.outstandingE2ETransactions.filter fun t => t.1 ≠ id) =
        c.outstandingE2ETransactions.filter fun t => !decide (t.1 = id) := by simp
    have hone : [t].countP (E2ECall.answers tx) = share t.2.callback.request tx := by
      simp [E2ECall.answers, share]
    dsimp only [balance, owed, repliesTo]
    rw [hfilter]
    omega

theorem settles_handleE2E (htx : tx ≠ 0) (src : PeerId) (msg : E2EMessage Hash) :
    Settles tx 0 c (c.handleE2E o src msg).1 := by
  cases msg with
  | connected => exact c.settles_handlePeerConnect o src
  | raftMessage rm =>
    rw [handleE2E]
    split_ifs
    · exact .refl c
    · split
      · exact c.calm_abort.settles
      · exact (settles_raftStep _ o).after (.of_eq rfl rfl rfl rfl rfl rfl)
  | transactionRequest id req => exact c.settles_handleE2ETransaction o src id req
  | transactionResponse id resp => exact c.settles_handleE2EResponse o htx id resp
  | attestationUpdate => exact .refl c

end Core

def UntrustedMessage.requestId : UntrustedMessage Hash DB → Option TransactionID
  | .h2eRequest tx _ => some tx
  | _ => none

namespace Core

variable (c : Core Hash DB) (o : CoreOracle) {tx : TransactionID} [DecidableEq Hash]
  [Platform Hash] [PushSize Hash]

/-- Handling a message adds at most its own request to what is answered or left to answer. -/
theorem settles_receive (htx : tx ≠ 0) (m : UntrustedMessage Hash DB) (honce : AnswersOnce tx c o m) :
    Settles tx (share m.requestId tx)
      { c with out := [], calls := [], promotions := [], answers := [] } (c.receive o m).1 := by
  cases m with
  | h2eRequest requestId req => exact settles_handleHostToEnclave _ o htx requestId req honce
  | timerTick time => exact settles_handleTimerTick _ o time
  | resetPeer id =>
    cases id with
    | none => exact .refl _
    | some id => exact settles_resetPeer _ o id
  | peerMessage src msg =>
    change Settles tx 0 _ (handlePeerMessage _ o src msg).1
    have hrecv : Settles tx 0 _ _ :=
      (calm_recvFromPeer { c with out := [], calls := [], promotions := [], answers := [] }
        o src msg).settles
    rw [handlePeerMessage]
    split
    · rename_i c' decoded heq
      rw [heq] at hrecv
      exact (c'.settles_handleE2E o htx src decoded).after hrecv
    · rename_i c' err _ _ heq
      rw [heq] at hrecv
      exact hrecv

/-! ### Runs -/

/-- The core handles a message, unless its process has ended. -/
def step (c : Core Hash DB) (e : CoreOracle × UntrustedMessage Hash DB) : Core Hash DB :=
  if c.aborted then { c with out := [] } else (c.receive e.1 e.2).1

def served (c : Core Hash DB) (es : List (CoreOracle × UntrustedMessage Hash DB)) : Core Hash DB :=
  es.foldl step c

def responses (tx : TransactionID) :
    Core Hash DB → List (CoreOracle × UntrustedMessage Hash DB) → List (HostResponse Hash DB)
  | _, [] => []
  | c, e :: es => (c.step e).repliesTo tx ++ responses tx (c.step e) es

theorem step_owed (htx : tx ≠ 0) {e : CoreOracle × UntrustedMessage Hash DB}
    (hc : c.NotJoining tx) (honce : AnswersOnce tx c e.1 e.2) :
    (c.step e).NotJoining tx ∧
      (c.step e).owed tx + ((c.step e).repliesTo tx).length ≤ c.owed tx + share e.2.requestId tx := by
  rw [step]
  split_ifs
  · exact ⟨⟨hc.waiting, hc.loading, hc.calls, hc.timeouts⟩, Nat.le_add_right ..⟩
  · exact (c.settles_receive e.1 htx e.2 honce).holds
      ⟨hc.waiting, hc.loading, hc.calls, hc.timeouts⟩

/-- Over a run, a request is answered at most as often as callbacks were left to answer it and as
    it was made. -/
theorem responses_length_le (htx : tx ≠ 0) (es : List (CoreOracle × UntrustedMessage Hash DB))
    (hc : c.NotJoining tx)
    (honce : ∀ n e, es[n]? = some e → AnswersOnce tx (c.served (es.take n)) e.1 e.2) :
    (c.responses tx es).length ≤ c.owed tx + es.countP fun e => e.2.requestId = some tx := by
  induction es generalizing c with
  | nil => exact Nat.zero_le _
  | cons e es ih =>
    obtain ⟨hnext, hle⟩ := c.step_owed htx hc (honce 0 e rfl)
    have hrest := ih (c.step e) hnext fun n e' he' => honce (n + 1) e' he'
    rw [responses, List.length_append, List.countP_cons]
    have hshare : share e.2.requestId tx = if decide (e.2.requestId = some tx) = true then 1 else 0 := by
      simp [share]
    omega

omit [DecidableEq Hash] [Platform Hash] [PushSize Hash] in
theorem create_owed {me : PeerId} {groupConfig : RaftGroupConfig} {config : EnclaveConfig}
    {time : Nat} (hcreate : create me groupConfig config o time = .ok c) (htx : tx ≠ 0) :
    c.NotJoining tx ∧ c.owed tx = 0 := by
  rw [create] at hcreate
  split at hcreate
  · obtain rfl := Except.ok.inj hcreate
    refine ⟨⟨htx.symm, htx.symm, ?_, ?_⟩, rfl⟩
    · exact fun t ht => (nomatch ht)
    · intro t ht
      rw [List.mem_singleton.mp ht]
      nofun
  · simp at hcreate
  · simp at hcreate

/-- At most one response per request, unless it is a refused request to create a group or an
    accepted one to join. -/
theorem at_most_one_response {me : PeerId} {groupConfig : RaftGroupConfig} {config : EnclaveConfig}
    {time : Nat} (hcreate : create me groupConfig config o time = .ok c) (htx : tx ≠ 0)
    (es : List (CoreOracle × UntrustedMessage Hash DB))
    (hused : (es.countP fun e => e.2.requestId = some tx) ≤ 1)
    (honce : ∀ n e, es[n]? = some e → AnswersOnce tx (c.served (es.take n)) e.1 e.2) :
    (c.responses tx es).length ≤ 1 := by
  obtain ⟨hfree, howed⟩ := c.create_owed o hcreate htx
  have hle := c.responses_length_le htx es hfree honce
  omega

end Core

namespace Sample

def createTwice : List (CoreOracle × UntrustedMessage IdealHash DB2) :=
  [(coreOracle 1, .h2eRequest 1 .createNewRaftGroup),
    (coreOracle 2, .h2eRequest 2 .createNewRaftGroup)]

/-- The peer to join connects twice, and answers none of the two transactions in time. -/
def joinTwice : List (CoreOracle × UntrustedMessage IdealHash DB2) :=
  [(coreOracle 1, .h2eRequest 1 (.joinRaft (some 2))), (coreOracle 1, .peerMessage 2 .synack),
    (coreOracle 1, .peerMessage 2 .syn), (coreOracle 1, .timerTick 1), (coreOracle 1, .timerTick 2),
    (coreOracle 1, .timerTick 3)]

/-- The second request to create a group is answered with an error and with success, and the request
    to join with two errors. -/
theorem two_responses :
    (createTwice.countP fun e => e.2.requestId = some 2) = 1 ∧
      ((core 1).responses 2 createTwice).length = 2 ∧
      (joinTwice.countP fun e => e.2.requestId = some 1) = 1 ∧
      ((core 1).responses 1 joinTwice).length = 2 := by
  decide +kernel

/-- A peer connects and is pinged twice; it answers the first ping, and the second when that has
    timed out. -/
def pings : List (CoreOracle × UntrustedMessage IdealHash DB2) :=
  [(coreOracle 1, .peerMessage 2 .syn), (coreOracle 1, .h2eRequest 1 (.pingPeer (some 2))),
    (coreOracle 1, .h2eRequest 2 (.pingPeer (some 2))), (coreOracle 1, .timerTick 1),
    (coreOracle 1, .peerMessage 2 (.data (.transactionResponse 2 (.status .ok)))),
    (coreOracle 1, .timerTick 2), (coreOracle 1, .timerTick 3),
    (coreOracle 1, .peerMessage 2 (.data (.transactionResponse 3 (.status .ok))))]

theorem answersOnce_pings {tx : TransactionID} {c : Core IdealHash DB2} {n : Nat}
    {e : CoreOracle × UntrustedMessage IdealHash DB2} (he : pings[n]? = some e) :
    Core.AnswersOnce tx c e.1 e.2 := by
  have hmem := List.mem_of_getElem? he
  simp only [pings, List.mem_cons, List.not_mem_nil, or_false] at hmem
  rcases hmem with rfl | rfl | rfl | rfl | rfl | rfl | rfl | rfl <;> trivial

/-- Both requests are answered once, the one by the callback of its transaction and the other by the
    timeout. -/
theorem at_most_one_response_pings :
    (core 1).responses 1 (pings.take 4) = [] ∧ ((core 1).responses 1 pings).length = 1 ∧
      (core 1).responses 2 (pings.take 6) = [] ∧ ((core 1).responses 2 pings).length = 1 := by
  have hone : ∀ tx : TransactionID, tx ≠ 0 → (pings.countP fun e => e.2.requestId = some tx) ≤ 1 →
      ((core 1).responses tx pings).length ≤ 1 := fun tx htx hused =>
    (core 1).at_most_one_response (coreOracle 0) (create_core 1) htx pings hused
      fun _ _ he => answersOnce_pings he
  exact ⟨by decide +kernel, le_antisymm (hone 1 (by decide) (by decide)) (by decide +kernel),
    by decide +kernel, le_antisymm (hone 2 (by decide) (by decide)) (by decide +kernel)⟩

end Sample

end SVR2
