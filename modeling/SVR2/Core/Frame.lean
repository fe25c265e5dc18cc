import SVR2.Core.Handlers
import SVR2.Raft.LogSpec

/-!
# What leaves the Raft state alone

Most functions of the core send messages, answer the host, or work on connections, clients, timeouts
and transactions, and leave `raft_` alone.  `Quiet` says so, and that what they send carries neither
log entries nor a membership nor a place in the log.
-/

namespace SVR2

open Lib

variable {Hash DB : Type}

/-- A message without log entries, membership or place in the log. -/
def E2EMessage.Light : E2EMessage Hash → Prop
  | .raftMessage _ => False
  | .transactionRequest _ (.replicateStatePush _) => False
  | .transactionRequest _ (.raftWrite _) => False
  | .transactionResponse _ (.status _) => True
  | .transactionResponse _ _ => False
  | _ => True

def EnclaveMessage.Carries [Database DB] (P : PeerId → E2EMessage Hash → Prop) :
    EnclaveMessage Hash DB → Prop
  | .peerMessage dst (.data msg) => msg.Light ∨ P dst msg
  | _ => True

variable [Database DB]

/-- The responses to a request of the host that were sent while the latest message was handled. -/
def Core.repliesTo (c : Core Hash DB) (tx : TransactionID) : List (HostResponse Hash DB) :=
  c.out.filterMap fun
    | .h2eResponse requestId resp => if requestId = tx then some resp else none
    | .peerMessage _ _ => none

/-- The push states are as they were, up to responses that may have been sent since. -/
structure PushStatesKept (l l' : List ReplicationPushState) : Prop where
  length : l'.length = l.length
  kept : ∀ {k : Nat} {ps : ReplicationPushState}, l[k]? = some ps →
    l'[k]? = some ps ∨ l'[k]? = some { ps with sentResponse := true }

namespace PushStatesKept

theorem refl (l : List ReplicationPushState) : PushStatesKept l l := ⟨rfl, fun h => .inl h⟩

theorem trans {l₁ l₂ l₃ : List ReplicationPushState} (h : PushStatesKept l₁ l₂)
    (h' : PushStatesKept l₂ l₃) : PushStatesKept l₁ l₃ := by
  refine ⟨h'.length.trans h.length, fun hps => ?_⟩
  rcases h.kept hps with hps | hps
  · exact h'.kept hps
  · exact .inr ((h'.kept hps).elim id id)

theorem set {l : List ReplicationPushState} {k : Nat} {ps : ReplicationPushState}
    (hps : l[k]? = some ps) : PushStatesKept l (l.set k { ps with sentResponse := true }) := by
  refine ⟨List.length_set, fun {k'} {ps'} hps' => ?_⟩
  by_cases hk : k = k'
  · subst hk
    obtain rfl := Option.some.inj (hps.symm.trans hps')
    exact .inr (List.getElem?_set_self (List.getElem?_eq_some_iff.mp hps).1)
  · rw [List.getElem?_set_ne hk]
    exact .inl hps'

end PushStatesKept

/-- `c'` is `c` after messages were sent that are light or of which `P` holds, with `raft_` and what
    belongs to it as it was, and unless `P` holds of pushes, the push states too.  Nothing leaves a
    process that has ended. -/
structure Sends (P : PeerId → E2EMessage Hash → Prop) (c c' : Core Hash DB) : Prop where
  me : c'.me = c.me
  template : c'.raftConfigTemplate = c.raftConfigTemplate
  config : c'.enclaveConfig = c.enclaveConfig
  minimums : c'.minimums = c.minimums
  raft : c'.raft = c.raft
  logTransactions : c'.outstandingLogTransactions = c.outstandingLogTransactions
  calls : c'.calls = c.calls
  promotions : c'.promotions = c.promotions
  aborted : c.aborted = true → c'.aborted = true
  silent : c.aborted = true → c'.out = c.out
  pushStates : (∀ dst id push, ¬P dst (.transactionRequest id (.replicateStatePush push))) →
    PushStatesKept c.pushStates c'.pushStates
  out : ∃ ms, c'.out = c.out ++ ms ∧ ∀ m ∈ ms, m.Carries P

/-- Only light messages were sent. -/
abbrev Quiet : Core Hash DB → Core Hash DB → Prop := Sends fun _ _ => False

theorem EnclaveMessage.Carries.mono {P Q : PeerId → E2EMessage Hash → Prop}
    {m : EnclaveMessage Hash DB} (h : m.Carries P) (hPQ : ∀ dst msg, P dst msg → Q dst msg) :
    m.Carries Q := by
  cases m with
  | h2eResponse => trivial
  | peerMessage dst pm =>
    cases pm with
    | data msg => exact h.imp id (hPQ dst msg)
    | _ => trivial

namespace Sends

variable {P Q : PeerId → E2EMessage Hash → Prop}

theorem mono {c c' : Core Hash DB} (h : Sends P c c') (hPQ : ∀ dst msg, P dst msg → Q dst msg) :
    Sends Q c c' := by
  obtain ⟨ms, hms, hcarries⟩ := h.out
  exact { h with
    pushStates := fun hQ => h.pushStates fun dst id push hP => hQ dst id push (hPQ dst _ hP)
    out := ⟨ms, hms, fun m hm => (hcarries m hm).mono hPQ⟩ }

theorem refl (c : Core Hash DB) : Sends P c c :=
  ⟨rfl, rfl, rfl, rfl, rfl, rfl, rfl, rfl, id, fun _ => rfl, fun _ => .refl _, [],
    (List.append_nil _).symm, by simp⟩

theorem trans {a b c : Core Hash DB} (hab : Sends P a b) (hbc : Sends P b c) : Sends P a c := by
  obtain ⟨ms, hms, hlight⟩ := hab.out
  obtain ⟨ms', hms', hlight'⟩ := hbc.out
  refine ⟨hbc.me.trans hab.me, hbc.template.trans hab.template, hbc.config.trans hab.config,
    hbc.minimums.trans hab.minimums, hbc.raft.trans hab.raft,
    hbc.logTransactions.trans hab.logTransactions, hbc.calls.trans hab.calls,
    hbc.promotions.trans hab.promotions, fun h => hbc.aborted (hab.aborted h),
    fun h => (hbc.silent (hab.aborted h)).trans (hab.silent h),
    fun hP => (hab.pushStates hP).trans (hbc.pushStates hP), ms ++ ms', ?_, ?_⟩
  · rw [hms', hms, List.append_assoc]
  · intro m hm
    rcases List.mem_append.mp hm with hm | hm
    · exact hlight m hm
    · exact hlight' m hm

theorem foldl {α : Type} {f : Core Hash DB → α → Core Hash DB} (l : List α)
    (hf : ∀ c, ∀ a ∈ l, Sends P c (f c a)) (c : Core Hash DB) : Sends P c (l.foldl f c) := by
  induction l generalizing c with
  | nil => exact refl c
  | cons a l ih =>
    exact (hf c a List.mem_cons_self).trans (ih (fun c b hb => hf c b (List.mem_cons_of_mem a hb)) _)

end Sends

theorem Sends.weaken {P : PeerId → E2EMessage Hash → Prop} {c c' : Core Hash DB} (h : Quiet c c') :
    Sends P c c' :=
  h.mono fun _ _ => False.elim

/-- Moreover the outstanding transactions and the timeouts are as they were, and the host was told
    nothing. -/
structure Calm (P : PeerId → E2EMessage Hash → Prop) (c c' : Core Hash DB) : Prop extends
    Sends P c c' where
  e2eTransactions : c'.outstandingE2ETransactions = c.outstandingE2ETransactions
  timeout : c'.timeout = c.timeout
  replies : ∀ tx, c'.repliesTo tx = c.repliesTo tx

abbrev Still : Core Hash DB → Core Hash DB → Prop := Calm fun _ _ => False

namespace Calm

variable {P : PeerId → E2EMessage Hash → Prop}

theorem refl (c : Core Hash DB) : Calm P c c := ⟨.refl c, rfl, rfl, fun _ => rfl⟩

theorem trans {a b c : Core Hash DB} (hab : Calm P a b) (hbc : Calm P b c) : Calm P a c :=
  ⟨hab.toSends.trans hbc.toSends, hbc.e2eTransactions.trans hab.e2eTransactions,
    hbc.timeout.trans hab.timeout, fun tx => (hbc.replies tx).trans (hab.replies tx)⟩

theorem foldl {α : Type} {f : Core Hash DB → α → Core Hash DB} (l : List α)
    (hf : ∀ c, ∀ a ∈ l, Calm P c (f c a)) (c : Core Hash DB) : Calm P c (l.foldl f c) := by
  induction l generalizing c with
  | nil => exact refl c
  | cons a l ih =>
    exact (hf c a List.mem_cons_self).trans (ih (fun c b hb => hf c b (List.mem_cons_of_mem a hb)) _)

theorem still_calm {c c' : Core Hash DB} (h : Still c c') : Calm P c c' :=
  ⟨h.toSends.weaken, h.e2eTransactions, h.timeout, h.replies⟩

end Calm

namespace Core

variable (c : Core Hash DB) (o : CoreOracle)

theorem sends_send {P : PeerId → E2EMessage Hash → Prop} {m : EnclaveMessage Hash DB}
    (hm : m.Carries P) : Sends P c (c.send m) := by
  refine ⟨rfl, rfl, rfl, rfl, rfl, rfl, rfl, rfl, id, fun h => by simp [send, h], fun _ => .refl _,
    if c.aborted then [] else [m], ?_, ?_⟩
  · rw [send]
    split_ifs <;> simp
  · intro m' hm'
    split_ifs at hm' <;> simp_all

theorem quiet_rest (peers : OrdMap PeerId Peer) (clients : OrdMap Nat Client)
    (clientIdGen localTime : Nat) (timeout : Timeout TimeoutFn) (e2eTxnId : TransactionID)
    (txns : List (TransactionID × E2ECall Hash)) (answers : List (ClientAnswer Hash DB)) :
    Quiet c { c with
      peers := peers, clients := clients, clientIdGen := clientIdGen, localTime := localTime
      timeout := timeout, e2eTxnId := e2eTxnId, outstandingE2ETransactions := txns
      answers := answers } :=
  ⟨rfl, rfl, rfl, rfl, rfl, rfl, rfl, rfl, id, fun _ => rfl, fun _ => .refl _, [],
    (List.append_nil _).symm, by simp⟩

theorem calm_send {P : PeerId → E2EMessage Hash → Prop} {dst : PeerId} {msg : PeerMessage Hash}
    (hm : (EnclaveMessage.peerMessage dst msg : EnclaveMessage Hash DB).Carries P) :
    Calm P c (c.send (.peerMessage dst msg)) := by
  refine ⟨c.sends_send hm, rfl, rfl, fun tx => ?_⟩
  rw [repliesTo, repliesTo, send]
  split_ifs <;> simp

/-- A change of the peers, the clients or what is noted of answers. -/
theorem calm_rest (peers : OrdMap PeerId Peer) (clients : OrdMap Nat Client)
    (answers : List (ClientAnswer Hash DB)) :
    Still c { c with peers := peers, clients := clients, answers := answers } :=
  ⟨c.quiet_rest .., rfl, rfl, fun _ => rfl⟩

theorem calm_pushStates {P : PeerId → E2EMessage Hash → Prop} {pushStates : List ReplicationPushState}
    (h : (∀ dst id push, ¬P dst (.transactionRequest id (.replicateStatePush push))) →
      PushStatesKept c.pushStates pushStates) : Calm P c { c with pushStates := pushStates } :=
  ⟨⟨rfl, rfl, rfl, rfl, rfl, rfl, rfl, rfl, id, fun _ => rfl, h, [], (List.append_nil _).symm, by simp⟩,
    rfl, rfl, fun _ => rfl⟩

theorem calm_check (b : Bool) : Still c (c.check b) := by
  refine ⟨⟨rfl, rfl, rfl, rfl, rfl, rfl, rfl, rfl, fun h => ?_, fun _ => rfl, fun _ => .refl _, [], ?_, ?_⟩,
    rfl, rfl, fun _ => rfl⟩
  · simp [check, h]
  · simp [check]
  · simp

theorem calm_abort : Still c c.abort := c.calm_check false

theorem quiet_replyWithError (tx : TransactionID) (err : Error) :
    Quiet c (c.replyWithError tx err) :=
  c.sends_send trivial

/-! ### Peers and clients -/

theorem calm_setPeer (id : PeerId) (peer : Peer) : Still c (c.setPeer id peer) :=
  c.calm_rest ..

theorem calm_sendRst (id : PeerId) : Still c (c.sendRst id) := c.calm_send trivial

theorem calm_disconnect (id : PeerId) : Still c (c.disconnect id) :=
  (c.calm_setPeer id {}).trans (calm_sendRst _ id)

theorem calm_connectToPeer (dst : PeerId) : Still c (c.connectToPeer o dst).1 := by
  rw [connectToPeer]
  split
  · exact (c.calm_setPeer dst _).trans (calm_send _ trivial)
  · exact c.calm_setPeer dst {}

theorem calm_maybeConnectToPeer (dst : PeerId) : Still c (c.maybeConnectToPeer o dst).1 := by
  rw [maybeConnectToPeer]
  split
  · exact c.calm_connectToPeer o dst
  · exact .refl c

theorem calm_peerManagerResetPeer (id : PeerId) : Still c (c.peerManagerResetPeer id).1 := by
  rw [peerManagerResetPeer]
  split
  · exact c.calm_sendRst id
  · exact c.calm_disconnect id

theorem calm_sendToPeer {P : PeerId → E2EMessage Hash → Prop} {dst : PeerId}
    {msg : E2EMessage Hash} (hmsg : msg.Light ∨ P dst msg) : Calm P c (c.sendToPeer dst msg).1 := by
  rw [sendToPeer]
  split
  · exact (c.calm_sendRst dst).still_calm
  · split_ifs
    · exact .refl c
    · exact c.calm_send hmsg

theorem calm_sendAnyToPeer (dst : PeerId) (msg : E2EMessage Hash) :
    Calm (fun _ _ => True) c (c.sendToPeer dst msg).1 :=
  c.calm_sendToPeer (.inr trivial)

theorem calm_finishConnection (src : PeerId) : Still c (c.finishConnection o src).1 := by
  rw [finishConnection]
  split
  · exact .refl c
  · split
    · exact c.calm_setPeer src _
    · exact .refl c

theorem calm_recvFromPeer (src : PeerId) (msg : PeerMessage Hash) :
    Still c (c.recvFromPeer o src msg).1 := by
  cases msg with
  | syn =>
    have h := (c.calm_setPeer src {}).trans (calm_finishConnection _ o src)
    rw [recvFromPeer]
    split
    · rename_i c' heq
      have hc' : c' = ((c.internalDisconnect src).finishConnection o src).1 := by rw [heq]
      rw [hc']
      exact h.trans (calm_send _ trivial)
    · rename_i c' err _ heq
      have hc' : c' = ((c.internalDisconnect src).finishConnection o src).1 := by rw [heq]
      rw [hc']
      exact h
  | synack =>
    rw [recvFromPeer]
    split
    · exact c.calm_sendRst src
    · split_ifs
      · exact c.calm_disconnect src
      · have h := c.calm_finishConnection o src
        split
        · rename_i c' heq
          rw [heq] at h
          exact h
        · rename_i c' err _ heq
          rw [heq] at h
          exact h.trans (calm_disconnect _ src)
  | data msg =>
    rw [recvFromPeer]
    split
    · exact c.calm_sendRst src
    · split_ifs
      · exact .refl c
      · split
        · exact c.calm_setPeer src _
        · exact c.calm_disconnect src
        · exact .refl c
  | garbled =>
    rw [recvFromPeer]
    split
    · exact c.calm_sendRst src
    · split_ifs
      · exact .refl c
      · exact c.calm_disconnect src
  | rst =>
    rw [recvFromPeer]
    split
    · exact .refl c
    · exact c.calm_setPeer src {}

theorem calm_setPeerAttestationTimestamp : Still c (c.setPeerAttestationTimestamp o) := by
  rw [setPeerAttestationTimestamp]
  refine Calm.foldl _ (fun c e _ => ?_) c
  exact c.calm_disconnect e.1

theorem calm_minimumsUpdated : Still c c.minimumsUpdated := by
  rw [minimumsUpdated]
  refine Calm.foldl _ (fun c e _ => ?_) c
  exact c.calm_disconnect e.1

theorem calm_peerManagerRefreshAttestation : Still c (c.peerManagerRefreshAttestation o).1 := by
  rw [peerManagerRefreshAttestation]
  split
  · refine Calm.foldl _ (fun c e _ => ?_) c
    exact c.calm_sendToPeer (.inl trivial)
  · exact .refl c

theorem calm_removeClient (id : Nat) : Still c (c.removeClient id) :=
  c.calm_rest ..

/-- What the peer manager hands on is what was sent, or that the connection stands. -/
theorem recvFromPeer_decoded {src : PeerId} {msg : PeerMessage Hash} {c' : Core Hash DB}
    {err : Error} {decoded : E2EMessage Hash}
    (h : c.recvFromPeer o src msg = (c', err, some decoded)) :
    decoded = .connected ∨ msg = .data decoded := by
  cases msg with
  | syn =>
    rw [recvFromPeer] at h
    split at h <;> simp_all
  | synack =>
    rw [recvFromPeer] at h
    split at h
    · simp at h
    · split_ifs at h
      · simp at h
      · split at h <;> simp_all
  | data msg =>
    rw [recvFromPeer] at h
    split at h
    · simp at h
    · split_ifs at h
      · simp at h
      · split at h <;> simp_all
  | garbled =>
    rw [recvFromPeer] at h
    split at h
    · simp at h
    · split_ifs at h <;> simp at h
  | rst =>
    rw [recvFromPeer] at h
    split at h <;> simp at h

/-! ### Timeouts and callbacks -/

theorem quiet_setTimeout (ticksFromNow : Nat) (fn : TimeoutFn) :
    Quiet c (c.setTimeout ticksFromNow fn).1 :=
  ⟨rfl, rfl, rfl, rfl, rfl, rfl, rfl, rfl, fun h => by simp [setTimeout, check, h], fun _ => rfl,
    fun _ => .refl _, [], by simp [setTimeout, check], by simp⟩

theorem quiet_cancelTimeout (tc : Cancel) : Quiet c (c.cancelTimeout tc) :=
  c.quiet_rest ..

theorem calm_sendE2EError (dst : PeerId) (id : TransactionID) (err : Error) :
    Still c (c.sendE2EError dst id err).1 :=
  c.calm_sendToPeer (.inl trivial)

theorem calm_noteAnswer (entry : LogEntry Hash) (result : Except Error (Database.Response DB)) :
    Still c (c.noteAnswer entry result) :=
  c.calm_rest ..

theorem quiet_closeClientWith (clientId : Nat) (tx : TransactionID) (entry : LogEntry Hash)
    (err : Error) : Quiet c (c.closeClientWith clientId tx entry err) :=
  ((c.calm_noteAnswer entry _).toSends.trans (quiet_replyWithError _ tx err)).trans
    (calm_removeClient _ clientId).toSends

theorem quiet_clientLogTransaction (clientId : Nat) (tx : TransactionID) (entry : LogEntry Hash)
    (err : Error) (response : Option (Database.Response DB)) :
    Quiet c (c.clientLogTransaction o clientId tx entry err response) := by
  rw [clientLogTransaction.eq_def]
  by_cases hcancelled : err = .coreLogTransactionCancelled
  · rw [if_pos hcancelled]
    exact c.quiet_closeClientWith ..
  · rw [if_neg hcancelled]
    by_cases herr : err ≠ .ok
    · rw [if_pos herr]
      exact c.quiet_closeClientWith ..
    · rw [if_neg herr]
      cases response with
      | none => exact c.quiet_closeClientWith ..
      | some response =>
        dsimp only
        split_ifs
        · split
          · exact (c.calm_noteAnswer entry _).toSends.trans (sends_send _ trivial)
          · exact c.quiet_closeClientWith ..
        · exact c.quiet_closeClientWith ..

theorem quiet_logTransactionCallback (err : Error) (response : Option (Database.Response DB))
    (cb : LogTransactionCallback Hash) : Quiet c (c.logTransactionCallback o err response cb) := by
  cases cb with
  | client clientId tx entry => exact c.quiet_clientLogTransaction ..
  | reply tx => exact c.quiet_replyWithError tx err
  | requestMembership tx cancel =>
    rw [logTransactionCallback]
    split_ifs
    · exact (c.quiet_cancelTimeout cancel).trans (quiet_replyWithError _ tx err)
    · exact c.quiet_replyWithError tx err
  | peerRequestedRemoval src tx => exact (c.calm_sendE2EError src tx err).toSends

theorem calm_setPushState (k : Nat) (ps : ReplicationPushState) :
    Calm (fun _ _ => True) c (c.setPushState k ps) :=
  c.calm_pushStates fun hno => absurd trivial (hno 0 0 ⟨0, 0, 0, [], false, [], []⟩)

theorem calm_setSentResponse {k : Nat} {ps : ReplicationPushState} (hps : c.pushStates[k]? = some ps) :
    Still c (c.setPushState k { ps with sentResponse := true }) :=
  c.calm_pushStates fun _ => .set hps

theorem quiet_e2eCallbackError (err : Error) (callback : E2ECallback Hash) :
    Quiet c (c.e2eCallbackError o err callback) := by
  cases callback with
  | reply tx => exact c.quiet_replyWithError tx err
  | joinRaftFromFirstPeer tx peer => exact c.quiet_replyWithError tx err
  | requestRaftReplication src tx => exact c.quiet_replyWithError tx err
  | requestMembership tx cancel => exact .refl c
  | sendNextReplicationState k last =>
    rw [e2eCallbackError]
    split
    · exact c.calm_abort.toSends
    · rename_i ps hps
      split_ifs
      · exact .refl c
      · exact ((c.calm_setSentResponse hps).trans (calm_sendE2EError ..)).toSends
  | raftWrite cb => exact c.quiet_logTransactionCallback o err none cb
  | sendTimestamp => exact .refl c

/-! ### Transactions -/

theorem sends_sendE2ETransaction {P : PeerId → E2EMessage Hash → Prop} {dst : PeerId}
    {req : TransactionRequest Hash}
    (hreq : (E2EMessage.transactionRequest (c.e2eTxnId + 1) req).Light ∨
      P dst (.transactionRequest (c.e2eTxnId + 1) req)) (withTimeout : Bool)
    (callback : E2ECallback Hash) :
    Sends P c (c.sendE2ETransaction o dst req withTimeout callback) := by
  have hsend := (c.quiet_rest c.peers c.clients c.clientIdGen c.localTime c.timeout (c.e2eTxnId + 1)
    c.outstandingE2ETransactions c.answers).weaken.trans (calm_sendToPeer _ hreq).toSends
  rw [sendE2ETransaction]
  dsimp only
  split
  · rename_i c' heq
    rw [heq] at hsend
    refine hsend.trans ?_
    cases withTimeout with
    | false => exact (c'.quiet_rest ..).weaken
    | true => exact ((c'.quiet_setTimeout _ _).trans (quiet_rest ..)).weaken
  · rename_i c' err _ heq
    rw [heq] at hsend
    exact hsend.trans (quiet_e2eCallbackError ..).weaken

theorem sends_anyE2ETransaction (dst : PeerId) (req : TransactionRequest Hash) (withTimeout : Bool)
    (callback : E2ECallback Hash) :
    Sends (fun _ _ => True) c (c.sendE2ETransaction o dst req withTimeout callback) :=
  c.sends_sendE2ETransaction o (.inr trivial) withTimeout callback

theorem quiet_sendTimestamp (dst : PeerId) (unixSecs : Nat) :
    Quiet c (c.sendTimestamp o dst unixSecs) := by
  rw [sendTimestamp]
  exact c.sends_sendE2ETransaction o (.inl (by trivial)) true _

theorem quiet_sendTimestampToAll : Quiet c (c.sendTimestampToAll o) := by
  rw [sendTimestampToAll]
  refine (Sends.foldl _ (fun c e _ => ?_) c).trans (quiet_setTimeout ..)
  exact c.quiet_sendTimestamp o e.1 _

theorem quiet_resetPeer (id : PeerId) : Quiet c (c.resetPeer o id).1 := by
  rw [resetPeer]
  dsimp only
  refine Sends.trans ?_ (Sends.foldl _ (fun c t _ => ?_) _)
  · refine Sends.trans ?_ (calm_peerManagerResetPeer _ id).toSends
    refine Sends.trans (c.quiet_rest ..) (Sends.foldl _ (fun c t _ => ?_) _)
    exact c.quiet_cancelTimeout t.2.timeoutCancel
  · exact c.quiet_e2eCallbackError o _ t.2.callback

theorem quiet_raftRequestMembership (tx : TransactionID) :
    Quiet c (c.raftRequestMembership o tx) := by
  rw [raftRequestMembership]
  dsimp only
  have hset := (c.calm_check (c.raft.state = .loadedRequestingMembership)).toSends.trans
    (quiet_setTimeout _ (c.check (c.raft.state = .loadedRequestingMembership)).enclaveConfig.e2eTxnTimeoutTicks
      (.requestMembership tx))
  refine hset.trans ?_
  split
  · exact (calm_abort _).toSends
  · refine Sends.foldl _ (fun c peer _ => ?_) _
    exact c.sends_sendE2ETransaction o (.inl (by trivial)) true _

theorem quiet_joinRaftFromFirstPeer : Quiet c (c.joinRaftFromFirstPeer o) := by
  rw [joinRaftFromFirstPeer]
  exact (c.calm_check _).toSends.trans (sends_sendE2ETransaction _ o (.inl (by trivial)) true _)

theorem calm_connectToReplicas (group : ReplicaGroup) :
    Still c (connectToReplicas o c group).1 := by
  induction group generalizing c with
  | nil => exact .refl c
  | cons replica rest ih =>
    rw [connectToReplicas]
    split
    · exact .refl c
    · rename_i p _
      have h := c.calm_maybeConnectToPeer o p
      split
      · rename_i c' heq
        rw [heq] at h
        exact h.trans (ih c')
      · rename_i c' err _ heq
        rw [heq] at h
        exact h

theorem quiet_timeoutFn (fn : TimeoutFn) : Quiet c (c.timeoutFn o fn) := by
  cases fn with
  | requestMembership tx =>
    rw [timeoutFn]
    split_ifs
    · exact c.quiet_raftRequestMembership o tx
    · exact .refl c
  | e2eTransaction tx =>
    rw [timeoutFn]
    split
    · exact .refl c
    · exact (c.quiet_rest ..).trans (quiet_e2eCallbackError ..)
  | sendTimestampToAll => exact c.quiet_sendTimestampToAll o

theorem quiet_timeoutTimerTick : Quiet c (c.timeoutTimerTick o) := by
  rw [timeoutTimerTick]
  dsimp only
  exact Sends.trans (c.quiet_rest ..) (Sends.foldl _ (fun c fn _ => c.quiet_timeoutFn o fn) _)

theorem calm_maybeUpdateGroupTime : Still c (c.maybeUpdateGroupTime o) := by
  rw [maybeUpdateGroupTime]
  refine Calm.trans ?_ (calm_setPeerAttestationTimestamp _ o)
  split
  · exact c.calm_check _
  · exact c.calm_check _
  · exact c.calm_check _
  · exact .refl c

theorem calm_connectToRaftMembers (r : Raft Hash) : Still c (c.connectToRaftMembers o r) :=
  Calm.foldl _ (fun c peer _ => c.calm_maybeConnectToPeer o peer) c

/-! ### Requests of the host -/

theorem quiet_handleNewClient (authenticatedId : Bytes) (tx : TransactionID) :
    Quiet c (c.handleNewClient o authenticatedId tx) := by
  rw [handleNewClient]
  dsimp only
  split
  · exact Sends.trans (c.quiet_rest ..) (sends_send _ trivial)
  · exact Sends.trans (c.quiet_rest ..) (quiet_replyWithError ..)

theorem quiet_askLeader (tx : TransactionID) (refuses : Raft Hash → Bool) (err : Error)
    {req : TransactionRequest Hash} (hreq : (E2EMessage.transactionRequest (c.e2eTxnId + 1) req).Light) :
    Quiet c (c.askLeader o tx refuses err req) := by
  rw [askLeader]
  split_ifs
  · exact c.quiet_replyWithError ..
  · split
    · exact c.calm_abort.toSends
    · split_ifs
      · exact c.quiet_replyWithError ..
      · split
        · exact c.quiet_replyWithError ..
        · exact c.sends_sendE2ETransaction o (.inl hreq) _ _

theorem quiet_handleHostHashes (tx : TransactionID) : Quiet c (c.handleHostHashes tx).1 := by
  rw [handleHostHashes]
  split_ifs
  · exact .refl c
  · split
    · split
      · exact .refl c
      · exact c.sends_send trivial
    · exact c.calm_abort.toSends

theorem quiet_pingPeer (peer : PeerId) (tx : TransactionID) :
    Quiet c (c.sendE2ETransaction o peer .ping true (.reply tx)) :=
  c.sends_sendE2ETransaction o (.inl (by trivial)) _ _

theorem calm_respond_error (dst : PeerId) (id : TransactionID) (err : Error) :
    Still c (c.respond dst id err .notSet).1 := by
  rw [respond.eq_def]
  split_ifs
  · exact c.calm_sendE2EError ..
  · exact c.calm_sendE2EError ..

/-! ### Steps of Raft -/

theorem calm_raftSendMessages {r : Raft Hash} (hr : c.raft.loaded.raft = some r) :
    Calm (fun _ msg => ∃ m ∈ r.sendableMessages, msg = .raftMessage m.message)
      (c.setRaft { r with sendableMessages := [] }) c.raftSendMessages := by
  rw [raftSendMessages, hr]
  refine Calm.foldl _ (fun c m hm => ?_) _
  refine Calm.foldl _ (fun c peer _ => ?_) c
  exact c.calm_sendToPeer (.inr ⟨m, hm, rfl⟩)

theorem aborted_abort : c.abort.aborted = true := Bool.or_true _

theorem calls_raftSendMessages : c.raftSendMessages.calls = c.calls := by
  cases hr : c.raft.loaded.raft with
  | none => rw [raftSendMessages, hr, c.calm_abort.calls]
  | some r => exact (c.calm_raftSendMessages hr).calls

theorem entriesToPush_mem [Platform Hash] (log : Log Hash) (lastApplied chunkBytes n idx size : Nat) :
    ∀ e ∈ (entriesToPush log lastApplied chunkBytes n idx size).1, e ∈ log.entries := by
  induction n generalizing idx size with
  | zero => simp [entriesToPush]
  | succ n ih =>
    intro e he
    rw [entriesToPush] at he
    split at he
    · simp at he
    · rename_i e' he'
      have hmem : e' ∈ log.entries := Log.mem_of_at? he'
      dsimp only at he
      split_ifs at he
      · simp at he
      · rw [List.mem_singleton.mp he]
        exact hmem
      · rcases List.mem_cons.mp he with rfl | he
        · exact hmem
        · exact ih _ _ e he

def PushOf (c : Core Hash DB) (msg : E2EMessage Hash) : Prop :=
  ∃ id push r, c.raft.loaded.raft = some r ∧ (∀ e ∈ push.entries, e ∈ r.log.entries) ∧
    push.committedMembership = r.committedMembership.asProto ∧
    msg = .transactionRequest id (.replicateStatePush push)

theorem calm_pushStates_of_loaded {r : Raft Hash} (hr : c.raft.loaded.raft = some r)
    (pushStates : List ReplicationPushState) :
    Calm (fun _ msg => c.PushOf msg) c { c with pushStates := pushStates } :=
  c.calm_pushStates fun hno => absurd
    ⟨0, ⟨0, 0, 0, [], false, [], r.committedMembership.asProto⟩, r, hr, by simp, rfl, rfl⟩ (hno 0 0 _)

theorem sends_sendNextReplicationState [Platform Hash] [PushSize Hash] (k : Nat) :
    Sends (fun _ msg => c.PushOf msg) c (c.sendNextReplicationState o k) := by
  rw [sendNextReplicationState.eq_def]
  split
  · rename_i ps r db _ hr _
    have hset : ∀ b ps, Calm (fun _ msg => c.PushOf msg) c ((c.check b).setPushState k ps) :=
      fun b ps => (c.calm_check b).still_calm.trans ((c.check b).calm_pushStates_of_loaded hr _)
    dsimp only
    split
    · split_ifs
      · exact (hset _ _).toSends
      · exact ((hset _ _).trans (calm_sendE2EError ..).still_calm).toSends
    · refine (hset _ _).toSends.trans
        (sends_sendE2ETransaction _ o (.inr ⟨_, _, r, hr, ?_, rfl, rfl⟩) true _)
      exact entriesToPush_mem r.log _ _ _ _ _
  · exact c.calm_abort.toSends.weaken

theorem sends_startPipeline [Platform Hash] [PushSize Hash] (k n : Nat) :
    Sends (fun _ msg => c.PushOf msg) c (startPipeline o k n c) := by
  induction n generalizing c with
  | zero => exact .refl c
  | succ n ih =>
    rw [startPipeline]
    split_ifs
    · exact .refl c
    · have hsend := c.sends_sendNextReplicationState o k
      refine hsend.trans ((ih _).mono fun dst msg hmsg => ?_)
      rwa [PushOf, hsend.raft] at hmsg

theorem sends_serve [Platform Hash] [PushSize Hash] {r : Raft Hash} (hr : c.raft.loaded.raft = some r)
    (k n : Nat) (pushStates : List ReplicationPushState) :
    Sends (fun _ msg => c.PushOf msg) c (startPipeline o k n { c with pushStates := pushStates }) :=
  (c.calm_pushStates_of_loaded hr pushStates).toSends.trans
    (sends_startPipeline { c with pushStates := pushStates } o k n)

end Core

/-- Of one database and of the one that comes after it: what client logs keep is kept. -/
def DatabaseKept (db db' : Option DB) : Prop :=
  ∀ P : DB → Prop, (∀ db log, Database.validateClientLog log = .ok → P db → P (Database.run db log).1) →
    (∀ d, db = some d → P d) → ∀ d, db' = some d → P d

theorem DatabaseKept.refl (db : Option DB) : DatabaseKept db db := fun _ _ hdb => hdb

/-- `c'` is `c` after light messages were sent and entries were applied: only the state, the database,
    the minimums and the log transactions, of which some may be gone, can differ. -/
structure Keeps (c c' : Core Hash DB) : Prop where
  me : c'.me = c.me
  template : c'.raftConfigTemplate = c.raftConfigTemplate
  config : c'.enclaveConfig = c.enclaveConfig
  loading : c'.raft.loading = c.raft.loading
  groupConfig : c'.raft.loaded.groupConfig = c.raft.loaded.groupConfig
  replica : c'.raft.loaded.raft = c.raft.loaded.raft
  lastApplied : c'.raft.loaded.dbLastAppliedLog = c.raft.loaded.dbLastAppliedLog
  logTransactions : ∀ t ∈ c'.outstandingLogTransactions, t ∈ c.outstandingLogTransactions
  calls : c'.calls = c.calls
  promotions : c'.promotions = c.promotions
  aborted : c.aborted = true → c'.aborted = true
  pushStates : PushStatesKept c.pushStates c'.pushStates
  db : DatabaseKept c.raft.loaded.db c'.raft.loaded.db
  out : ∃ ms, c'.out = c.out ++ ms ∧ ∀ m ∈ ms, m.Carries fun _ _ => False

theorem Sends.keeps {c c' : Core Hash DB} (h : Quiet c c') : Keeps c c' where
  me := h.me
  template := h.template
  config := h.config
  loading := by rw [h.raft]
  groupConfig := by rw [h.raft]
  replica := by rw [h.raft]
  lastApplied := by rw [h.raft]
  logTransactions := by simp [h.logTransactions]
  calls := h.calls
  promotions := h.promotions
  aborted := h.aborted
  pushStates := h.pushStates (by simp)
  db := by rw [h.raft]; exact .refl _
  out := h.out

theorem Keeps.trans {a b c : Core Hash DB} (hab : Keeps a b) (hbc : Keeps b c) : Keeps a c where
  me := hbc.me.trans hab.me
  template := hbc.template.trans hab.template
  config := hbc.config.trans hab.config
  loading := hbc.loading.trans hab.loading
  groupConfig := hbc.groupConfig.trans hab.groupConfig
  replica := hbc.replica.trans hab.replica
  lastApplied := hbc.lastApplied.trans hab.lastApplied
  logTransactions t ht := hab.logTransactions t (hbc.logTransactions t ht)
  calls := hbc.calls.trans hab.calls
  promotions := hbc.promotions.trans hab.promotions
  aborted h := hbc.aborted (hab.aborted h)
  pushStates := hab.pushStates.trans hbc.pushStates
  db P hP hdb := hbc.db P hP (hab.db P hP hdb)
  out := by
    obtain ⟨ms, hms, hlight⟩ := hab.out
    obtain ⟨ms', hms', hlight'⟩ := hbc.out
    refine ⟨ms ++ ms', by rw [hms', hms, List.append_assoc], fun m hm => ?_⟩
    exact (List.mem_append.mp hm).elim (hlight m) (hlight' m)

namespace Core

variable (c : Core Hash DB) (o : CoreOracle)

/-- A change of the state, the database, the minimums, or the log transactions to some of them. -/
theorem keeps_rest (state : RaftState) (waiting : WaitingForFirstConnection) (db : Option DB)
    (minimums : MinimumLimits) (txns : List (Nat × LogTransaction Hash))
    (htxns : ∀ t ∈ txns, t ∈ c.outstandingLogTransactions)
    (hdb : DatabaseKept c.raft.loaded.db db) :
    Keeps c { c with
      minimums := minimums
      outstandingLogTransactions := txns
      raft := { c.raft with
        state := state
        waitingForFirstConnection := waiting
        loaded := { c.raft.loaded with db := db } } } :=
  ⟨rfl, rfl, rfl, rfl, rfl, rfl, rfl, htxns, rfl, rfl, id, .refl _, hdb, [],
    (List.append_nil _).symm, by simp⟩

theorem keeps_handleRaftMembershipChange (g : ReplicaGroup) :
    Keeps c (c.handleRaftMembershipChange o g) := by
  rw [handleRaftMembershipChange]
  split
  · split_ifs
    · exact (Sends.refl c).keeps
    · refine Keeps.trans ?_ (Sends.foldl _ (fun c t _ => ?_) _).keeps
      · exact c.keeps_rest .loadedRequestingMembership _ _ _ [] (by simp) (.refl _)
      · exact c.quiet_logTransactionCallback ..
  · split_ifs
    · exact c.keeps_rest .loadedPartOfGroup _ _ _ _ (fun _ ht => ht) (.refl _)
    · exact (Sends.refl c).keeps
  · exact c.calm_abort.toSends.keeps

theorem keeps_handleRaftMinimumsChange (limits : MinimumLimits) :
    Keeps c (c.handleRaftMinimumsChange limits) := by
  rw [handleRaftMinimumsChange]
  refine Keeps.trans ?_ ((calm_check _ _).trans (calm_minimumsUpdated _)).toSends.keeps
  exact c.keeps_rest _ _ _ _ _ (fun _ ht => ht) (.refl _)

theorem keeps_raftApplyLogToDatabase (d : Bytes) : Keeps c (c.raftApplyLogToDatabase d).1 := by
  rw [raftApplyLogToDatabase.eq_def]
  split
  · exact c.calm_abort.toSends.keeps
  · exact (Sends.refl c).keeps
  · rename_i clientLog db _ hdb
    dsimp only
    split
    · rename_i hvalid
      refine c.keeps_rest _ _ _ _ _ (fun _ ht => ht) fun P hP h d hd => ?_
      obtain rfl := Option.some.inj hd
      exact hP db clientLog hvalid (h db hdb)
    · exact (Sends.refl c).keeps

theorem keeps_applyCommittedEntry (inner : Inner) : Keeps c (c.applyCommittedEntry o inner).1 := by
  cases inner with
  | membershipChange g => exact c.keeps_handleRaftMembershipChange o g
  | data d => exact c.keeps_raftApplyLogToDatabase d
  | minimums limits => exact c.keeps_handleRaftMinimumsChange limits
  | notSet => exact (Sends.refl c).keeps

variable [DecidableEq Hash]

theorem quiet_handleLogTransactionsForRaftLog (idx : Nat) (e : LogEntry Hash)
    (response : Option (Database.Response DB)) :
    Quiet { c with outstandingLogTransactions :=
        c.outstandingLogTransactions.filter fun t => t.1 ≠ idx }
      (c.handleLogTransactionsForRaftLog o idx e response) := by
  rw [handleLogTransactionsForRaftLog]
  refine Sends.foldl _ (fun c t _ => ?_) _
  exact c.quiet_logTransactionCallback ..

theorem keeps_raftHandleCommittedLog (idx : Nat) (e : LogEntry Hash) :
    Keeps (c.updateLastAppliedLog idx) (c.raftHandleCommittedLog o idx e) := by
  rw [raftHandleCommittedLog]
  refine Keeps.trans ?_ (quiet_handleLogTransactionsForRaftLog _ o idx e _).keeps
  refine Keeps.trans ?_ (keeps_rest _ _ _ _ _ _ (fun t ht => (List.mem_filter.mp ht).1) (.refl _))
  refine Keeps.trans ?_ (keeps_applyCommittedEntry _ o e.inner)
  exact (calm_check _ _).toSends.keeps

theorem logTransactions_raftHandleCommittedLog (idx : Nat) (e : LogEntry Hash) :
    ∀ t ∈ (c.raftHandleCommittedLog o idx e).outstandingLogTransactions, t.1 ≠ idx := by
  intro t ht
  rw [raftHandleCommittedLog, (quiet_handleLogTransactionsForRaftLog ..).logTransactions] at ht
  simpa using (List.mem_filter.mp ht).2

end Core

end SVR2
