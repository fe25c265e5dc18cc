import SVR2.Core.Waiting
import SVR2.DB.RowBounds

/-!
# What a replica sends to one that joins

A replica that serves a replication keeps a push state, with the index of the next log entry to send
and the key of the last row that it has sent.  Between two pushes entries are committed and applied
and the log gives up old ones.  Rows go with a push only if it brings the receiver up to the last
applied entry; to find out whether it does, `SendNextReplicationState` goes on until the log's
iterator is not valid any more.
-/

namespace SVR2

open Lib

variable {Hash DB : Type}

/-! ### The pushes of a run -/

section Pushes

variable [Database DB]

def EnclaveMessage.push? : EnclaveMessage Hash DB → Option (ReplicateStatePush Hash)
  | .peerMessage _ (.data (.transactionRequest _ (.replicateStatePush push))) => some push
  | _ => none

def Core.pushesSent (c : Core Hash DB) : List (ReplicateStatePush Hash) :=
  c.out.filterMap EnclaveMessage.push?


section

variable [DecidableEq Hash] [Platform Hash] [PushSize Hash]

/-- The pushes that an event makes enclave `p` send for its push state `k`, each with the enclave as
    it was when the message came. -/
def Cluster.pushesAt (p : PeerId) (k : Nat) (s : Cluster Hash DB) (e : ClusterEvent Hash DB) :
    List (Core Hash DB × ReplicateStatePush Hash) :=
  match s.handled e with
  | some (c, o, m) =>
    if e.receiver = some p ∧ c.serving m = some k then
      (c.receive o m).1.pushesSent.map fun push => (c, push)
    else []
  | none => []

def Cluster.pushesOf (p : PeerId) (k : Nat) :
    Cluster Hash DB → List (ClusterEvent Hash DB) → List (Core Hash DB × ReplicateStatePush Hash)
  | _, [] => []
  | s, e :: es => s.pushesAt p k e ++ pushesOf p k (s.apply e) es

end

/-- How far a replication has come: the index of the next entry, and the largest key that was sent. -/
structure Cursor where
  logIdx : Nat
  key : Bytes

def ReplicationPushState.cursor (ps : ReplicationPushState) : Cursor :=
  ⟨ps.logsFromIdxInclusive, ps.dbFromKeyExclusive⟩

variable [RowDatabase DB]

/-- A push that takes a replication from one cursor to the next; `raft` is what the sender has then.
    Its entries are the committed ones at the indexes from the cursor on.  Its rows are those of the
    database after the largest key that was sent before, up to the last that is sent now, and if there
    are any, the database is as of the last entry that is sent. -/
structure CoreRaft.Pushes (raft : CoreRaft Hash DB) (a : Cursor) (push : ReplicateStatePush Hash)
    (a' : Cursor) : Prop where
  firstLogIdx : push.firstLogIdx = a.logIdx
  logIdx : a'.logIdx = a.logIdx + push.entries.length
  entries : ∀ j e, push.entries[j]? = some e → ∃ r, raft.loaded.raft = some r ∧
    r.log.at? (a.logIdx + j) = some e ∧ a.logIdx + j ≤ r.commitIdx
  rows : ∃ db, raft.loaded.db = some db ∧
    push.rows = (RowDatabase.between db a.key a'.key).toList.map
      (fun e => RowDatabase.rowAsProto e.1 e.2) ∧
    (a'.key = a.key ∨ a.key < a'.key ∧ a'.key ∈ RowDatabase.rows db)
  asOf : push.rows ≠ [] → a'.logIdx = raft.loaded.dbLastAppliedLog + 1

/-- Each push goes on where the one before it has ended. -/
def SentFrom : Cursor → List (Core Hash DB × ReplicateStatePush Hash) → Prop
  | _, [] => True
  | a, (c, push) :: rest => ∃ a', c.raft.Pushes a push a' ∧ SentFrom a' rest

end Pushes

/-! ### The entries of a push -/

namespace Log

theorem isSome_at?_iff {log : Log Hash} {i : Nat} : (log.at? i).isSome ↔
    log.oldestStoredIdx ≤ i ∧ i < log.oldestStoredIdx + log.entries.length := by
  rw [at?]
  split_ifs with hi
  · simp only [Option.isSome_none, Bool.false_eq_true, false_iff, not_and]
    omega
  · rw [Option.isSome_iff_ne_none, ne_eq, List.getElem?_eq_none_iff]
    omega

/-- What is stored is stored up to the last index. -/
theorem isSome_at?_of_le {log : Log Hash} {i j : Nat} (hi : (log.at? i).isSome) (hij : i ≤ j)
    (hj : j ≤ log.lastIdx) : (log.at? j).isSome := by
  rw [isSome_at?_iff] at hi ⊢
  have hne : log.entries ≠ [] := by
    rw [← List.length_pos_iff]
    omega
  rw [lastIdx, if_neg hne] at hj
  omega

end Log

/-- The next entry to send is an applied one that is still stored, or all applied ones were sent. -/
def NextStored (log : Log Hash) (lastApplied idx : Nat) : Prop :=
  idx = lastApplied + 1 ∨ idx ≤ lastApplied ∧ (log.at? idx).isSome

instance (log : Log Hash) (lastApplied idx : Nat) : Decidable (NextStored log lastApplied idx) :=
  inferInstanceAs (Decidable (_ ∨ _))

namespace Core

variable [Platform Hash] {log : Log Hash} {lastApplied chunkBytes : Nat}

/-- The entries to send are those from an index on, and they were applied. -/
theorem at?_of_entriesToPush {n idx size j : Nat} {e : LogEntry Hash}
    (h : (entriesToPush log lastApplied chunkBytes n idx size).1[j]? = some e) :
    log.at? (idx + j) = some e ∧ idx + j ≤ lastApplied := by
  induction n generalizing idx size j with
  | zero => simp [entriesToPush] at h
  | succ n ih =>
    rw [entriesToPush] at h
    cases hat : log.at? idx with
    | none => simp [hat] at h
    | some e' =>
      simp only [hat] at h
      split_ifs at h with happlied hsize
      · simp at h
      · cases j with
        | zero =>
          cases h
          exact ⟨hat, not_lt.mp happlied⟩
        | succ j => simp at h
      · cases j with
        | zero =>
          cases h
          exact ⟨hat, not_lt.mp happlied⟩
        | succ j =>
          obtain ⟨hj, hle⟩ := ih h
          rw [Nat.add_right_comm, Nat.add_assoc] at hj hle
          exact ⟨hj, hle⟩

theorem nextStored_of_entriesToPush {n idx size : Nat} (hidx : NextStored log lastApplied idx)
    (hlast : lastApplied ≤ log.lastIdx) :
    NextStored log lastApplied
      (idx + (entriesToPush log lastApplied chunkBytes n idx size).1.length) := by
  obtain ⟨es, hes⟩ : ∃ es, es = (entriesToPush log lastApplied chunkBytes n idx size).1 := ⟨_, rfl⟩
  rw [← hes]
  cases hlen : es.length with
  | zero => exact hidx
  | succ len =>
    obtain ⟨e, he⟩ : ∃ e, es[len]? = some e := ⟨_, List.getElem?_eq_getElem (by omega)⟩
    rw [hes] at he
    obtain ⟨hat, hle⟩ := at?_of_entriesToPush he
    rcases Nat.lt_or_eq_of_le hle with hlt | heq
    · have hsome : (log.at? (idx + len)).isSome := by simp [hat]
      exact .inr ⟨hlt, Log.isSome_at?_of_le hsome (by omega) (by omega)⟩
    · exact .inl (by omega)

/-- If the loop has come to the commit index, it has taken all that was applied. -/
theorem length_entriesToPush {n idx size : Nat} (hidx : NextStored log lastApplied idx)
    (hlast : lastApplied ≤ log.lastIdx) (hn : log.lastIdx + 1 ≤ n + idx)
    (hcommit : (entriesToPush log lastApplied chunkBytes n idx size).2 = true) :
    idx + (entriesToPush log lastApplied chunkBytes n idx size).1.length = lastApplied + 1 := by
  induction n generalizing idx size with
  | zero =>
    rcases hidx with hidx | ⟨hle, -⟩
    · exact hidx
    · omega
  | succ n ih =>
    rw [entriesToPush] at hcommit ⊢
    cases hat : log.at? idx with
    | none => exact hidx.resolve_right fun h => by simp [hat] at h
    | some e =>
      simp only [hat] at hcommit ⊢
      split_ifs at hcommit ⊢ with happlied hsize
      · exact hidx.resolve_right fun h => by omega
      · have hnext : NextStored log lastApplied (idx + 1) := by
          rcases Nat.lt_or_eq_of_le (not_lt.mp happlied) with hlt | heq
          · refine .inr ⟨hlt, Log.isSome_at?_of_le (by simp [hat]) (Nat.le_succ idx) ?_⟩
            omega
          · exact .inl (by rw [heq])
        have hrest := ih hnext (by omega) hcommit
        rw [List.length_cons]
        omega

end Core

/-! ### Sending a push -/

section

variable [Database DB]

def Core.connectedTo (c : Core Hash DB) (p : PeerId) : Bool :=
  (c.peers.find? p).any fun peer => peer.state = .connected

theorem Core.pushesSent_send (c : Core Hash DB) {msg : EnclaveMessage Hash DB} (hmsg : msg.push? = none) :
    (c.send msg).pushesSent = c.pushesSent := by
  rw [pushesSent, pushesSent, send]
  split_ifs
  · rfl
  · simp [hmsg]

theorem Core.sendToPeer_cases (c : Core Hash DB) (dst : PeerId) (msg : E2EMessage Hash) :
    c.connectedTo dst = true ∧
        c.sendToPeer dst msg = (c.send (.peerMessage dst (.data msg)), .ok) ∨
      c.connectedTo dst = false ∧ ∃ out, (c.sendToPeer dst msg) =
        ({ c with out := out }, .peersSendBeforeConnect) ∧
          out.filterMap EnclaveMessage.push? = c.pushesSent := by
  rw [sendToPeer, connectedTo]
  cases c.peers.find? dst with
  | none => exact .inr ⟨rfl, _, rfl, c.pushesSent_send rfl⟩
  | some peer =>
    dsimp only
    split_ifs with hstate
    · exact .inr ⟨by simpa using hstate, _, rfl, rfl⟩
    · exact .inl ⟨by simpa using hstate, rfl⟩

/-- What `SendE2ETransaction` makes of a push: it is sent, or there is no connection and the callback
    is called with an error. -/
theorem Core.sendE2ETransaction_push {c : Core Hash DB} {k : Nat} {ps : ReplicationPushState}
    (hps : c.pushStates[k]? = some ps) (o : CoreOracle) (push : ReplicateStatePush Hash)
    (last : Bool) {c' : Core Hash DB}
    (hc' : c' = c.sendE2ETransaction o ps.target (.replicateStatePush push) true
      (.sendNextReplicationState k last)) :
    (∀ j, j ≠ k → c'.pushStates[j]? = c.pushStates[j]?) ∧
      (c.connectedTo ps.target = true ∧ c'.pushStates[k]? = some ps ∧
          (c.aborted = true ∨ c'.pushesSent = c.pushesSent ++ [push]) ∨
        c.connectedTo ps.target = false ∧ c'.connectedTo ps.target = false ∧
          c'.pushStates[k]? = some { ps with sentResponse := true } ∧
          c'.pushesSent = c.pushesSent) := by
  have hk : k < c.pushStates.length := (List.getElem?_eq_some_iff.mp hps).1
  rw [sendE2ETransaction] at hc'
  dsimp only at hc'
  rcases sendToPeer_cases { c with e2eTxnId := c.e2eTxnId + 1 } ps.target
    (.transactionRequest (c.e2eTxnId + 1) (.replicateStatePush push)) with
    ⟨hconn, hsend⟩ | ⟨hconn, out, hsend, hout⟩
  · rw [hsend] at hc'
    subst hc'
    refine ⟨fun j _ => rfl, .inl ⟨hconn, hps, ?_⟩⟩
    cases haborted : c.aborted with
    | true => exact .inl rfl
    | false =>
      refine .inr ?_
      simp [pushesSent, setTimeout, check, send, EnclaveMessage.push?]
  · rw [hsend] at hc'
    dsimp only at hc'
    rw [e2eCallbackError] at hc'
    dsimp only at hc'
    rw [hps] at hc'
    dsimp only at hc'
    split_ifs at hc' with hsent
    · subst hc'
      refine ⟨fun j _ => rfl, .inr ⟨hconn, hconn, ?_, hout⟩⟩
      rw [← hsent]
      exact hps
    · -- the final status does not go out either
      rcases sendToPeer_cases (setPushState { c with e2eTxnId := c.e2eTxnId + 1, out := out } k
          { ps with sentResponse := true }) ps.target (.transactionResponse ps.tx
            (.status .peersSendBeforeConnect)) with ⟨hyes, -⟩ | ⟨-, out', hsend', hout'⟩
      · exact absurd (hconn.symm.trans hyes) Bool.false_ne_true
      · rw [sendE2EError, hsend'] at hc'
        subst hc'
        refine ⟨fun j hj => ?_, .inr ⟨hconn, hconn, ?_, hout'.trans hout⟩⟩
        · exact List.getElem?_set_ne (Ne.symm hj)
        · exact List.getElem?_set_self hk

end

/-! ### One push -/

section

variable [Database DB] [RowDatabase DB]

/-- What pushes are made from is in order: the database is as of the replica's last applied entry,
    and its rows and those that are being loaded are valid. -/
structure CoreRaft.Replicable (raft : CoreRaft Hash DB) : Prop where
  applied : ∀ r, raft.loaded.raft = some r → r.Applied ∧ r.lastApplied = raft.loaded.dbLastAppliedLog
  loaded : ∀ db, raft.loaded.db = some db → RowDatabase.Valid db
  loading : ∀ db, raft.loading.db = some db → RowDatabase.Valid db

/-- Then a push state has the key of a valid row, if it has any. -/
structure Core.Replicable (c : Core Hash DB) : Prop where
  raft : c.raft.Replicable
  keys : ∀ {k : Nat} {ps : ReplicationPushState}, c.pushStates[k]? = some ps →
    ps.dbFromKeyExclusive = [] ∨ ∃ row : RowDatabase.Row DB, RowDatabase.ValidRow ps.dbFromKeyExclusive row

variable [Platform Hash] [PushSize Hash] {c : Core Hash DB} {k : Nat} {ps : ReplicationPushState}
  {r : Raft Hash} {db : DB}

omit [RowDatabase DB] [Platform Hash] [PushSize Hash] in
theorem Core.check_true (c : Core Hash DB) : c.check true = c := by
  simp [Core.check]

theorem Core.Replicable.sendNext_eq (h : c.Replicable) (hps : c.pushStates[k]? = some ps)
    (hr : c.raft.loaded.raft = some r) (hdb : c.raft.loaded.db = some db)
    (hopen : ps.finishedSending = false)
    (hstored : NextStored r.log c.raft.loaded.dbLastAppliedLog ps.logsFromIdxInclusive)
    (o : CoreOracle) :
    ∃ push ps' a', c.sendNextReplicationState o k =
        (c.setPushState k ps').sendE2ETransaction o ps.target (.replicateStatePush push) true
          (.sendNextReplicationState k ps'.finishedSending) ∧
      c.raft.Pushes ps.cursor push a' ∧ (ps'.finishedSending = true ∨ ps'.cursor = a') ∧
      NextStored r.log c.raft.loaded.dbLastAppliedLog a'.logIdx ∧
      ps'.target = ps.target ∧ ps'.sentResponse = ps.sentResponse ∧
      (ps'.dbFromKeyExclusive = [] ∨
        ∃ row : RowDatabase.Row DB, RowDatabase.ValidRow ps'.dbFromKeyExclusive row) := by
  obtain ⟨happlied, hlast⟩ := h.raft.applied r hr
  have hvalid := h.raft.loaded db hdb
  have hkey := h.keys hps
  -- what the loop over the log has taken
  have hentries : ∀ j e, (c.nextPush r ps).1.entries[j]? = some e → ∃ r, c.raft.loaded.raft = some r ∧
      r.log.at? (ps.logsFromIdxInclusive + j) = some e ∧ ps.logsFromIdxInclusive + j ≤ r.commitIdx := by
    intro j e he
    obtain ⟨hat, hle⟩ := at?_of_entriesToPush he
    exact ⟨r, hr, hat, (hle.trans hlast.ge).trans happlied.committed⟩
  have hnext : NextStored r.log c.raft.loaded.dbLastAppliedLog
      (ps.logsFromIdxInclusive + (c.nextPush r ps).1.entries.length) :=
    nextStored_of_entriesToPush hstored (hlast ▸ happlied.le_lastIdx)
  have hall : c.rowsToSend (c.nextPush r ps).1 (c.nextPush r ps).2 ≠ 0 →
      ps.logsFromIdxInclusive + (c.nextPush r ps).1.entries.length =
        c.raft.loaded.dbLastAppliedLog + 1 := by
    intro hrows
    have hcommit : (c.nextPush r ps).2 = true := by
      by_contra hcommit
      exact hrows (if_neg fun hand => hcommit hand.1)
    exact length_entriesToPush hstored (hlast ▸ happlied.le_lastIdx) (by omega) hcommit
  rw [sendNextReplicationState.eq_def, hps, hr, hdb]
  dsimp only
  rw [hopen, Bool.not_false, check_true]
  by_cases hrows : c.rowsToSend (c.nextPush r ps).1 (c.nextPush r ps).2 = 0
  · rw [if_pos hrows]
    refine ⟨_, _, ⟨ps.logsFromIdxInclusive + (c.nextPush r ps).1.entries.length,
      ps.dbFromKeyExclusive⟩, rfl, ⟨rfl, rfl, hentries, ⟨db, hdb, ?_, .inl rfl⟩, fun h => absurd rfl h⟩,
      .inr rfl, hnext, rfl, rfl, hkey⟩
    exact (congrArg (List.map _) (RowDatabase.between_self db ps.dbFromKeyExclusive)).symm
  · obtain ⟨hi, last, hok, hcase⟩ := RowDatabase.rowsAsProtos_between hvalid hkey
      (c.rowsToSend (c.nextPush r ps).1 (c.nextPush r ps).2)
    rw [if_neg hrows, hok]
    refine ⟨_, _, ⟨ps.logsFromIdxInclusive + (c.nextPush r ps).1.entries.length, hi⟩, rfl,
      ⟨rfl, rfl, hentries, ⟨db, hdb, rfl, ?_⟩, fun _ => hall hrows⟩, ?_, hnext, rfl, rfl, ?_⟩
    · exact hcase.imp (·.1) fun h => ⟨h.1, h.2.1⟩
    · rcases hcase with ⟨rfl, rfl⟩ | ⟨-, -, rfl⟩
      · refine .inl ?_
        simp [RowDatabase.between_self, Nat.pos_of_ne_zero hrows]
      · exact .inr rfl
    · rcases hcase with ⟨-, rfl⟩ | ⟨-, hmem, rfl⟩
      · exact .inl rfl
      · obtain ⟨row, hrow⟩ := OrdMap.mem_iff.mp hmem
        exact .inr ⟨row, hvalid _ _ hrow⟩

/-- No push goes out any more: the process has ended, or the response was sent for want of a
    connection. -/
def Core.Stuck (c : Core Hash DB) (k : Nat) : Prop :=
  c.aborted = true ∨ ∃ ps, c.pushStates[k]? = some ps ∧ ps.sentResponse = true ∧
    c.connectedTo ps.target = false

theorem Core.Replicable.sendNext (h : c.Replicable) (hps : c.pushStates[k]? = some ps)
    (hopen : ps.finishedSending = false)
    (hstored : ∀ r, c.raft.loaded.raft = some r →
      NextStored r.log c.raft.loaded.dbLastAppliedLog ps.logsFromIdxInclusive)
    (o : CoreOracle) {c' : Core Hash DB} (hc' : c' = c.sendNextReplicationState o k) :
    c'.Replicable ∧ (∀ j, j ≠ k → c'.pushStates[j]? = c.pushStates[j]?) ∧
      ∃ ps' a', c'.pushStates[k]? = some ps' ∧ (ps'.finishedSending = true ∨ ps'.cursor = a') ∧
        (∀ r, c.raft.loaded.raft = some r →
          NextStored r.log c.raft.loaded.dbLastAppliedLog a'.logIdx) ∧
        (c'.Stuck k ∧ c'.pushesSent = c.pushesSent ∨
          ¬c.Stuck k ∧ ∃ push, c.raft.Pushes ps.cursor push a' ∧
            c'.pushesSent = c.pushesSent ++ [push]) := by
  by_cases hloaded : ∃ r db, c.raft.loaded.raft = some r ∧ c.raft.loaded.db = some db
  · obtain ⟨r, db, hr, hdb⟩ := hloaded
    obtain ⟨push, ps', a', heq, hpush, hcursor, hnext, htarget, hsent, hkey⟩ :=
      h.sendNext_eq hps hr hdb hopen (hstored r hr) o
    have hk : k < c.pushStates.length := (List.getElem?_eq_some_iff.mp hps).1
    have hset : (c.setPushState k ps').pushStates[k]? = some ps' := List.getElem?_set_self hk
    have hsends := c.sends_sendNextReplicationState o k
    rw [← hc'] at hsends
    rw [heq, ← htarget] at hc'
    obtain ⟨hothers, hcase⟩ := sendE2ETransaction_push hset o push _ hc'
    have hrest : ∀ j, j ≠ k → c'.pushStates[j]? = c.pushStates[j]? := fun j hj =>
      (hothers j hj).trans (List.getElem?_set_ne (Ne.symm hj))
    have hreplicable : ∀ {ps''}, c'.pushStates[k]? = some ps'' →
        ps''.dbFromKeyExclusive = ps'.dbFromKeyExclusive → c'.Replicable := by
      intro ps'' hps'' heq
      refine ⟨hsends.raft ▸ h.raft, fun {j psj} hj => ?_⟩
      by_cases hjk : j = k
      · subst hjk
        obtain rfl := Option.some.inj (hj.symm.trans hps'')
        exact heq ▸ hkey
      · exact h.keys (hrest j hjk ▸ hj)
    have hnext' : ∀ r, c.raft.loaded.raft = some r →
        NextStored r.log c.raft.loaded.dbLastAppliedLog a'.logIdx := by
      intro r' hr'
      obtain rfl := Option.some.inj (hr.symm.trans hr')
      exact hnext
    rcases hcase with ⟨hconn, hget, hgone⟩ | ⟨hconn, hconn', hget, hsame⟩
    · refine ⟨hreplicable hget rfl, hrest, ps', a', hget, hcursor, hnext', ?_⟩
      by_cases haborted : c.aborted = true
      · refine .inl ⟨.inl (hsends.aborted haborted), ?_⟩
        rw [pushesSent, hsends.silent haborted, pushesSent]
      · refine .inr ⟨?_, push, hpush, hgone.resolve_left haborted⟩
        rintro (hyes | ⟨psk, hpsk, -, hno⟩)
        · exact haborted hyes
        · obtain rfl := Option.some.inj (hps.symm.trans hpsk)
          rw [← htarget] at hno
          exact absurd (hconn.symm.trans hno) (by simp)
    · exact ⟨hreplicable hget rfl, hrest, _, a', hget, hcursor, hnext',
        .inl ⟨.inr ⟨_, hget, rfl, hconn'⟩, hsame⟩⟩
  · have habort : c' = c.abort := by
      rw [hc', sendNextReplicationState.eq_def, hps]
      cases hr : c.raft.loaded.raft with
      | none => rfl
      | some r =>
        cases hdb : c.raft.loaded.db with
        | none => rfl
        | some db => exact absurd ⟨r, db, hr, hdb⟩ hloaded
    subst habort
    exact ⟨⟨h.raft, h.keys⟩, fun _ _ => rfl, ps, ps.cursor, hps, .inr rfl,
      hstored, .inl ⟨.inl c.aborted_abort, rfl⟩⟩

/-- Pushes that take a replication from one cursor to another. -/
def CoreRaft.SentBetween (raft : CoreRaft Hash DB) :
    Cursor → List (ReplicateStatePush Hash) → Cursor → Prop
  | a, [], b => a = b
  | a, push :: pushes, b => ∃ a', raft.Pushes a push a' ∧ raft.SentBetween a' pushes b

/-- Where the core leaves a replication: the next push goes on from the cursor, if there is one. -/
def Core.EndsAt (c : Core Hash DB) (k : Nat) (b : Cursor) : Prop :=
  c.aborted = true ∨ ∃ ps, c.pushStates[k]? = some ps ∧
    (ps.sentResponse = true ∨ ps.finishedSending = true ∨ ps.cursor = b)

omit [RowDatabase DB] [Platform Hash] [PushSize Hash] in
theorem Core.Stuck.endsAt (h : c.Stuck k) (b : Cursor) : c.EndsAt k b :=
  h.imp_right fun ⟨ps, hps, hsent, _⟩ => ⟨ps, hps, .inl hsent⟩

/-- From `c` to `c'` pushes were sent for the push state `k`, from the cursor `a` on. -/
structure Core.SendsFrom (c c' : Core Hash DB) (k : Nat) (a : Cursor) : Prop where
  replicable : c'.Replicable
  others : ∀ j, j ≠ k → c'.pushStates[j]? = c.pushStates[j]?
  sent : ∃ pushes b, c'.pushesSent = c.pushesSent ++ pushes ∧ c.raft.SentBetween a pushes b ∧
    c'.EndsAt k b
  stuck : c.Stuck k → c'.Stuck k ∧ c'.pushesSent = c.pushesSent

omit [Platform Hash] [PushSize Hash] in
theorem Core.Replicable.sendsFrom_refl (h : c.Replicable) (hps : c.pushStates[k]? = some ps) :
    c.SendsFrom c k ps.cursor :=
  ⟨h, fun _ _ => rfl, ⟨[], ps.cursor, (List.append_nil _).symm, rfl, .inr ⟨ps, hps, .inr (.inr rfl)⟩⟩,
    fun hstuck => ⟨hstuck, rfl⟩⟩

omit [RowDatabase DB] in
theorem Core.startPipeline_finished (hps : c.pushStates[k]? = some ps)
    (hfinished : ps.finishedSending = true) (o : CoreOracle) (n : Nat) :
    Core.startPipeline o k n c = c := by
  cases n with
  | zero => rfl
  | succ n =>
    rw [Core.startPipeline, hps, Option.any_some, if_pos hfinished]

/-- The first pushes of a replication, each of which goes on where the one before it has ended. -/
theorem Core.Replicable.startPipeline (h : c.Replicable) (hps : c.pushStates[k]? = some ps)
    (hstored : ps.finishedSending = false → ∀ r, c.raft.loaded.raft = some r →
      NextStored r.log c.raft.loaded.dbLastAppliedLog ps.logsFromIdxInclusive)
    (o : CoreOracle) (n : Nat) : c.SendsFrom (Core.startPipeline o k n c) k ps.cursor := by
  induction n generalizing c ps with
  | zero => exact h.sendsFrom_refl hps
  | succ n ih =>
    rw [Core.startPipeline]
    split_ifs with hfinished
    · exact h.sendsFrom_refl hps
    · rw [hps, Option.any_some, Bool.not_eq_true] at hfinished
      obtain ⟨c₁, hc₁⟩ : ∃ c₁, c₁ = c.sendNextReplicationState o k := ⟨_, rfl⟩
      obtain ⟨h₁, hothers₁, ps₁, a', hps₁, hcursor, hnext, hsent⟩ :=
        h.sendNext hps hfinished (hstored hfinished) o hc₁
      have hraft : c₁.raft = c.raft := hc₁ ▸ (c.sends_sendNextReplicationState o k).raft
      have hrest : c₁.SendsFrom (Core.startPipeline o k n c₁) k ps₁.cursor := by
        refine ih h₁ hps₁ fun hopen => ?_
        have hidx : ps₁.logsFromIdxInclusive = a'.logIdx := by
          rw [← hcursor.resolve_left (by simp [hopen])]
          rfl
        rw [hraft, hidx]
        exact hnext
      have hothers : ∀ j, j ≠ k →
          (Core.startPipeline o k n c₁).pushStates[j]? = c.pushStates[j]? := fun j hj =>
        (hrest.others j hj).trans (hothers₁ j hj)
      rw [← hc₁]
      rcases hsent with ⟨hstuck, hsame⟩ | ⟨hgoes, push, hpush, hone⟩
      · obtain ⟨hstuck', hsame'⟩ := hrest.stuck hstuck
        refine ⟨hrest.replicable, hothers, ⟨[], ps.cursor, ?_, rfl, hstuck'.endsAt _⟩, fun _ =>
          ⟨hstuck', hsame'.trans hsame⟩⟩
        rw [List.append_nil, hsame', hsame]
      · refine ⟨hrest.replicable, hothers, ?_, fun hstuck => absurd hstuck hgoes⟩
        rcases hcursor with hfinished₁ | rfl
        · rw [startPipeline_finished hps₁ hfinished₁]
          exact ⟨[push], a', hone, ⟨a', hpush, rfl⟩, .inr ⟨ps₁, hps₁, .inr (.inl hfinished₁)⟩⟩
        · obtain ⟨pushes, b, hpushes, hbetween, hends⟩ := hrest.sent
          refine ⟨push :: pushes, b, ?_, ⟨ps₁.cursor, hpush, hraft ▸ hbetween⟩, hends⟩
          rw [hpushes, hone, List.append_assoc, List.singleton_append]

end

end SVR2
