import SVR2.Core.ReplicatedApply
import SVR2.Core.Sender

/-!
# The pushes of a replication, over whole runs

A push state is used by one message at a time, and between two of them nothing but a final status
touches it.  So the pushes for it join at their cursors, as long as the log keeps the entries that
are still to be sent.
-/

namespace SVR2

open Lib

variable {Hash DB : Type} [Database DB]

/-! ### Messages that make no push -/

structure Core.SendsNoPush (c c' : Core Hash DB) : Prop where
  aborted : c.aborted = true → c'.aborted = true
  pushStates : PushStatesKept c.pushStates c'.pushStates
  pushesSent : c'.pushesSent = c.pushesSent

theorem PushStatesKept.getElem? {l l' : List ReplicationPushState} (h : PushStatesKept l l') (j : Nat) :
    l'[j]? = l[j]? ∨ ∃ ps, l[j]? = some ps ∧ l'[j]? = some { ps with sentResponse := true } := by
  cases hps : l[j]? with
  | some ps => exact (h.kept hps).imp_right fun h => ⟨ps, rfl, h⟩
  | none =>
    rw [List.getElem?_eq_none_iff] at hps
    exact .inl (List.getElem?_eq_none (h.length.trans_le hps))

variable {c c' s : Core Hash DB} {P : PeerId → E2EMessage Hash → Prop}

theorem Core.pushesSent_of_carries
    (hP : ∀ dst id push, ¬P dst (.transactionRequest id (.replicateStatePush push)))
    (hout : ∃ ms, c'.out = c.out ++ ms ∧ ∀ m ∈ ms, m.Carries P) : c'.pushesSent = c.pushesSent := by
  obtain ⟨ms, hms, hcarries⟩ := hout
  have hnone : ms.filterMap EnclaveMessage.push? = [] := by
    rw [List.filterMap_eq_nil_iff]
    intro m hm
    have h := hcarries m hm
    unfold EnclaveMessage.push?
    split
    · exact absurd (h.resolve_left id) (hP _ _ _)
    · rfl
  rw [pushesSent, hms, List.filterMap_append, hnone, List.append_nil, pushesSent]

theorem Sends.sendsNoPush (h : Sends P c c')
    (hP : ∀ dst id push, ¬P dst (.transactionRequest id (.replicateStatePush push))) :
    c.SendsNoPush c' :=
  ⟨h.aborted, h.pushStates hP, Core.pushesSent_of_carries hP h.out⟩

variable [DecidableEq Hash] [Platform Hash] [PushSize Hash] {o : CoreOracle}
  {m : UntrustedMessage Hash DB}

theorem CoreMove.sendsNoPush (h : CoreMove s o m c c') : c.SendsNoPush c' ∨ Quiet s c ∧
    ((∃ k ps, s.serving m = some k ∧ c.pushStates[k]? = some ps ∧ ps.sentResponse = false ∧
        ps.finishedSending = false ∧ c' = c.sendNextReplicationState o k) ∨
      ∃ r ps n, s.serving m = some s.pushStates.length ∧ c.raft.loaded.raft = some r ∧
        ps.cursor = ⟨r.log.oldestStored, []⟩ ∧
        c' = Core.startPipeline o c.pushStates.length n
          { c with pushStates := c.pushStates ++ [ps] }) := by
  have of_or : ∀ {a b : Bool}, a = true → (a || b) = true := fun ha => by rw [ha, Bool.true_or]
  cases h with
  | quiet h => exact .inl (h.sendsNoPush (by simp))
  | call call hr hstate hwhy => exact .inl ⟨of_or, .refl _, rfl⟩
  | log r r' e loc cb hr hstate hasked hok hcb => exact .inl ⟨of_or, .refl _, rfl⟩
  | sendMessages =>
    cases hr : c.raft.loaded.raft with
    | none =>
      rw [Core.raftSendMessages, hr]
      exact .inl (c.calm_abort.toSends.sendsNoPush (by simp))
    | some r =>
      have hsent := (c.calm_raftSendMessages hr).toSends.sendsNoPush (by simp)
      exact .inl ⟨fun h => hsent.aborted (of_or h), hsent.pushStates, hsent.pushesSent⟩
  | applyLog r hr hidx =>
    have hkeeps := (c.called (.takeCommittedLog r) r.takeCommittedLog.1).keeps_raftHandleCommittedLog
      o r.takeCommittedLog.2.1 r.takeCommittedLog.2.2
    exact .inl ⟨fun h => hkeeps.aborted (of_or h), hkeeps.pushStates,
      Core.pushesSent_of_carries (by simp) hkeeps.out⟩
  | push k hserving hstart ps hps hsent hfinished =>
    exact .inr ⟨hstart, .inl ⟨k, ps, hserving, hps, hsent, hfinished, rfl⟩⟩
  | serve src id groupId replicationId hm hstart r hr hstate =>
    subst hm
    exact .inr ⟨hstart, .inr ⟨r, _, _, rfl, hr, rfl, rfl⟩⟩
  | forward r hr dst entry hasked cb hcb =>
    refine .inl ((c.sends_sendE2ETransaction o (P := fun _ msg => ∃ id, msg = .transactionRequest id
      (.raftWrite entry)) (.inr ⟨_, rfl⟩) true _).sendsNoPush (by simp))
  | tellGroup r hr hstate dst id =>
    refine .inl ((c.calm_sendToPeer (P := fun _ msg => ∃ id resp, msg = .transactionResponse id resp)
      (.inr ⟨_, _, rfl⟩)).toSends.sendsNoPush (by simp))
  | tellPlace r o' e loc hcall hok dst id resp hid hresp =>
    refine .inl ((c.calm_sendToPeer (P := fun _ msg => ∃ id resp, msg = .transactionResponse id resp)
      (.inr ⟨_, _, rfl⟩)).toSends.sendsNoPush (by simp))
  | load src id push hpush hstart hstate b => exact .inl ⟨of_or, .refl _, rfl⟩
  | failPromotion => exact .inl ⟨of_or, .refl _, rfl⟩
  | promote src id resp hresp loadFrom tx hawaits hstart log mem hlog hmem =>
    exact .inl ⟨of_or, .refl _, rfl⟩
  | create tx hcreate hstart => exact .inl ⟨of_or, .refl _, rfl⟩
  | register | replicate | wait | startLoading | reconfigure => exact .inl ⟨id, .refl _, rfl⟩

/-! ### One message -/

/-- The index of the next entry to send for a push state: that of its cursor, unless it is done, and
    that of the oldest entry for a new one. -/
def Core.nextToSend (c : Core Hash DB) (k : Nat) : Option Nat :=
  match c.pushStates[k]? with
  | some ps => if ps.sentResponse ∨ ps.finishedSending then none else some ps.logsFromIdxInclusive
  | none => c.raft.loaded.raft.map (·.log.oldestStored)

/-- When a message makes the core send a push, the log still has what is to be sent. -/
def Core.NextKept (c : Core Hash DB) (m : UntrustedMessage Hash DB) : Prop :=
  ∀ k ∈ c.serving m, ∀ idx ∈ c.nextToSend k, ∀ r ∈ c.raft.loaded.raft,
    NextStored r.log c.raft.loaded.dbLastAppliedLog idx

instance (c : Core Hash DB) (m : UntrustedMessage Hash DB) : Decidable (c.NextKept m) := by
  unfold Core.NextKept
  infer_instance

/-- Where the pushes for a push state go on, or begin. -/
def Core.StartsAt (c : Core Hash DB) (k : Nat) (a : Cursor) : Prop :=
  match c.pushStates[k]? with
  | none => a.key = []
  | some ps => ps.sentResponse = false ∧ ps.finishedSending = false ∧ ps.cursor = a

/-- The push state is as it was, up to a response. -/
def Core.KeptAt (c c' : Core Hash DB) (k : Nat) : Prop :=
  c'.pushStates[k]? = c.pushStates[k]? ∨
    ∃ ps, c.pushStates[k]? = some ps ∧ c'.pushStates[k]? = some { ps with sentResponse := true }

omit [DecidableEq Hash] [Platform Hash] [PushSize Hash] in
theorem Core.KeptAt.trans {k : Nat} (h : s.KeptAt c k) (h' : c.KeptAt c' k) : s.KeptAt c' k := by
  rcases h' with h' | ⟨ps, hps, hps'⟩
  · rw [KeptAt, h']
    exact h
  · rcases h with h | ⟨ps₀, hps₀, h⟩
    · exact .inr ⟨ps, h ▸ hps, hps'⟩
    · obtain rfl := Option.some.inj (h.symm.trans hps)
      exact .inr ⟨ps₀, hps₀, hps'⟩

omit [DecidableEq Hash] [Platform Hash] [PushSize Hash] in
theorem Core.EndsAt.kept {k : Nat} {b : Cursor} (h : c.EndsAt k b) (hkept : c.SendsNoPush c') :
    c'.EndsAt k b := by
  rcases h with h | ⟨ps, hps, h⟩
  · exact .inl (hkept.aborted h)
  · rcases hkept.pushStates.kept hps with hps' | hps'
    · exact .inr ⟨ps, hps', h⟩
    · exact .inr ⟨_, hps', .inl rfl⟩

variable [RowDatabase DB]

/-- The pushes that were sent for a push state from `s` to `c`, from where it was to where it is. -/
def Core.GoesOn (s c : Core Hash DB) (k : Nat) (pushes : List (ReplicateStatePush Hash)) : Prop :=
  pushes = [] ∧ s.KeptAt c k ∨
    ∃ a b, s.StartsAt k a ∧ s.raft.SentBetween a pushes b ∧ c.EndsAt k b

/-- What the core `s` has sent when the message has brought it to `c`: pushes for one push state at
    most. -/
structure Core.Serves (s : Core Hash DB) (m : UntrustedMessage Hash DB) (c : Core Hash DB) : Prop where
  goesOn : ∀ k, s.GoesOn c k (if s.serving m = some k then c.pushesSent else [])
  none : s.serving m = none → c.pushesSent = []

omit [DecidableEq Hash] [Platform Hash] [PushSize Hash] in
theorem Core.serves_refl (hs : s.pushesSent = []) (m : UntrustedMessage Hash DB) : s.Serves m s :=
  ⟨fun _ => .inl ⟨by simp [hs], .inl rfl⟩, fun _ => hs⟩

omit [DecidableEq Hash] [Platform Hash] [PushSize Hash] in
theorem Core.Serves.noPush (h : s.Serves m c) (hkept : c.SendsNoPush c') : s.Serves m c' := by
  refine ⟨fun k => ?_, fun hnone => hkept.pushesSent.trans (h.none hnone)⟩
  rw [hkept.pushesSent]
  refine (h.goesOn k).imp (fun ⟨hnil, hk⟩ => ⟨hnil, hk.trans (hkept.pushStates.getElem? k)⟩) ?_
  rintro ⟨a, b, hstart, hsent, hends⟩
  exact ⟨a, b, hstart, hsent, hends.kept hkept⟩

omit [DecidableEq Hash] [Platform Hash] [PushSize Hash] in
/-- Pushes are sent for the push state that the message is about. -/
theorem Core.SendsFrom.serves {k : Nat} {a : Cursor} (h : c.SendsFrom c' k a)
    (hserving : s.serving m = some k) (hothers : ∀ j, j ≠ k → s.KeptAt c j)
    (hnone : c.pushesSent = []) (hraft : c.raft = s.raft) (hstart : s.StartsAt k a) :
    s.Serves m c' := by
  refine ⟨fun j => ?_, fun h => by simp [h] at hserving⟩
  by_cases hj : j = k
  · subst hj
    obtain ⟨pushes, b, hpushes, hsent, hends⟩ := h.sent
    rw [hnone, List.nil_append] at hpushes
    rw [if_pos hserving, hpushes]
    exact .inr ⟨a, b, hstart, hraft ▸ hsent, hends⟩
  · rw [if_neg (fun h => hj (Option.some.inj (h.symm.trans hserving)))]
    exact .inl ⟨rfl, (hothers j hj).trans (.inl (h.others j hj))⟩

omit [DecidableEq Hash] [Platform Hash] [PushSize Hash] in
theorem Core.SendsNoPush.replicable (h : c.SendsNoPush c') (hc : c.Replicable)
    (hraft : c'.raft.Replicable) : c'.Replicable := by
  refine ⟨hraft, fun {k ps} hps => ?_⟩
  rcases h.pushStates.getElem? k with heq | ⟨ps', hps', heq⟩
  · exact hc.keys (heq ▸ hps)
  · obtain rfl := Option.some.inj (heq.symm.trans hps)
    have hkey := hc.keys hps'
    exact hkey

omit [DecidableEq Hash] in
theorem Core.Replicable.sendsFrom_new (hc : c.Replicable) {ps : ReplicationPushState}
    (hkey : ps.dbFromKeyExclusive = [])
    (hnext : ∀ r, c.raft.loaded.raft = some r →
      NextStored r.log c.raft.loaded.dbLastAppliedLog ps.logsFromIdxInclusive) (o : CoreOracle) (n : Nat) :
    Core.SendsFrom { c with pushStates := c.pushStates ++ [ps] }
      (Core.startPipeline o c.pushStates.length n { c with pushStates := c.pushStates ++ [ps] })
      c.pushStates.length ps.cursor := by
  have hnew : (c.pushStates ++ [ps])[c.pushStates.length]? = some ps := by simp
  have hadded : Core.Replicable { c with pushStates := c.pushStates ++ [ps] } := by
    refine ⟨hc.raft, fun {j ps'} hps' => ?_⟩
    dsimp only at hps'
    rw [List.getElem?_append] at hps'
    split_ifs at hps' with hj
    · exact hc.keys hps'
    · obtain rfl := List.mem_singleton.mp (List.mem_of_getElem? hps')
      exact .inl hkey
  exact hadded.startPipeline hnew (fun _ => hnext) o n

theorem CoreMove.sendsFrom (h : CoreMove s o m c c') (hs : s.Replicable) (hm : s.NextKept m) :
    c.SendsNoPush c' ∨ ∃ c₁ k a, c₁.SendsFrom c' k a ∧ s.serving m = some k ∧
      (∀ j, j ≠ k → s.KeptAt c₁ j) ∧ c₁.pushesSent = s.pushesSent ∧ c₁.raft = s.raft ∧
      s.StartsAt k a := by
  refine h.sendsNoPush.imp_right fun ⟨hstart, hpush⟩ => ?_
  have hquiet := hstart.sendsNoPush (by simp)
  have hc := hquiet.replicable hs (hstart.raft ▸ hs.raft)
  rcases hpush with ⟨k, ps, hserving, hps, hsent, hfinished, rfl⟩ | ⟨r, ps, n, hserving, hr, hps, rfl⟩
  · have hps' : s.pushStates[k]? = some ps := by
      rcases hquiet.pushStates.getElem? k with heq | ⟨ps', -, heq⟩
      · exact heq ▸ hps
      · obtain rfl := Option.some.inj (heq.symm.trans hps)
        cases hsent
    have hnext : ∀ r, c.raft.loaded.raft = some r →
        NextStored r.log c.raft.loaded.dbLastAppliedLog ps.logsFromIdxInclusive := by
      intro r hr
      rw [hstart.raft] at hr ⊢
      exact hm k hserving _ (by simp [Core.nextToSend, hps', hsent, hfinished]) r hr
    have hone : c.SendsFrom (c.sendNextReplicationState o k) k ps.cursor := by
      have h := hc.startPipeline hps (fun _ => hnext) o 1
      rwa [Core.startPipeline, hps, Option.any_some, if_neg (by simp [hfinished])] at h
    refine ⟨c, k, ps.cursor, hone, hserving, fun j _ => hquiet.pushStates.getElem? j,
      hquiet.pushesSent, hstart.raft, ?_⟩
    simp [Core.StartsAt, hps', hsent, hfinished]
  · obtain ⟨hidx, hkey⟩ := Cursor.mk.inj hps
    have hlength := hquiet.pushStates.length
    have hnone : s.pushStates[s.pushStates.length]? = none := List.getElem?_eq_none le_rfl
    have hnext : ∀ r, c.raft.loaded.raft = some r →
        NextStored r.log c.raft.loaded.dbLastAppliedLog ps.logsFromIdxInclusive := by
      intro r' hr'
      obtain rfl := Option.some.inj (hr.symm.trans hr')
      rw [hstart.raft] at hr ⊢
      exact hm _ hserving _ (by simp [Core.nextToSend, hr, hidx]) r hr
    refine ⟨_, _, _, hc.sendsFrom_new hkey hnext o n, hlength ▸ hserving, fun j hj => ?_,
      hquiet.pushesSent, hstart.raft, ?_⟩
    · refine Core.KeptAt.trans (hquiet.pushStates.getElem? j) (.inl ?_)
      change (c.pushStates ++ [ps])[j]? = c.pushStates[j]?
      rw [List.getElem?_append]
      split_ifs with hlt
      · rfl
      · rw [List.getElem?_eq_none (not_lt.mp hlt)]
        exact List.getElem?_eq_none (by rw [List.length_singleton]; omega)
    · rw [hlength, Core.StartsAt, hnone]
      exact hkey

/-- A message makes the core send pushes for one push state, from its cursor on. -/
theorem CoreMoves.serves (h : CoreMoves s o m s c) (hs : s.Replicable) (hsent : s.pushesSent = [])
    (hm : s.NextKept m) : s.Serves m c := by
  induction h with
  | refl => exact Core.serves_refl hsent m
  | tail _ hmove ih =>
    rcases hmove.sendsFrom hs hm with hkept | ⟨c₁, k, a, hfrom, hserving, hothers, hnone, hraft, hstart⟩
    · exact ih.noPush hkept
    · exact hfrom.serves hserving hothers (hnone.trans hsent) hraft hstart

/-! ### What pushes are made from stays in order -/

section

variable {l : Loading Hash DB}

def Loading.ValidRows (l : Loading Hash DB) : Prop := ∀ db, l.db = some db → RowDatabase.Valid db

omit [DecidableEq Hash] [Platform Hash] [PushSize Hash] in
theorem Loading.ValidRows.maybeApplyLogToReplicatingDatabase (h : l.ValidRows) (e : LogEntry Hash) :
    (l.maybeApplyLogToReplicatingDatabase e).1.ValidRows := by
  rw [Loading.maybeApplyLogToReplicatingDatabase]
  split
  · exact h
  · rename_i db hdb
    dsimp only
    split_ifs
    · exact h
    · split
      · exact h
      · split_ifs
        · exact h
        · split
          · rename_i hvalid
            intro db' hdb'
            obtain rfl := Option.some.inj hdb'
            exact (h db hdb).run hvalid
          · exact h

omit [DecidableEq Hash] [PushSize Hash] in
theorem Loading.ValidRows.appendEntries (h : l.ValidRows) (es : List (LogEntry Hash)) :
    (l.appendEntries es).1.ValidRows := by
  induction es generalizing l with
  | nil => exact h
  | cons e es ih =>
    rw [Loading.appendEntries]
    split
    · exact h
    · split
      · rename_i log' _
        have hstep := Loading.ValidRows.maybeApplyLogToReplicatingDatabase
          (l := { l with log := some log' }) h e
        split
        · rename_i heq
          rw [heq] at hstep
          exact ih hstep
        · rename_i heq
          rw [heq] at hstep
          exact hstep
      · exact h

omit [DecidableEq Hash] [Platform Hash] [PushSize Hash] in
theorem Loading.ValidRows.loadRows (hload : RowDatabase.LoadsValid DB) (h : l.ValidRows) (rows : List Bytes) :
    (l.loadRows rows).1.ValidRows := by
  rw [Loading.loadRows]
  split
  · exact h
  · rename_i db hdb
    split_ifs
    · exact h
    · dsimp only
      have hrows : ∀ db', some (Database.loadRowsFromProtos db rows).1 = some db' →
          RowDatabase.Valid db' := by
        intro db' hdb'
        exact Option.some.inj hdb' ▸ hload db rows (h db hdb)
      split_ifs
      · exact hrows
      · exact hrows

omit [DecidableEq Hash] [PushSize Hash] in
theorem Loading.ValidRows.handleReplicateStatePush (hload : RowDatabase.LoadsValid DB) (h : l.ValidRows)
    (push : ReplicateStatePush Hash) : (l.handleReplicateStatePush push).1.ValidRows := by
  rw [Loading.handleReplicateStatePush]
  split
  · exact h
  · rename_i log hlog
    dsimp only
    generalize (if log.entries = [] then (log.setNextIdx push.firstLogIdx).1 else log) = log'
    split_ifs
    · exact h
    · exact h
    · exact h
    · split
      · exact h
      · rename_i mem _
        have hentries := Loading.ValidRows.appendEntries (l := { l with
          replicationSequence := l.replicationSequence + 1
          mem := some mem
          log := some log' }) h push.entries
        split
        · rename_i heq
          rw [heq] at hentries
          have hrows := hentries.loadRows hload push.rows
          split
          · rename_i heq'
            rw [heq'] at hrows
            exact hrows
          · rename_i heq'
            rw [heq'] at hrows
            exact hrows
        · rename_i heq
          rw [heq] at hentries
          exact hentries

omit [DecidableEq Hash] [PushSize Hash] in
theorem CoreRaft.Replicable.changes {raft raft' : CoreRaft Hash DB} {r r' : Raft Hash}
    (h : raft.Replicable) (hr : raft.loaded.raft = some r)
    (hchanges : Raft.Changes (fun _ _ => True) r r')
    (heq : raft' = { raft with loaded := { raft.loaded with raft := some r' } }) :
    raft'.Replicable := by
  subst heq
  refine ⟨fun r₁ hr₁ => ?_, h.loaded, h.loading⟩
  obtain rfl := Option.some.inj hr₁
  obtain ⟨happlied, -, hkeep⟩ := hchanges.applied
  obtain ⟨hr, hlast⟩ := h.applied r hr
  exact ⟨hkeep hr, happlied.trans hlast⟩

omit [Platform Hash] [PushSize Hash] in
theorem CoreRaft.Replicable.applyLog (h : c.raft.Replicable) {r : Raft Hash}
    (hr : c.raft.loaded.raft = some r) (hidx : r.takeCommittedLog.2.1 ≠ 0) {c' : Core Hash DB}
    (hc' : c' = (c.called (.takeCommittedLog r) r.takeCommittedLog.1).raftHandleCommittedLog o
      r.takeCommittedLog.2.1 r.takeCommittedLog.2.2) : c'.aborted = true ∨ c'.raft.Replicable := by
  have hkeeps := (c.called (.takeCommittedLog r) r.takeCommittedLog.1).keeps_raftHandleCommittedLog
    o r.takeCommittedLog.2.1 r.takeCommittedLog.2.2
  rw [← hc'] at hkeeps
  obtain ⟨-, hlast⟩ := h.applied r hr
  obtain ⟨hnext, happlied, -, htaken⟩ := r.applied_takeCommittedLog hidx
  rcases htaken with haborted | htaken
  · refine .inl (hkeeps.aborted ?_)
    change (c.aborted || r.takeCommittedLog.1.aborted) = true
    rw [haborted, Bool.or_true]
  · refine .inr ⟨fun r' hr' => ?_, ?_, hkeeps.loading ▸ h.loading⟩
    · rw [hkeeps.replica] at hr'
      obtain rfl := Option.some.inj hr'
      refine ⟨htaken, ?_⟩
      rw [hkeeps.lastApplied, happlied]
      exact hnext.symm
    · exact hkeeps.db RowDatabase.Valid (fun _ _ hlog hdb => hdb.run hlog) h.loaded

/-- Every move leaves what pushes are made from in order, unless a check fails. -/
theorem CoreMove.raft_replicable (h : CoreMove s o m c c') (hload : RowDatabase.LoadsValid DB)
    (hc : c.raft.Replicable) : c'.aborted = true ∨ c'.raft.Replicable := by
  have of_sends : ∀ {P} {c'' : Core Hash DB}, Sends P c c'' → c''.raft.Replicable := fun h =>
    h.raft ▸ hc
  cases h with
  | quiet h => exact .inr (of_sends h)
  | call call hr hstate hwhy =>
    exact .inr (hc.changes hr (call.changes (by simp) (by simp) (by simp) hwhy.ne_takeCommittedLog) rfl)
  | log r r' e loc cb hr hstate hasked hok hcb =>
    have hchanges := r.changes_logRequest (P := fun _ _ => True) (o.raft 0) e (by simp) (by simp)
    rw [hok] at hchanges
    exact .inr (hc.changes hr hchanges rfl)
  | sendMessages =>
    cases hr : c.raft.loaded.raft with
    | none =>
      rw [Core.raftSendMessages, hr]
      exact .inl c.aborted_abort
    | some r =>
      rw [(c.calm_raftSendMessages hr).raft]
      refine .inr ⟨fun r' hr' => ?_, hc.loaded, hc.loading⟩
      obtain rfl := Option.some.inj hr'
      obtain ⟨happlied, hlast⟩ := hc.applied r hr
      exact ⟨⟨happlied.committed, happlied.stored⟩, hlast⟩
  | applyLog r hr hidx => exact hc.applyLog hr hidx rfl
  | push k => exact .inr (of_sends (c.sends_sendNextReplicationState o k))
  | serve _ _ _ _ _ _ r hr => exact .inr (of_sends (c.sends_serve o hr ..))
  | forward r hr dst entry hasked cb hcb => exact .inr (of_sends (c.sends_anyE2ETransaction o ..))
  | tellGroup r hr hstate dst id => exact .inr (of_sends (c.calm_sendAnyToPeer ..).toSends)
  | tellPlace r o' e loc hcall hok dst id resp hid hresp =>
    exact .inr (of_sends (c.calm_sendAnyToPeer ..).toSends)
  | load src id push hpush hstart hstate b =>
    exact .inr ⟨hc.applied, hc.loaded,
      Loading.ValidRows.handleReplicateStatePush hload hc.loading push⟩
  | replicate hstate => exact .inr ⟨hc.applied, hc.loaded, hc.loading⟩
  | wait tx peer hjoin hstart hstate => exact .inr ⟨by simp, by simp, by simp⟩
  | startLoading src id groupConfig replicaGroup mem peer tx hgot hstart hstate hconfig hmem =>
    refine .inr ⟨by simp, by simp, fun db hdb => ?_⟩
    obtain rfl := Option.some.inj hdb
    exact RowDatabase.valid_newDB
  | failPromotion => exact .inl (Core.aborted_abort _)
  | promote src id resp hresp loadFrom tx hawaits hstart log mem hlog hmem =>
    refine .inr ⟨fun r hr => ?_, hc.loading, fun _ h => by cases h⟩
    obtain ⟨hnew, hlast, -⟩ := Raft.applied_new _ _ _ _ _ _ _ _ (Option.some.inj hr).symm
    exact ⟨hnew, hlast⟩
  | create tx hcreate hstart =>
    refine .inr ⟨fun r hr => ?_, fun db hdb => ?_, hc.loading⟩
    · obtain ⟨hnew, hlast, -⟩ := Raft.applied_new _ _ _ _ _ _ _ _ (Option.some.inj hr).symm
      exact ⟨hnew, hlast⟩
    · obtain rfl := Option.some.inj hdb
      exact RowDatabase.valid_newDB
  | register | reconfigure => exact .inr hc

theorem CoreMove.replicable (h : CoreMove s o m c c') (hload : RowDatabase.LoadsValid DB) (hs : s.Replicable)
    (hm : s.NextKept m) (hc : c.aborted = true ∨ c.Replicable) :
    c'.aborted = true ∨ c'.Replicable := by
  rcases hc with haborted | hc
  · exact .inl (h.aborted haborted)
  · rcases h.sendsFrom hs hm with hkept | ⟨c₁, k, a, hfrom, -⟩
    · exact (h.raft_replicable hload hc.raft).imp_right (hkept.replicable hc)
    · exact .inr hfrom.replicable

theorem CoreMoves.replicable (h : CoreMoves s o m s c) (hload : RowDatabase.LoadsValid DB) (hs : s.Replicable)
    (hm : s.NextKept m) : c.aborted = true ∨ c.Replicable := by
  induction h with
  | refl => exact .inr hs
  | tail _ hmove ih => exact hmove.replicable hload hs hm ih

end

/-! ### Runs -/

omit [DecidableEq Hash] [Platform Hash] [PushSize Hash] in
/-- Pushes of one message, and those that come after them. -/
theorem CoreRaft.SentBetween.append {a b : Cursor} {pushes : List (ReplicateStatePush Hash)}
    {rest : List (Core Hash DB × ReplicateStatePush Hash)} (h : c.raft.SentBetween a pushes b)
    (hrest : SentFrom b rest) : SentFrom a (pushes.map (fun push => (c, push)) ++ rest) := by
  induction pushes generalizing a with
  | nil =>
    obtain rfl : a = b := h
    exact hrest
  | cons push pushes ih =>
    obtain ⟨a', hpush, hpushes⟩ := h
    exact ⟨a', hpush, ih hpushes⟩

/-- All pushes that are still to come for a push state: if there are any, they go on where it is. -/
def Core.Later (c : Core Hash DB) (k : Nat) (l : List (Core Hash DB × ReplicateStatePush Hash)) : Prop :=
  l = [] ∨ c.aborted = false ∧ ∃ a, c.StartsAt k a ∧ SentFrom a l

omit [DecidableEq Hash] [Platform Hash] [PushSize Hash] in
theorem Core.GoesOn.later {k : Nat} {pushes : List (ReplicateStatePush Hash)}
    {rest : List (Core Hash DB × ReplicateStatePush Hash)} (h : c.GoesOn c' k pushes)
    (halive : c.aborted = false) (hrest : c'.Later k rest) :
    c.Later k (pushes.map (fun push => (c, push)) ++ rest) := by
  rcases h with ⟨rfl, hkept⟩ | ⟨a, b, hstart, hsent, hends⟩
  · rcases hrest with rfl | ⟨-, a, hstart, hfrom⟩
    · exact .inl rfl
    · refine .inr ⟨halive, a, ?_, hfrom⟩
      rw [StartsAt] at hstart ⊢
      rcases hkept with heq | ⟨ps, -, heq⟩
      · rwa [heq] at hstart
      · rw [heq] at hstart
        nomatch hstart.1
  · refine .inr ⟨halive, a, hstart, hsent.append ?_⟩
    rcases hrest with rfl | ⟨halive', a', hstart', hfrom⟩
    · trivial
    · rcases hends with haborted | ⟨ps, hps, hends⟩
      · rw [halive'] at haborted
        cases haborted
      · rw [StartsAt, hps] at hstart'
        obtain ⟨hsent', hopen, rfl⟩ := hstart'
        rw [hsent', hopen] at hends
        obtain rfl : ps.cursor = b := by simpa using hends
        exact hfrom

/-- What holds of every core: unless a check has failed, what pushes are made from is in order. -/
def Core.Ready (c : Core Hash DB) : Prop := c.aborted = true ∨ c.Replicable

omit [Platform Hash] [DecidableEq Hash] [PushSize Hash] [RowDatabase DB] in
theorem Core.create_empty {me : PeerId} {groupConfig : RaftGroupConfig} {config : EnclaveConfig}
    {time : Nat} (hcreate : Core.create me groupConfig config o time = .ok c) :
    c.raft = {} ∧ c.pushStates = [] := by
  rw [Core.create] at hcreate
  split at hcreate
  · obtain rfl := Except.ok.inj hcreate
    exact ⟨rfl, rfl⟩
  · simp at hcreate
  · simp at hcreate

omit [Platform Hash] [DecidableEq Hash] [PushSize Hash] in
theorem Core.create_ready {me : PeerId} {groupConfig : RaftGroupConfig} {config : EnclaveConfig}
    {time : Nat} (hcreate : Core.create me groupConfig config o time = .ok c) : c.Ready := by
  obtain ⟨hraft, hnone⟩ := create_empty hcreate
  refine .inr ⟨hraft ▸ ⟨nofun, nofun, nofun⟩, fun {k ps} hps => ?_⟩
  rw [hnone] at hps
  cases hps

theorem Core.Ready.receive (hload : RowDatabase.LoadsValid DB) (hc : c.Ready) (halive : c.aborted = false)
    (o : CoreOracle) (hm : c.NextKept m) :
    (c.receive o m).1.Ready ∧ c.Serves m (c.receive o m).1 := by
  have hc := hc.resolve_left (by simp [halive])
  have hmoves := c.moves_receive o m
  have hfresh : c.fresh.Replicable := ⟨hc.raft, hc.keys⟩
  have hserves := hmoves.serves hfresh rfl hm
  exact ⟨hmoves.replicable hload hfresh hm, hserves.goesOn, hserves.none⟩

namespace Cluster

/-- All pushes that are still to come for a push state of an enclave, which may not have started. -/
def Later (s : Cluster Hash DB) (p : PeerId) (k : Nat)
    (l : List (Core Hash DB × ReplicateStatePush Hash)) : Prop :=
  match s.cores p with
  | some c => c.Later k l
  | none => ∃ a : Cursor, a.key = [] ∧ SentFrom a l

theorem later_pushesOf (hload : RowDatabase.LoadsValid DB) (p : PeerId) (k : Nat)
    (es : List (ClusterEvent Hash DB)) (s : Cluster Hash DB)
    (hs : ∀ p c, s.cores p = some c → c.Ready) (hm : s.Along (fun c _ m => c.NextKept m) es) :
    s.Later p k (s.pushesOf p k es) := by
  induction es generalizing s with
  | nil =>
    rw [Later]
    split
    · exact .inl rfl
    · exact ⟨⟨0, []⟩, rfl, trivial⟩
  | cons e es ih =>
    have hlater := ih (s.apply e) (cores_run Core.create_ready
      (fun _ o _ halive hc hm => (hc.receive hload halive o hm).1) [e] s hs ⟨hm.1, trivial⟩) hm.2
    rw [Later] at hlater ⊢
    rw [pushesOf]
    rcases s.cores_apply_eq e p with ⟨c, o, m, hto, hhandled, hc, halive, heq⟩ | ⟨hto, hcores⟩
    · obtain ⟨-, hserves⟩ := (hs p c hc).receive hload halive o (hm.1 _ hhandled)
      have hat : s.pushesAt p k e =
          (if c.serving m = some k then (c.receive o m).1.pushesSent else []).map
            fun push => (c, push) := by
        rw [pushesAt, hhandled]
        by_cases hserving : c.serving m = some k
        · simp [hto, hserving]
        · simp [hserving]
      rw [heq] at hlater
      rw [hc, hat]
      exact (hserves.goesOn k).later halive hlater
    · have hat : s.pushesAt p k e = [] := by
        rw [pushesAt]
        split
        · rename_i c o m hhandled
          exact if_neg fun h => by simp [hto h.1] at hhandled
        · rfl
      rw [hat, List.nil_append]
      rcases hcores with heq | ⟨hc, _, _, _, _, c, hcreate, heq⟩
      · rwa [heq] at hlater
      · rw [heq] at hlater
        rw [hc]
        rcases hlater with hnil | ⟨-, a, hstart, hfrom⟩
        · rw [hnil]
          exact ⟨⟨0, []⟩, rfl, trivial⟩
        · rw [Core.StartsAt, (Core.create_empty hcreate).2] at hstart
          exact ⟨a, hstart, hfrom⟩

/-- All pushes of a run belong to a replication, and those for one join at their cursors, of which the
    first is before all rows. -/
def SendsReplications (es : List (ClusterEvent Hash DB)) : Prop :=
  Cluster.empty.Along (fun c o m => c.serving m = none → (c.receive o m).1.pushesSent = []) es ∧
    ∀ p k, ∃ a : Cursor, a.key = [] ∧ SentFrom a (Cluster.empty.pushesOf p k es)

theorem sendsReplications (hload : RowDatabase.LoadsValid DB) (es : List (ClusterEvent Hash DB))
    (hm : Cluster.empty.Along (fun c _ m => c.NextKept m) es) : SendsReplications es :=
  ⟨along_run Core.create_ready (fun _ o _ halive hc hm => (hc.receive hload halive o hm).1)
      (fun _ o _ halive hc hm => (hc.receive hload halive o hm).2.none) es _
      (by simp [Cluster.empty]) hm,
    fun p k => later_pushesOf hload p k es _ (by simp [Cluster.empty]) hm⟩

end Cluster

/-- Of a push: its first index, the numbers of its entries and of its rows, and the index that the
    sender's database is as of. -/
def pushFigures (x : Core Hash DB × ReplicateStatePush Hash) : Nat × Nat × Nat × Nat :=
  (x.2.firstLogIdx, x.2.entries.length, x.2.rows.length, x.1.raft.loaded.dbLastAppliedLog)

omit [DecidableEq Hash] [Platform Hash] [PushSize Hash] in
theorem SentFrom.asOf {l : List (Core Hash DB × ReplicateStatePush Hash)} {a : Cursor}
    (h : SentFrom a l) {first entries rows applied : Nat}
    (hmem : (first, entries, rows, applied) ∈ l.map pushFigures) (hrows : rows ≠ 0) :
    first + entries = applied + 1 := by
  induction l generalizing a with
  | nil => cases hmem
  | cons x l ih =>
    obtain ⟨a', hpush, hrest⟩ := h
    rcases List.mem_cons.mp hmem with heq | hmem
    · simp only [pushFigures, Prod.mk.injEq] at heq
      obtain ⟨rfl, rfl, rfl, rfl⟩ := heq
      rw [hpush.firstLogIdx, ← hpush.logIdx, hpush.asOf (List.ne_nil_of_length_pos (by omega))]
    · exact ih hrest hmem

omit [DecidableEq Hash] [Platform Hash] [PushSize Hash] in
theorem SentFrom.not_of_figures {l : List (Core Hash DB × ReplicateStatePush Hash)}
    {first entries rows applied : Nat} (hmem : (first, entries, rows, applied) ∈ l.map pushFigures)
    (hrows : rows ≠ 0) (hne : first + entries ≠ applied + 1) :
    ¬∃ a : Cursor, a.key = [] ∧ SentFrom a l :=
  fun ⟨_, _, hsent⟩ => hne (hsent.asOf hmem hrows)

/-- In every run, for every chunk size and size of the log, the pushes of a replica for a replication
    have a gapless range of committed entries, and the rows of each are all that there are in its range
    of keys, as of the last entry sent so far, if the log still has what is to be sent whenever a push
    is made. -/
theorem replication_sent (Hash : Type) [DecidableEq Hash] [Platform Hash] [PushSize Hash] [Ristretto]
    [Wire DB2.Log2] [Wire DB2.DB2RowState] [Wire DB3.Log3] [Wire DB3.DB3RowState] :
    (∀ es : List (ClusterEvent Hash DB2), Cluster.empty.Along (fun c _ m => c.NextKept m) es →
      Cluster.SendsReplications es) ∧
    ∀ es : List (ClusterEvent Hash DB3), Cluster.empty.Along (fun c _ m => c.NextKept m) es →
      Cluster.SendsReplications es :=
  ⟨Cluster.sendsReplications DB2.loadsValid, Cluster.sendsReplications DB3.loadsValid⟩

namespace Sample

/-- Enclave 1, whose log has room for four entries, stores nine backups.  Enclave 2 joins, and gets
    the first push, with the entries up to 10 and five rows. -/
def pushed : List (ClusterEvent IdealHash DB2) :=
  let start (p : PeerId) := .start p groupConfig
    { config with raft := { config.raft with replicationPipeline := 1, logMaxBytes := 1024 } }
    (coreOracle 0) 0
  [start 1, start 2, ask 1 1 .createNewRaftGroup] ++
    [1, 2, 3, 4, 5, 6, 7, 8, 9].map (hostRequest · validBackup) ++ ask 2 1 (.joinRaft (some 1)) ::
    carry [(2, 1), (1, 2), (1, 2), (2, 1), (1, 2), (2, 1), (1, 2), (2, 1), (2, 1), (1, 2)]

/-- Then the host of enclave 1 stores another backup a few times, for the last key, and the response
    to the push comes. -/
def pushedAgain (n : Nat) : List (ClusterEvent IdealHash DB2) :=
  pushed ++ .replicate n (hostRequest 9 (.backup (.replicate 16 8) (.replicate 32 1) 3)) ++
    carry [(2, 1)]

theorem replication_sent_kept :
    (Cluster.empty.pushesOf 1 0 (pushedAgain 4)).map pushFigures = [(7, 4, 5, 10), (11, 4, 4, 14)] ∧
      ∃ a : Cursor, a.key = [] ∧ SentFrom a (Cluster.empty.pushesOf 1 0 (pushedAgain 4)) := by
  have := DB3.sampleRistretto
  exact ⟨by decide +kernel, ((replication_sent IdealHash).1 (pushedAgain 4) (by decide +kernel)).2 1 0⟩

/-- With one more backup the log has given up entry 11.  The second push has no entries, but the last
    four rows, as of entry 15, which is not sent, like the four before it. -/
theorem rows_without_entries :
    (Cluster.empty.pushesOf 1 0 (pushedAgain 5)).map pushFigures = [(7, 4, 5, 10), (11, 0, 4, 15)] ∧
      ¬∃ a : Cursor, a.key = [] ∧ SentFrom a (Cluster.empty.pushesOf 1 0 (pushedAgain 5)) := by
  have hfigures : (Cluster.empty.pushesOf 1 0 (pushedAgain 5)).map pushFigures =
      [(7, 4, 5, 10), (11, 0, 4, 15)] := by
    decide +kernel
  refine ⟨hfigures, SentFrom.not_of_figures (hfigures ▸ ?_) four_ne_zero (by decide : 11 + 0 ≠ 15 + 1)⟩
  decide

end Sample

end SVR2
