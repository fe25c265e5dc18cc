import SVR2.Core.Cluster
import SVR2.Core.Moves

/-!
# Log transactions wait for entries that are still to be applied

A log transaction is called back when the entry at its index is applied.  The replica that logs an
entry registers the transaction before it applies anything else.  A replica that has forwarded the
entry registers it when the leader's answer comes, and by then the entry may have been applied.
-/

namespace SVR2

open Lib

variable {Hash : Type} [Platform Hash]

namespace Raft

/-- The entry that was applied last is committed and still stored. -/
structure Applied (r : Raft Hash) : Prop where
  committed : r.lastApplied ≤ r.commitIdx
  stored : r.lastApplied ≠ 0 → r.log.oldestStoredIdx ≤ r.lastApplied ∧
    r.lastApplied < r.log.oldestStoredIdx + r.log.entries.length

variable {r r' : Raft Hash} {P : Nat → Inner → Prop}

omit [Platform Hash] in
theorem Applied.le_lastIdx (h : r.Applied) : r.lastApplied ≤ r.log.lastIdx := by
  by_cases hzero : r.lastApplied = 0
  · omega
  · obtain ⟨hle, hlt⟩ := h.stored hzero
    have hentries : r.log.entries ≠ [] := by
      rw [← List.length_pos_iff]
      omega
    rw [Log.lastIdx, if_neg hentries]
    omega

/-- The log may give up entries before the one that was applied last, and get another. -/
theorem Applied.append (h : r.Applied) {e : LogEntry Hash} {log : Log Hash} {err : Error}
    (hlog : r.log.append e r.lastApplied = (log, err)) (us : List (Nat × Membership)) :
    ({ r with log := log, uncommittedMemberships := us } : Raft Hash).Applied := by
  refine ⟨h.committed, fun hzero => ?_⟩
  obtain ⟨hle, hlt⟩ := h.stored hzero
  obtain ⟨k, hk, holdest, hentries⟩ := r.log.append_drop e r.lastApplied
  rw [hlog] at holdest hentries
  dsimp only at holdest hentries ⊢
  have hlen : r.log.entries.length - k ≤ log.entries.length := by
    rcases hentries with ⟨heq, -⟩ | ⟨heq, -, -⟩
    · rw [heq, List.length_drop]
    · rw [heq, List.length_append, List.length_drop]
      omega
  omega

omit [Platform Hash] in
theorem Applied.cancel (h : r.Applied) {idx : Nat} {log : Log Hash} (hidx : r.commitIdx < idx)
    (hlog : r.log.cancelFrom idx = (log, .ok)) : ({ r with log := log } : Raft Hash).Applied := by
  refine ⟨h.committed, fun hzero => ?_⟩
  obtain ⟨hle, hlt⟩ := h.stored hzero
  have hcommitted := h.committed
  rw [Log.cancelFrom] at hlog
  split_ifs at hlog
  · cases hlog
  · obtain rfl := (Prod.mk.inj hlog).1
    dsimp only at hzero ⊢
    rw [List.length_take]
    omega

theorem Change.applied (h : Change P r r') : r'.lastApplied = r.lastApplied ∧
    r.log.oldestStoredIdx ≤ r'.log.oldestStoredIdx ∧ (r.Applied → r'.Applied) := by
  cases h with
  | rest h =>
    simp only [kept, Prod.mk.injEq] at h
    obtain ⟨-, -, -, hlog, -, -, hcommit, happlied, -⟩ := h
    rw [hlog, happlied]
    refine ⟨rfl, le_rfl, fun hr => ⟨?_, ?_⟩⟩
    · rw [happlied, hcommit]
      exact hr.committed
    · rw [happlied, hlog]
      exact hr.stored
  | append e log us he hlog hus =>
    refine ⟨rfl, ?_, fun hr => hr.append hlog _⟩
    obtain ⟨k, -, holdest, -⟩ := r.log.append_drop e r.lastApplied
    rw [hlog] at holdest
    exact holdest ▸ Nat.le_add_right _ k
  | trim e log err herr hlog =>
    refine ⟨rfl, ?_, fun hr => hr.append hlog _⟩
    obtain ⟨k, -, holdest, -⟩ := r.log.append_drop e r.lastApplied
    rw [hlog] at holdest
    exact holdest ▸ Nat.le_add_right _ k
  | cancel idx log hidx hlog =>
    refine ⟨rfl, ?_, fun hr => hr.cancel hidx hlog⟩
    rw [Log.cancelFrom] at hlog
    split_ifs at hlog
    · cases hlog
    · rw [← (Prod.mk.inj hlog).1]
  | memberships m us hm hus => exact ⟨rfl, le_rfl, fun hr => ⟨hr.committed, hr.stored⟩⟩
  | commit n hn => exact ⟨rfl, le_rfl, fun hr => ⟨hr.committed.trans hn, hr.stored⟩⟩
  | send msg hmsg => exact ⟨rfl, le_rfl, fun hr => ⟨hr.committed, hr.stored⟩⟩

theorem Changes.applied (h : Changes P r r') : r'.lastApplied = r.lastApplied ∧
    r.log.oldestStoredIdx ≤ r'.log.oldestStoredIdx ∧ (r.Applied → r'.Applied) := by
  induction h with
  | refl => exact ⟨rfl, le_rfl, id⟩
  | tail _ hchange ih =>
    obtain ⟨happlied, holdest, hkeep⟩ := ih
    obtain ⟨happlied', holdest', hkeep'⟩ := hchange.applied
    exact ⟨happlied'.trans happlied, holdest.trans holdest', fun hr => hkeep' (hkeep hr)⟩

/-- An entry that is logged gets an index above the one that was applied last. -/
theorem Applied.lt_place (h : r.Applied) (hfirst : r.lastApplied ≠ 0 ∨ 1 ≤ r.log.oldestStoredIdx)
    {o : Oracle} {e : LogEntry Hash} {loc : LogLocation Hash}
    (hok : r.logRequest o e = (r', loc, .ok)) : r.lastApplied < loc.idx := by
  obtain ⟨-, -, r₁, e₁, -, happend, -⟩ := r.logRequest_ok hok
  obtain ⟨hlog, rfl⟩ := r.logAppend_ok happend
  obtain ⟨k, hk, holdest, hentries⟩ := r.log.append_drop e₁ r.lastApplied
  rw [hlog] at holdest hentries
  dsimp only at holdest hentries ⊢
  obtain ⟨-, herr⟩ | ⟨heq, -, -⟩ := hentries
  · exact absurd rfl herr
  · rw [Log.lastIdx, heq, if_neg (List.append_ne_nil_of_right_ne_nil _ (List.cons_ne_nil _ _)),
      List.length_append, List.length_drop, List.length_singleton]
    by_cases hzero : r.lastApplied = 0
    · omega
    · have hstored := h.stored hzero
      omega

theorem applied_newFollower (group : Nat) (me : PeerId) (mem : Membership) (log : Log Hash)
    (config : RaftConfig) (committedLog : Bool) (superMajority : Nat) (o : Oracle) :
    (newFollower group me mem log config committedLog superMajority o).Applied := by
  refine ⟨le_rfl, fun hzero => ?_⟩
  have hidx : (if committedLog then log.lastIdx else 0) ≠ 0 := hzero
  split_ifs at hidx with hcommitted
  · change log.oldestStoredIdx ≤ (if committedLog then log.lastIdx else 0) ∧
      (if committedLog then log.lastIdx else 0) < log.oldestStoredIdx + log.entries.length
    rw [if_pos hcommitted]
    rw [Log.lastIdx] at hidx ⊢
    split_ifs at hidx ⊢ with hempty
    · exact absurd rfl hidx
    · have hpos := List.length_pos_iff.mpr hempty
      omega
  · exact absurd rfl hidx

/-- A replica that has just started has applied what it started from. -/
theorem applied_new (group : Nat) (me : PeerId) (mem : Membership) (log : Log Hash)
    (config : RaftConfig) (committedLog : Bool) (superMajority : Nat) (o : Oracle) {r : Raft Hash}
    (hr : r = new group me mem log config committedLog superMajority o) :
    r.Applied ∧ r.lastApplied = (if committedLog then log.lastIdx else 0) ∧
      log.oldestStoredIdx ≤ r.log.oldestStoredIdx := by
  subst hr
  obtain ⟨happlied, holdest, hkeep⟩ := (changes_new (P := fun _ _ => True) group me mem log
    config committedLog superMajority o (by simp)).applied
  exact ⟨hkeep (applied_newFollower ..), happlied, holdest⟩

omit [Platform Hash] in
theorem applied_takeCommittedLog (r : Raft Hash) (hidx : r.takeCommittedLog.2.1 ≠ 0) :
    r.takeCommittedLog.2.1 = r.lastApplied + 1 ∧
      r.takeCommittedLog.1.lastApplied = r.lastApplied + 1 ∧
      r.takeCommittedLog.1.log = r.log ∧
      (r.takeCommittedLog.1.aborted = true ∨ r.takeCommittedLog.1.Applied) := by
  rw [takeCommittedLog] at hidx ⊢
  split_ifs at hidx ⊢ with hle
  · exact absurd rfl hidx
  · dsimp only
    split
    · rename_i e he
      refine ⟨rfl, rfl, rfl, .inr ⟨?_, fun _ => ?_⟩⟩
      · exact Nat.lt_of_not_le hle
      · rw [Log.at?] at he
        split_ifs at he with hlt
        obtain ⟨hlen, -⟩ := List.getElem?_eq_some_iff.mp he
        dsimp only at hlt hlen ⊢
        omega
    · exact ⟨rfl, rfl, rfl, .inl (Bool.or_true _)⟩

end Raft

variable [DecidableEq Hash] [PushSize Hash] {DB : Type} [Database DB]

/-- The response to a transaction comes in time for the log transaction that its callback registers:
    the entry has not been applied yet.  When a replica is promoted no log transaction waits. -/
def E2ECallback.InTime (c : Core Hash DB) : E2ECallback Hash → TransactionResponse Hash → Prop
  | .raftWrite _, .raftWrite loc => c.raft.loaded.dbLastAppliedLog < loc.idx
  | .requestMembership _ _, .raftMembershipResponse loc => c.raft.loaded.dbLastAppliedLog < loc.idx
  | .requestMembership _ _, resp => resp.statusOf ≠ .ok
  | .requestRaftReplication _ _, _ => c.outstandingLogTransactions = []
  | _, _ => True

instance (c : Core Hash DB) (callback : E2ECallback Hash) (resp : TransactionResponse Hash) :
    Decidable (callback.InTime c resp) := by
  cases callback <;> cases resp <;> unfold E2ECallback.InTime <;> infer_instance

/-- No log transaction is left behind by the message: a response comes in time, and when a group is
    created no log transaction waits. -/
def UntrustedMessage.InTime (c : Core Hash DB) : UntrustedMessage Hash DB → Prop
  | .h2eRequest _ .createNewRaftGroup => c.outstandingLogTransactions = []
  | .peerMessage _ (.data (.transactionResponse id resp)) =>
    ∀ t ∈ c.outstandingE2ETransactions, t.1 = id → t.2.callback.InTime c resp
  | _ => True

instance (c : Core Hash DB) : ∀ m : UntrustedMessage Hash DB, Decidable (m.InTime c)
  | .h2eRequest _ _ | .peerMessage _ _ => by
    unfold UntrustedMessage.InTime
    split <;> infer_instance
  | .timerTick _ | .resetPeer _ => inferInstanceAs (Decidable True)

namespace Core

/-- Every log transaction waits for an index above that of the entry applied last, which the
    replica and the core agree on. -/
structure Waits (c : Core Hash DB) (r : Raft Hash) : Prop where
  applied : r.Applied
  lastApplied : r.lastApplied = c.raft.loaded.dbLastAppliedLog
  first : c.raft.state = .loadedPartOfGroup → r.lastApplied ≠ 0 ∨ 1 ≤ r.log.oldestStoredIdx
  keys : ∀ t ∈ c.outstandingLogTransactions, r.lastApplied < t.1

/-- The loaded replica, if there is one, waits, unless a check has failed. -/
def Waiting (c : Core Hash DB) : Prop :=
  c.aborted = true ∨ ∀ r, c.raft.loaded.raft = some r → c.Waits r

end Core

open SVR2.Core

variable {s c c' : Core Hash DB} {o : CoreOracle} {m : UntrustedMessage Hash DB}

omit [DecidableEq Hash] [PushSize Hash] in
theorem Core.Waits.changes {r r' : Raft Hash} (hw : c.Waits r)
    (h : Raft.Changes (fun _ _ => True) r r') (hstate : c'.raft.state = c.raft.state)
    (hlast : c'.raft.loaded.dbLastAppliedLog = c.raft.loaded.dbLastAppliedLog)
    (htxns : c'.outstandingLogTransactions = c.outstandingLogTransactions) : c'.Waits r' := by
  obtain ⟨happlied, holdest, hkeep⟩ := h.applied
  refine ⟨hkeep hw.applied, ?_, fun hpart => ?_, ?_⟩
  · rw [happlied, hlast, hw.lastApplied]
  · rw [happlied]
    exact (hw.first (hstate ▸ hpart)).imp_right fun h => h.trans holdest
  · rw [happlied, htxns]
    exact hw.keys

omit [Platform Hash] [DecidableEq Hash] [PushSize Hash] in
theorem Core.Waits.add {r : Raft Hash} (hw : c.Waits r) {loc : LogLocation Hash}
    (hloc : r.lastApplied < loc.idx) (cb : LogTransactionCallback Hash) :
    (c.addLogTransaction loc cb).Waits r := by
  refine ⟨hw.applied, hw.lastApplied, hw.first, fun t ht => ?_⟩
  rcases List.mem_append.mp ht with ht | ht
  · exact hw.keys t ht
  · rw [List.mem_singleton.mp ht]
    exact hloc

omit [Platform Hash] [PushSize Hash] in
theorem Core.Waits.applyLog {r : Raft Hash} (hw : c.Waits r)
    (hidx : r.takeCommittedLog.2.1 ≠ 0) :
    ((c.called (.takeCommittedLog r) r.takeCommittedLog.1).raftHandleCommittedLog o
      r.takeCommittedLog.2.1 r.takeCommittedLog.2.2).Waiting := by
  obtain ⟨hnext, happlied, hlog, htaken⟩ := r.applied_takeCommittedLog hidx
  have hkeeps := (c.called (.takeCommittedLog r) r.takeCommittedLog.1).keeps_raftHandleCommittedLog
    o r.takeCommittedLog.2.1 r.takeCommittedLog.2.2
  rcases htaken with haborted | htaken
  · refine .inl (hkeeps.aborted ?_)
    change (c.aborted || r.takeCommittedLog.1.aborted) = true
    rw [haborted, Bool.or_true]
  · refine .inr fun r' hr' => ?_
    rw [hkeeps.replica] at hr'
    obtain rfl := Option.some.inj hr'
    refine ⟨htaken, ?_, fun _ => .inl ?_, fun t ht => ?_⟩
    · rw [hkeeps.lastApplied, happlied]
      exact hnext.symm
    · rw [happlied]
      exact Nat.succ_ne_zero _
    · have hkey : r.lastApplied < t.1 := hw.keys t (hkeeps.logTransactions t ht)
      have hne := logTransactions_raftHandleCommittedLog _ o _ _ t ht
      rw [happlied]
      omega

omit [Platform Hash] [DecidableEq Hash] [PushSize Hash] in
/-- The place that a log transaction is registered for has not been applied yet. -/
theorem Placed.lt_idx {loc : LogLocation Hash} {cb : LogTransactionCallback Hash}
    (h : Placed s c m loc cb) (hm : m.InTime s) {r : Raft Hash}
    (hr : c.raft.loaded.raft = some r) (hw : c.Waits r) : r.lastApplied < loc.idx := by
  cases h with
  | relinquished r₁ hr₁ tx =>
    obtain rfl := Option.some.inj (hr.symm.trans hr₁)
    exact Nat.lt_succ_of_le hw.applied.le_lastIdx
  | answered src id resp hresp _ _ hstart hstatus hloc =>
    subst hresp
    rw [hw.lastApplied, hstart.raft]
    rcases hloc with ⟨rfl, t, ht, hid, hcb⟩ | ⟨hloc, tx, cancel, rfl, t, ht, hid, hcb⟩
    · have h := hm t ht hid
      rw [hcb] at h
      exact h
    · have h := hm t ht hid
      rw [hcb] at h
      rcases hloc with rfl | ⟨hother, rfl⟩
      · exact h
      · cases resp with
        | raftMembershipResponse loc => exact absurd rfl (hother loc)
        | _ => exact absurd hstatus h

omit [DecidableEq Hash] [PushSize Hash] in
theorem Core.waits_new {group : Nat} {me : PeerId} {mem : Membership} {log : Log Hash}
    {config : RaftConfig} {committedLog : Bool} {superMajority : Nat} {o : Oracle}
    (hlast : c.raft.loaded.dbLastAppliedLog = if committedLog then log.lastIdx else 0)
    (hfirst : c.raft.state = .loadedPartOfGroup → 1 ≤ log.oldestStoredIdx)
    (htxns : c.outstandingLogTransactions = []) :
    c.Waits (Raft.new group me mem log config committedLog superMajority o) := by
  obtain ⟨hnew, happlied, holdest⟩ :=
    Raft.applied_new group me mem log config committedLog superMajority o rfl
  refine ⟨hnew, happlied.trans hlast.symm, fun hstate => .inr ?_, ?_⟩
  · exact (hfirst hstate).trans holdest
  · rw [htxns]
    simp

theorem CoreMove.waiting (h : CoreMove s o m c c') (hm : m.InTime s) (hc : c.Waiting) :
    c'.Waiting := by
  by_cases haborted : c.aborted = true
  · exact .inl (h.aborted haborted)
  have hwaits : ∀ r, c.raft.loaded.raft = some r → c.Waits r := hc.resolve_left haborted
  have of_loaded : ∀ {c'' : Core Hash DB}, c''.raft.loaded = c.raft.loaded →
      c''.raft.state = c.raft.state →
      c''.outstandingLogTransactions = c.outstandingLogTransactions → c''.Waiting := by
    intro c'' hloaded hstate htxns
    refine .inr fun r hr => ?_
    rw [hloaded] at hr
    exact (hwaits r hr).changes (.refl r) hstate (by rw [hloaded]) htxns
  have of_sends : ∀ {P} {c'' : Core Hash DB}, Sends P c c'' → c''.Waiting := fun h =>
    of_loaded (by rw [h.raft]) (by rw [h.raft]) h.logTransactions
  cases h with
  | quiet h => exact of_sends h
  | call call hr hstate hwhy =>
    refine .inr fun r hr' => ?_
    obtain rfl := Option.some.inj hr'
    exact (hwaits _ hr).changes (call.changes (by simp) (by simp) (by simp)
      hwhy.ne_takeCommittedLog) rfl rfl rfl
  | log r r' e loc cb hr hstate hasked hok hcb =>
    refine .inr fun r'' hr'' => ?_
    obtain rfl := Option.some.inj hr''
    have hw := hwaits r hr
    have hchanges : Raft.Changes (fun _ _ => True) r r' := by
      have h := r.changes_logRequest (P := fun _ _ => True) (o.raft 0) e (by simp) (by simp)
      rwa [hok] at h
    have hplace : r'.lastApplied < loc.idx := by
      rw [hchanges.applied.1]
      exact hw.applied.lt_place (hw.first hstate) hok
    have hcalled : (c.called (.logRequest r (o.raft 0) e) r').Waits r' :=
      hw.changes hchanges rfl rfl rfl
    exact hcalled.add hplace cb
  | register loc cb hwhy =>
    exact .inr fun r hr => (hwaits r hr).add (hwhy.lt_idx hm hr (hwaits r hr)) cb
  | sendMessages =>
    cases hr : c.raft.loaded.raft with
    | none =>
      rw [Core.raftSendMessages, hr]
      exact .inl c.aborted_abort
    | some r =>
      have hsent := c.calm_raftSendMessages hr
      have hw := hwaits r hr
      refine .inr fun r' hr' => ?_
      rw [hsent.raft] at hr'
      obtain rfl := Option.some.inj hr'
      refine ⟨⟨hw.applied.committed, hw.applied.stored⟩, ?_, ?_, ?_⟩
      · rw [hsent.raft]
        exact hw.lastApplied
      · rw [hsent.raft]
        exact hw.first
      · rw [hsent.logTransactions]
        exact hw.keys
  | applyLog r hr hidx => exact (hwaits r hr).applyLog hidx
  | push k => exact of_sends (c.sends_sendNextReplicationState o k)
  | serve _ _ _ _ _ _ r hr => exact of_sends (c.sends_serve o hr ..)
  | forward r hr dst entry hasked cb hcb => exact of_sends (c.sends_anyE2ETransaction o ..)
  | tellGroup r hr hstate dst id => exact of_sends (c.calm_sendAnyToPeer ..).toSends
  | tellPlace r o' e loc hcall hok dst id resp hid hresp =>
    exact of_sends (c.calm_sendAnyToPeer ..).toSends
  | load src id push hpush hstart hstate b => exact of_loaded rfl rfl rfl
  | replicate hstate => exact of_loaded rfl rfl rfl
  | wait tx peer hjoin hstart hstate => exact .inr (by simp)
  | startLoading src id groupConfig replicaGroup mem peer tx hgot hstart hstate hconfig hmem =>
    exact .inr (by simp)
  | failPromotion => exact .inl (Core.aborted_abort _)
  | promote src id resp hresp loadFrom tx hawaits hstart log mem hlog hmem =>
    subst hresp
    obtain ⟨t, ht, hid, hcb⟩ := hawaits
    have htxns := hm t ht hid
    rw [hcb] at htxns
    refine .inr fun r hr => ?_
    obtain rfl := Option.some.inj hr
    exact waits_new rfl (by rintro ⟨⟩) (hstart.logTransactions.trans htxns)
  | create tx hcreate hstart =>
    subst hcreate
    refine .inr fun r hr => ?_
    obtain rfl := Option.some.inj hr
    exact waits_new rfl (fun _ => le_rfl) (hstart.logTransactions.trans hm)
  | reconfigure config => exact of_loaded rfl rfl rfl

theorem CoreMoves.waiting (h : CoreMoves s o m c c') (hm : m.InTime s) (hc : c.Waiting) :
    c'.Waiting := by
  induction h with
  | refl => exact hc
  | tail _ hmove ih => exact hmove.waiting hm ih

omit [Platform Hash] [DecidableEq Hash] [PushSize Hash] in
theorem Core.create_waiting {me : PeerId} {groupConfig : RaftGroupConfig} {config : EnclaveConfig}
    {time : Nat} (hcreate : Core.create me groupConfig config o time = .ok c) : c.Waiting := by
  refine .inr fun r hr => ?_
  rw [Core.create] at hcreate
  split at hcreate
  · obtain rfl := Except.ok.inj hcreate
    nomatch hr
  · simp at hcreate
  · simp at hcreate

/-- On every enclave with a loaded replica, every log transaction waits for an index above the one
    that was applied last, in every run in which the responses that register one come in time. -/
theorem Cluster.log_transactions_wait (es : List (ClusterEvent Hash DB))
    (htime : Cluster.empty.Along (fun c _ m => m.InTime c) es) {p : PeerId}
    (hc : (Cluster.empty.run es).cores p = some c) (halive : c.aborted = false) {r : Raft Hash}
    (hr : c.raft.loaded.raft = some r) :
    ∀ t ∈ c.outstandingLogTransactions, c.raft.loaded.dbLastAppliedLog < t.1 := by
  have hwaiting : c.Waiting := by
    refine Cluster.cores_run Core.create_waiting ?_ es _ (by simp [Cluster.empty]) htime p c hc
    intro c o m _ hc hm
    have hfresh : m.InTime c.fresh := by
      unfold UntrustedMessage.InTime at hm ⊢
      exact hm
    have hstart : c.fresh.Waiting := hc.imp id fun hw r hr =>
      ⟨(hw r hr).applied, (hw r hr).lastApplied, (hw r hr).first, (hw r hr).keys⟩
    exact (c.moves_receive o m).waiting hfresh hstart
  have hw := (hwaiting.resolve_left (by simp [halive])) r hr
  exact hw.lastApplied ▸ hw.keys

namespace Sample

/-- After a run, the enclave's last applied index and the indexes of its log transactions, unless a
    check has failed. -/
def waiting (es : List (ClusterEvent IdealHash DB2)) (p : PeerId) : Option (Nat × List Nat) :=
  ((Cluster.empty.run es).cores p).bind fun c => if c.aborted then none else
    c.raft.loaded.raft.map fun _ =>
      (c.raft.loaded.dbLastAppliedLog, c.outstandingLogTransactions.map (·.1))

/-- Enclave 2 asks for other minimums: it forwards the entry to enclave 1, which leads. -/
def forwarded : List (ClusterEvent IdealHash DB2) :=
  ask 2 3 (.updateMinimums ∅) :: carry [(2, 1), (1, 2), (1, 2)]

/-- Enclave 2 does not vote, so enclave 1 commits the entry alone, and enclave 2 has applied it when
    it learns its index. -/
theorem log_transaction_stranded : waiting (joined ++ forwarded) 2 = some (3, [3]) := by
  decide +kernel

/-- Enclave 2 votes, so it learns the index of the entry before the entry is committed. -/
theorem log_transactions_wait_voting : ∃ c, (Cluster.empty.run (voting ++ forwarded)).cores 2 = some c ∧
    c.outstandingLogTransactions.map (·.1) = [4] ∧
    ∀ t ∈ c.outstandingLogTransactions, c.raft.loaded.dbLastAppliedLog < t.1 := by
  have hcore : ((Cluster.empty.run (voting ++ forwarded)).cores 2).isSome := by decide +kernel
  obtain ⟨c, hc⟩ := Option.isSome_iff_exists.mp hcore
  have hfacts : ((Cluster.empty.run (voting ++ forwarded)).cores 2).map (fun c =>
      (c.aborted, c.raft.loaded.raft.isSome, c.outstandingLogTransactions.map (·.1))) =
      some (false, true, [4]) := by
    decide +kernel
  rw [hc] at hfacts
  simp only [Option.map_some, Option.some.injEq, Prod.mk.injEq] at hfacts
  obtain ⟨r, hr⟩ := Option.isSome_iff_exists.mp hfacts.2.1
  exact ⟨c, hc, hfacts.2.2, Cluster.log_transactions_wait (voting ++ forwarded) (by decide +kernel)
    hc hfacts.1 hr⟩

end Sample

end SVR2
