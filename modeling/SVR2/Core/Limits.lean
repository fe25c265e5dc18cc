import SVR2.Core.Contents
import SVR2.Core.Waiting

/-!
# The limits that the replicas of a group hold

`HandleUpdateMinimums` checks an update against the limits of the enclave that it is asked of.  By
the time the entry is committed, others may have been, and `HandleRaftMinimumsChange` takes it for
granted that `UpdateLimits` still accepts it.  A replica that is loaded from another one gets its
log and its database, but not its limits.
-/

namespace SVR2

open Lib

def Inner.limits? : Inner → Option MinimumLimits
  | .minimums limits => some limits
  | _ => none

namespace Minimums

/-- `UpdateLimits` accepts each of the calls after those before it. -/
def Accepts : MinimumLimits → List MinimumLimits → Prop
  | _, [] => True
  | s, update :: calls => (updateLimits s update).2 = .ok ∧ Accepts (updateLimits s update).1 calls

theorem accepts_append {s : MinimumLimits} {calls calls' : List MinimumLimits} :
    Accepts s (calls ++ calls') ↔ Accepts s calls ∧ Accepts (limitsAfter s calls) calls' := by
  induction calls generalizing s with
  | nil => simp [Accepts, limitsAfter]
  | cons update calls ih =>
    simp only [List.cons_append, Accepts, ih, and_assoc]
    rfl

/-- The limits after the entries of a log up to an index, from none on. -/
def limitsAt (log : Nat → Inner) : Nat → MinimumLimits
  | 0 => ∅
  | i + 1 => limitsAfter (limitsAt log i) (log (i + 1)).limits?.toList

/-- Without entries that bring limits there are none. -/
theorem limitsAt_eq_empty {log : Nat → Inner} {i : Nat}
    (h : ∀ j < i, (log (j + 1)).limits? = none) : limitsAt log i = ∅ := by
  induction i with
  | zero => rfl
  | succ i ih =>
    rw [limitsAt, h i (Nat.lt_succ_self i), ih fun j hj => h j (Nat.lt_succ_of_lt hj)]
    rfl

/-- The limits are those of the update that was accepted last. -/
theorem limitsAt_cases (log : Nat → Inner) (i : Nat) :
    limitsAt log i = ∅ ∨ ∃ j ≤ i, (log j).limits? = some (limitsAt log i) := by
  induction i with
  | zero => exact .inl rfl
  | succ i ih =>
    have hkept : limitsAt log (i + 1) = limitsAt log i → limitsAt log (i + 1) = ∅ ∨
        ∃ j ≤ i + 1, (log j).limits? = some (limitsAt log (i + 1)) := by
      intro hsame
      rw [hsame]
      exact ih.imp_right fun ⟨j, hj, hlimits⟩ => ⟨j, hj.trans (Nat.le_succ i), hlimits⟩
    cases hlimits : (log (i + 1)).limits? with
    | none => exact hkept (by rw [limitsAt, hlimits]; rfl)
    | some update =>
      have hafter : limitsAt log (i + 1) = (updateLimits (limitsAt log i) update).1 := by
        rw [limitsAt, hlimits]
        rfl
      rcases updateLimits_cases (limitsAt log i) update with ⟨-, hsame⟩ | ⟨-, hnew, -⟩
      · exact hkept (hafter.trans hsame)
      · exact .inr ⟨i + 1, le_rfl, by rw [hafter, hnew, hlimits]⟩

/-- The limits have names and values, and are not lower than those of any update before them in
    the log of a group. -/
structure InOrder (log : Nat → Nat → Inner) (update : MinimumLimits) : Prop where
  named : ∀ key v, update.find? key = some v → v ≠ [] ∧ key ≠ ""
  tightens : ∀ g i j earlier, i < j → (log g j).limits? = some update →
    (log g i).limits? = some earlier → Tightens earlier update

theorem tightens_empty (s : MinimumLimits) : Tightens ∅ s := by
  intro key v hv
  rw [OrdMap.find?_empty] at hv
  cases hv

theorem InOrder.accepted {log : Nat → Nat → Inner} {update : MinimumLimits} (h : InOrder log update)
    {g i : Nat} (hlog : (log g (i + 1)).limits? = some update) :
    (updateLimits (limitsAt (log g) i) update).2 = .ok := by
  refine updateLimits_eq_ok.mpr ⟨h.named, ?_⟩
  rcases limitsAt_cases (log g) i with hempty | ⟨j, hj, hlimits⟩
  · rw [hempty]
    exact tightens_empty update
  · exact h.tightens g j (i + 1) _ (Nat.lt_succ_of_le hj) hlog hlimits

/-- An update that is accepted after some limits is accepted after lower ones too. -/
theorem Tightens.updateLimits {s s' update : MinimumLimits} (h : Tightens s s')
    (hok : (updateLimits s' update).2 = .ok) : (Minimums.updateLimits s update).2 = .ok := by
  obtain ⟨hnames, htightens⟩ := updateLimits_eq_ok.mp hok
  exact updateLimits_eq_ok.mpr ⟨hnames, h.trans htightens⟩

theorem updateLimits_fst {s update : MinimumLimits} (hok : (updateLimits s update).2 = .ok) :
    (updateLimits s update).1 = update := by
  rcases updateLimits_cases s update with ⟨herr, -⟩ | ⟨-, hnew, -⟩
  · exact absurd hok herr
  · exact hnew

theorem accepts_entry {log : Nat → Inner} {i : Nat} {s : MinimumLimits}
    (h : Tightens s (limitsAt log i))
    {inner : Inner} (hinner : inner = log (i + 1) ∨ inner = .notSet)
    (hok : ∀ update, inner.limits? = some update →
      (updateLimits (limitsAt log i) update).2 = .ok) :
    Accepts s inner.limits?.toList ∧
      Tightens (limitsAfter s inner.limits?.toList) (limitsAt log (i + 1)) := by
  rcases hinner with rfl | rfl
  · rw [limitsAt]
    cases hlimits : (log (i + 1)).limits? with
    | none => exact ⟨trivial, h⟩
    | some update =>
      have hok := hok update hlimits
      have hok' := h.updateLimits hok
      refine ⟨⟨hok', trivial⟩, ?_⟩
      change Tightens (updateLimits s update).1 (updateLimits (limitsAt log i) update).1
      rw [updateLimits_fst hok, updateLimits_fst hok']
      exact .refl update
  · exact ⟨trivial, h.trans (tightens_limitsAfter _ _)⟩

end Minimums

open Minimums

variable {Hash DB : Type} [Database DB]

def RaftCall.update? : RaftCall Hash → Option MinimumLimits
  | .takeCommittedLog r => r.takeCommittedLog.2.2.inner.limits?
  | _ => none

/-- The entry that the call takes is the one that the group commits at its index. -/
def RaftCall.Commits (log : Nat → Nat → Inner) : RaftCall Hash → Prop
  | .takeCommittedLog r =>
    ∀ e ∈ r.log.at? (r.lastApplied + 1), e.inner = log r.group (r.lastApplied + 1)
  | _ => True

instance (log : Nat → Nat → Inner) : ∀ call : RaftCall Hash, Decidable (call.Commits log)
  | .takeCommittedLog r => inferInstanceAs (Decidable (∀ e ∈ r.log.at? (r.lastApplied + 1), _))
  | .timerTick .. | .logRequest .. | .relinquishLeadership .. | .receive .. | .resetPeer ..
  | .reconfigure .. => inferInstanceAs (Decidable True)

/-- The response to the transaction completes the load of a replica. -/
def E2ECallback.loads : E2ECallback Hash → Bool
  | .requestRaftReplication _ _ => true
  | _ => false

namespace Core

/-- What `HandleRaftMinimumsChange` was called with while the latest message was handled. -/
def updates (c : Core Hash DB) : List MinimumLimits := c.calls.filterMap RaftCall.update?

/-- The group, and the index of the entry that counts as applied last, if handling the message can
    make the enclave a replica: it creates a group, or it has been loaded. -/
def startsAt (c : Core Hash DB) (o : CoreOracle) : UntrustedMessage Hash DB → Option (Nat × Nat)
  | .h2eRequest _ .createNewRaftGroup => some (o.randomBytes, 0)
  | .peerMessage _ (.data (.transactionResponse id _)) =>
    if c.outstandingE2ETransactions.any fun t => t.1 = id && t.2.callback.loads then
      c.raft.loading.log.map fun log => (c.raft.loading.groupConfig.groupId, log.lastIdx)
    else none
  | _ => none

theorem updates_called {c c' : Core Hash DB} {call : RaftCall Hash}
    (h : c'.calls = c.calls ++ [call]) : c'.updates = c.updates ++ call.update?.toList := by
  rw [updates, h, List.filterMap_append, updates]
  cases hcall : call.update? <;> simp [hcall]

variable (c : Core Hash DB) (o : CoreOracle)

/-! ### One entry -/

theorem minimums_handleRaftMembershipChange (g : ReplicaGroup) :
    (c.handleRaftMembershipChange o g).minimums = c.minimums := by
  rw [handleRaftMembershipChange]
  split
  · split_ifs
    · rfl
    · exact (Sends.foldl (P := fun _ _ => False) _
        (fun c t _ => c.quiet_logTransactionCallback ..) _).minimums
  · split_ifs <;> rfl
  · exact c.calm_abort.minimums

theorem minimums_raftApplyLogToDatabase (d : Bytes) :
    (c.raftApplyLogToDatabase d).1.minimums = c.minimums := by
  rw [raftApplyLogToDatabase.eq_def]
  split
  · exact c.calm_abort.minimums
  · rfl
  · dsimp only
    split <;> rfl

theorem minimums_applyCommittedEntry (inner : Inner) :
    (c.applyCommittedEntry o inner).1.minimums = limitsAfter c.minimums inner.limits?.toList := by
  cases inner with
  | membershipChange g => exact c.minimums_handleRaftMembershipChange o g
  | data d => exact c.minimums_raftApplyLogToDatabase d
  | minimums limits =>
    change (c.handleRaftMinimumsChange limits).minimums = _
    rw [handleRaftMinimumsChange]
    exact ((calm_check _ _).trans (calm_minimumsUpdated _)).minimums
  | notSet => rfl

/-- Applying an entry is a call of `UpdateLimits` if the entry brings limits. -/
theorem minimums_raftHandleCommittedLog [DecidableEq Hash] (idx : Nat) (e : LogEntry Hash) :
    (c.raftHandleCommittedLog o idx e).minimums =
      limitsAfter c.minimums e.inner.limits?.toList := by
  rw [raftHandleCommittedLog, (quiet_handleLogTransactionsForRaftLog ..).minimums]
  exact minimums_applyCommittedEntry ..

end Core

/-! ### One move -/

section Move

variable [DecidableEq Hash] [Platform Hash] [PushSize Hash]
  {s c c' : Core Hash DB} {o : CoreOracle} {m : UntrustedMessage Hash DB}

inductive LimitsMove (s : Core Hash DB) (o : CoreOracle) (m : UntrustedMessage Hash DB)
    (c c' : Core Hash DB) : Prop where
  | rest (hminimums : c'.minimums = c.minimums) (hupdates : c'.updates = c.updates)
      (hsame : ∀ r', c'.raft.loaded.raft = some r' → ∃ r, c.raft.loaded.raft = some r ∧
        r'.group = r.group ∧ r'.lastApplied = r.lastApplied)
  | entry (r : Raft Hash) (hr : c.raft.loaded.raft = some r) (hidx : r.takeCommittedLog.2.1 ≠ 0)
      (hcalls : c'.calls = c.calls ++ [.takeCommittedLog r])
      (hminimums : c'.minimums =
        limitsAfter c.minimums r.takeCommittedLog.2.2.inner.limits?.toList)
      (hr' : c'.raft.loaded.raft = some r.takeCommittedLog.1)
      (haborted : r.takeCommittedLog.1.aborted = true → c'.aborted = true)
  | start (hminimums : c'.minimums = s.minimums) (hupdates : c'.updates = c.updates)
      (hstart : c.minimums = s.minimums)
      (hsome : ∀ r', c'.raft.loaded.raft = some r' →
        (r'.group, r'.lastApplied) ∈ s.startsAt o m)

omit [DecidableEq Hash] [PushSize Hash] [Database DB] in
theorem Raft.Changes.group {P : Nat → Inner → Prop} {r r' : Raft Hash} (h : Raft.Changes P r r') :
    r'.group = r.group := by
  induction h with
  | refl => rfl
  | tail _ hchange ih =>
    rw [← ih]
    cases hchange with
    | rest hkept =>
      simp only [Raft.kept, Prod.mk.injEq] at hkept
      exact hkept.2.1
    | _ => rfl

theorem CoreMove.limits (h : CoreMove s o m c c') : LimitsMove s o m c c' := by
  have of_loaded : ∀ {c'' : Core Hash DB}, c''.minimums = c.minimums → c''.calls = c.calls →
      c''.raft.loaded.raft = c.raft.loaded.raft → LimitsMove s o m c c'' := by
    intro c'' hminimums hcalls hraft
    refine .rest hminimums ?_ fun r hr => ⟨r, hraft ▸ hr, rfl, rfl⟩
    rw [Core.updates, hcalls, Core.updates]
  have of_sends : ∀ {P} {c'' : Core Hash DB}, Sends P c c'' → LimitsMove s o m c c'' :=
    fun h => of_loaded h.minimums h.calls (by rw [h.raft])
  have of_changes : ∀ {r r' : Raft Hash} (call : RaftCall Hash) {c'' : Core Hash DB},
      c.raft.loaded.raft = some r → Raft.Changes (fun _ _ => True) r r' → call.update? = none →
      c''.minimums = c.minimums → c''.calls = c.calls ++ [call] →
      c''.raft.loaded.raft = some r' → LimitsMove s o m c c'' := by
    intro r r' call c'' hr hchanges hcall hminimums hcalls hr'
    refine .rest hminimums ?_ fun r'' hr'' => ⟨r, hr, ?_⟩
    · rw [Core.updates_called hcalls, hcall]
      exact List.append_nil _
    · obtain rfl := Option.some.inj (hr'.symm.trans hr'')
      exact ⟨hchanges.group, hchanges.applied.1⟩
  cases h with
  | quiet h => exact of_sends h
  | call call hr hstate hwhy =>
    have hchanges := call.changes (P := fun _ _ => True) (by simp) (by simp) (by simp)
      hwhy.ne_takeCommittedLog
    refine of_changes call hr hchanges ?_ rfl rfl rfl
    cases call with
    | takeCommittedLog r => exact absurd rfl (hwhy.ne_takeCommittedLog r)
    | _ => rfl
  | log r r' e loc cb hr hstate hasked hok hcb =>
    have hchanges := r.changes_logRequest (P := fun _ _ => True) (o.raft 0) e (by simp) (by simp)
    rw [hok] at hchanges
    exact of_changes (.logRequest r (o.raft 0) e) hr hchanges rfl rfl rfl rfl
  | register loc cb hwhy => exact of_loaded rfl rfl rfl
  | sendMessages =>
    cases hr : c.raft.loaded.raft with
    | none =>
      rw [Core.raftSendMessages, hr]
      exact of_sends c.calm_abort.toSends
    | some r =>
      have hsent := c.calm_raftSendMessages hr
      refine .rest hsent.minimums ?_ fun r' hr' => ⟨r, hr, ?_⟩
      · rw [Core.updates, hsent.calls]
        rfl
      · rw [hsent.raft] at hr'
        obtain rfl := Option.some.inj hr'
        exact ⟨rfl, rfl⟩
  | applyLog r hr hidx =>
    have hkeeps := (c.called (.takeCommittedLog r)
      r.takeCommittedLog.1).keeps_raftHandleCommittedLog o r.takeCommittedLog.2.1
        r.takeCommittedLog.2.2
    refine .entry r hr hidx hkeeps.calls (Core.minimums_raftHandleCommittedLog ..) hkeeps.replica
      fun haborted => hkeeps.aborted ?_
    change (c.aborted || r.takeCommittedLog.1.aborted) = true
    rw [haborted, Bool.or_true]
  | push k => exact of_sends (c.sends_sendNextReplicationState o k)
  | serve _ _ _ _ _ _ r hr => exact of_sends (c.sends_serve o hr ..)
  | forward r hr dst entry hasked cb hcb => exact of_sends (c.sends_anyE2ETransaction o ..)
  | tellGroup r hr hstate dst id => exact of_sends (c.calm_sendAnyToPeer ..).toSends
  | tellPlace r o' e loc hcall hok dst id resp hid hresp =>
    exact of_sends (c.calm_sendAnyToPeer ..).toSends
  | load src id push hpush hstart hstate b => exact of_loaded rfl rfl rfl
  | replicate hstate => exact of_loaded rfl rfl rfl
  | wait tx peer hjoin hstart hstate => exact .rest rfl rfl fun r hr => by cases hr
  | startLoading src id groupConfig replicaGroup mem peer tx hgot hstart hstate hconfig hmem =>
    exact .rest rfl rfl fun r hr => by cases hr
  | failPromotion => exact of_loaded rfl rfl rfl
  | promote src id resp hresp loadFrom tx hawaits hstart log mem hlog hmem =>
    subst hresp
    refine .start hstart.minimums rfl hstart.minimums fun r hr => ?_
    obtain rfl := Option.some.inj hr
    have hchanges := Raft.changes_new (P := fun _ _ => True) c.raft.loading.groupConfig.groupId c.me
      mem log c.enclaveConfig.raft.toRaftConfig true c.raft.loading.groupConfig.superMajority
      (o.raft 0) (by simp)
    have hloads : s.outstandingE2ETransactions.any (fun t => t.1 = id && t.2.callback.loads) := by
      obtain ⟨t, ht, hid, hcb⟩ := hawaits
      rw [List.any_eq_true]
      exact ⟨t, ht, by simp [hid, hcb, E2ECallback.loads]⟩
    rw [hstart.raft] at hlog
    rw [Core.startsAt, if_pos hloads, hlog, ← hstart.raft]
    exact congrArg some (Prod.ext hchanges.group.symm hchanges.applied.1.symm)
  | create tx hcreate hstart =>
    subst hcreate
    refine .start hstart.minimums rfl hstart.minimums fun r hr => ?_
    obtain rfl := Option.some.inj hr
    have hchanges := Raft.changes_new (P := fun _ _ => True) o.randomBytes c.me
      (Membership.first c.me) (Log.new c.enclaveConfig.raft.logMaxBytes : Log Hash)
      c.enclaveConfig.raft.toRaftConfig false c.raftConfigTemplate.superMajority (o.raft 0)
      (by simp)
    exact congrArg some (Prod.ext hchanges.group.symm hchanges.applied.1.symm)
  | reconfigure config => exact of_loaded rfl rfl rfl

omit [DecidableEq Hash] [Platform Hash] [PushSize Hash] [Database DB] in
theorem Raft.takeCommittedLog_cases {r : Raft Hash} (hidx : r.takeCommittedLog.2.1 ≠ 0) :
    r.takeCommittedLog.1.group = r.group ∧
      r.takeCommittedLog.1.lastApplied = r.lastApplied + 1 ∧
      (r.log.at? (r.lastApplied + 1) = some r.takeCommittedLog.2.2 ∨
        r.takeCommittedLog.1.aborted = true ∧ r.takeCommittedLog.2.2.inner = .notSet) := by
  rw [Raft.takeCommittedLog] at hidx ⊢
  split_ifs at hidx ⊢
  · exact absurd rfl hidx
  · dsimp only
    split
    · rename_i e he
      exact ⟨rfl, rfl, .inl he⟩
    · exact ⟨rfl, rfl, .inr ⟨Bool.or_true _, rfl⟩⟩

/-! ### Updates that are committed in order -/

variable {log : Nat → Nat → Inner}

def inOrder (log : Nat → Nat → Inner) : Contents where
  entry inner := ∀ update, inner.limits? = some update → InOrder log update
  membership _ := True
  config _ := True
  notSet _ h := by cases h
  first _ := trivial
  change _ _ := trivial
  asProto _ _ := trivial
  groupId _ _ := trivial

/-- No update is pending before the one that is asked for: the enclave that is asked has the limits
    of every other one that comes before it in the log of a group. -/
def Core.NonePending (log : Nat → Nat → Inner) (c : Core Hash DB) : UntrustedMessage Hash DB → Prop
  | .h2eRequest _ (.updateMinimums update) => ∀ g i j earlier, i < j →
    (log g j).limits? = some update → (log g i).limits? = some earlier → earlier ≠ update →
      Tightens earlier c.minimums
  | _ => True

omit [DecidableEq Hash] [Platform Hash] [PushSize Hash] in
theorem Core.NonePending.asks (h : c.NonePending log m) : (inOrder log).Asks c o m := by
  intro c' r inner _ hin _ hasked update hupdate
  cases hasked with
  | minimums tx update' hm hstart hok =>
    obtain rfl : update' = update := Option.some.inj hupdate
    subst hm
    obtain ⟨hnamed, htightens⟩ := updateLimits_eq_ok.mp hok
    refine ⟨hnamed, fun g i j earlier hij hj hi => ?_⟩
    by_cases hsame : earlier = update'
    · exact hsame ▸ .refl earlier
    · have hlimits : c'.minimums = c.minimums := hstart.minimums
      exact (h g i j earlier hij hj hi hsame).trans (hlimits ▸ htightens)
  | write src id entry hm =>
    subst hm
    exact hin update hupdate
  | _ => cases hupdate

/-- The limits of a replica are at most those of its group, up to the entry applied last. -/
def Core.Within (log : Nat → Nat → Inner) (c : Core Hash DB) : Prop :=
  ∀ r, c.raft.loaded.raft = some r → Tightens c.minimums (limitsAt (log r.group) r.lastApplied)

/-- While a message is handled, the limits are those that were there before and the updates, all of
    which were accepted. -/
structure Accepting (log : Nat → Nat → Inner) (s c : Core Hash DB) : Prop where
  within : c.Within log
  minimums : c.minimums = limitsAfter s.minimums c.updates
  accepts : Accepts s.minimums c.updates

theorem CoreMove.accepting (h : CoreMove s o m c c') (hc : Accepting log s c)
    (hentries : (inOrder log).InCore c)
    (hstart : ∀ x ∈ s.startsAt o m, s.minimums = ∅) (hcalls : ∀ call ∈ c'.calls, call.Commits log) :
    Accepting log s c' := by
  cases h.limits with
  | rest hminimums hupdates hsame =>
    refine ⟨fun r' hr' => ?_, hminimums.trans (hupdates ▸ hc.minimums), hupdates ▸ hc.accepts⟩
    obtain ⟨r, hr, hgroup, happlied⟩ := hsame r' hr'
    rw [hminimums, hgroup, happlied]
    exact hc.within r hr
  | entry r hr hidx hcall hminimums hr' haborted =>
    obtain ⟨hgroup, happlied, htaken⟩ := Raft.takeCommittedLog_cases hidx
    have hupdates := Core.updates_called hcall
    have hinner : r.takeCommittedLog.2.2.inner = log r.group (r.lastApplied + 1) ∨
        r.takeCommittedLog.2.2.inner = .notSet := by
      rcases htaken with hstored | ⟨-, hnone⟩
      · exact .inl (hcalls (.takeCommittedLog r) (by simp [hcall]) _ hstored)
      · exact .inr hnone
    have haccept := accepts_entry (hc.within r hr) hinner fun update hupdate => by
      rcases htaken with hstored | ⟨-, hnone⟩
      · have hlog := hcalls (.takeCommittedLog r) (by simp [hcall]) _ hstored
        have hentry := (hentries.loaded r hr).2.log _ (Log.mem_of_at? hstored)
        exact (hentry update hupdate).accepted (hlog ▸ hupdate)
      · rw [hnone] at hupdate
        cases hupdate
    refine ⟨fun r'' hr'' => ?_, ?_, ?_⟩
    · obtain rfl := Option.some.inj (hr'.symm.trans hr'')
      rw [hgroup, happlied, hminimums]
      exact haccept.2
    · rw [hminimums, hupdates, limitsAfter_append, ← hc.minimums, RaftCall.update?]
    · rw [hupdates, accepts_append, ← hc.minimums]
      exact ⟨hc.accepts, haccept.1⟩
  | start hminimums hupdates hsame hsome =>
    refine ⟨fun r' hr' => ?_, ?_, hupdates ▸ hc.accepts⟩
    · rw [hminimums, hstart _ (hsome r' hr')]
      exact tightens_empty _
    · rw [hminimums, hupdates, ← hc.minimums, hsame]

theorem CoreMoves.accepting (h : CoreMoves s o m c c') (hc : Accepting log s c)
    (hentries : (inOrder log).InCore c) (hm : (inOrder log).inUntrusted m)
    (hasked : ∀ {c r inner}, (inOrder log).InCore c → c.raft.loaded.raft = some r →
      Asked s c o m r inner → (inOrder log).entry inner)
    (hstart : ∀ x ∈ s.startsAt o m, s.minimums = ∅) (hcalls : ∀ call ∈ c'.calls, call.Commits log) :
    Accepting log s c' := by
  induction h with
  | refl => exact hc
  | tail hmoves hmove ih =>
    exact hmove.accepting (ih fun call hcall => hcalls call (hmove.calls_subset hcall))
      (hentries.moves hmoves hm hasked) hstart hcalls

/-! ### No entry with limits before a load -/

/-- The limits of a replica are those of its group, unless a check has failed. -/
def Core.Exactly (log : Nat → Nat → Inner) (c : Core Hash DB) : Prop :=
  c.aborted = true ∨
    ∀ r, c.raft.loaded.raft = some r → c.minimums = limitsAt (log r.group) r.lastApplied

theorem CoreMove.exactly (h : CoreMove s o m c c') (hc : c.Exactly log)
    (hstart : ∀ x ∈ s.startsAt o m, s.minimums = ∅ ∧
      ∀ i < x.2, (log x.1 (i + 1)).limits? = none)
    (hcalls : ∀ call ∈ c'.calls, call.Commits log) : c'.Exactly log := by
  by_cases haborted : c.aborted = true
  · exact .inl (h.aborted haborted)
  have hexact := hc.resolve_left haborted
  cases h.limits with
  | rest hminimums hupdates hsame =>
    refine .inr fun r' hr' => ?_
    obtain ⟨r, hr, hgroup, happlied⟩ := hsame r' hr'
    rw [hminimums, hgroup, happlied]
    exact hexact r hr
  | entry r hr hidx hcall hminimums hr' hfails =>
    obtain ⟨hgroup, happlied, htaken⟩ := Raft.takeCommittedLog_cases hidx
    rcases htaken with hstored | ⟨hfailed, -⟩
    · refine .inr fun r'' hr'' => ?_
      obtain rfl := Option.some.inj (hr'.symm.trans hr'')
      have hinner := hcalls (.takeCommittedLog r) (by simp [hcall]) _ hstored
      rw [hminimums, hgroup, happlied, limitsAt, ← hinner, ← hexact r hr]
    · exact .inl (hfails hfailed)
  | start hminimums hupdates hsame hsome =>
    refine .inr fun r' hr' => ?_
    obtain ⟨hempty, hnone⟩ := hstart _ (hsome r' hr')
    rw [hminimums, hempty, limitsAt_eq_empty hnone]

theorem CoreMoves.exactly (h : CoreMoves s o m c c') (hc : c.Exactly log)
    (hstart : ∀ x ∈ s.startsAt o m, s.minimums = ∅ ∧
      ∀ i < x.2, (log x.1 (i + 1)).limits? = none)
    (hcalls : ∀ call ∈ c'.calls, call.Commits log) : c'.Exactly log := by
  induction h with
  | refl => exact hc
  | tail _ hmove ih =>
    exact hmove.exactly (ih fun call hcall => hcalls call (hmove.calls_subset hcall)) hstart hcalls

end Move

/-! ### Every run of a cluster -/

section Cluster

variable [DecidableEq Hash] [Platform Hash] [PushSize Hash]

/-- All entries that the enclave applies while it handles the message are those that the groups
    commit. -/
def Core.Commits (log : Nat → Nat → Inner) (c : Core Hash DB) (o : CoreOracle)
    (m : UntrustedMessage Hash DB) : Prop :=
  ∀ call ∈ (c.receive o m).1.calls, call.Commits log

instance (log : Nat → Nat → Inner) (c : Core Hash DB) (o : CoreOracle)
    (m : UntrustedMessage Hash DB) : Decidable (c.Commits log o m) := by
  unfold Core.Commits
  infer_instance

omit [DecidableEq Hash] [Platform Hash] [PushSize Hash] in
theorem Core.loaded_of_create {p : PeerId} {groupConfig : RaftGroupConfig} {config : EnclaveConfig}
    {o : CoreOracle} {time : Nat} {c : Core Hash DB}
    (hcreate : Core.create p groupConfig config o time = .ok c) : c.raft.loaded.raft = none := by
  rw [Core.create] at hcreate
  split at hcreate
  · obtain rfl := Except.ok.inj hcreate
    rfl
  · simp at hcreate
  · simp at hcreate

/-- In every run in which each update of the limits is asked of an enclave for which no other one is
    pending, and in which no enclave has limits when it creates a group or is loaded, `UpdateLimits`
    accepts every update that any enclave applies. -/
theorem minimums_accepted (log : Nat → Nat → Inner) (es : List (ClusterEvent Hash DB))
    (hes : Cluster.empty.Along (fun c o m => c.Commits log o m ∧
      (∀ x ∈ c.startsAt o m, c.minimums = ∅) ∧ c.NonePending log m) es) :
    Cluster.empty.Along (fun c o m => Accepts c.minimums (c.receive o m).1.updates) es := by
  have hkind := Contents.InCluster.along (K := inOrder log) (fun _ _ _ h => h.2.2.asks) es _
    Contents.inCluster_empty (fun _ _ _ _ => trivial) hes
  have hreceive : ∀ (c : Core Hash DB) o m, c.Within log → (c.Commits log o m ∧
      (∀ x ∈ c.startsAt o m, c.minimums = ∅) ∧ c.NonePending log m) ∧
      (inOrder log).InCore c ∧ (inOrder log).inUntrusted m →
      Accepting log c.fresh (c.receive o m).1 := by
    rintro c o m hc ⟨⟨hcommits, hstart, hpending⟩, hcore, hm⟩
    exact (c.moves_receive o m).accepting ⟨hc, rfl, trivial⟩
      { hcore with out := fun _ _ hmsg => by cases hmsg } hm
      (fun hc' hr hasked => hpending.asks hc' hm hr hasked) hstart hcommits
  refine Cluster.along_run (P := Core.Within log) ?_ ?_ ?_ es _ (by simp [Cluster.empty]) hkind
  · intro p groupConfig config o time c hcreate r hr
    rw [Core.loaded_of_create hcreate] at hr
    cases hr
  · exact fun c o m _ hc h => (hreceive c o m hc h).within
  · exact fun c o m _ hc h => (hreceive c o m hc h).accepts

/-- In every run in which no enclave has limits when it creates a group or is loaded, and in which
    its group has then committed none, every enclave with a loaded replica has exactly the limits
    of its group at the index it has applied. -/
theorem limits_of_group (log : Nat → Nat → Inner) (es : List (ClusterEvent Hash DB))
    (hes : Cluster.empty.Along (fun c o m => c.Commits log o m ∧ ∀ x ∈ c.startsAt o m,
      c.minimums = ∅ ∧ ∀ i < x.2, (log x.1 (i + 1)).limits? = none) es) {p : PeerId}
    {c : Core Hash DB} (hc : (Cluster.empty.run es).cores p = some c) (halive : c.aborted = false)
    {r : Raft Hash} (hr : c.raft.loaded.raft = some r) :
    c.minimums = limitsAt (log r.group) r.lastApplied := by
  have hexactly : c.Exactly log := by
    refine Cluster.cores_run (P := Core.Exactly log) ?_ ?_ es _ (by simp [Cluster.empty]) hes p c hc
    · intro p groupConfig config o time c hcreate
      refine .inr fun r hr => ?_
      rw [Core.loaded_of_create hcreate] at hr
      cases hr
    · exact fun c o m _ hc h => (c.moves_receive o m).exactly hc h.2 h.1
  exact hexactly.resolve_left (by simp [halive]) r hr

end Cluster

namespace Sample

def atLeast (value : Byte) : MinimumLimits := (∅ : MinimumLimits).insert "version" [value]

/-- Enclave 1, which leads, is asked for two updates one after the other. -/
def updatedInTurn : List (ClusterEvent IdealHash DB2) :=
  voting ++ ask 1 3 (.updateMinimums (atLeast 1)) ::
    carry [(1, 2), (2, 1), (1, 2), (2, 1), (1, 2), (2, 1)] ++
    ask 1 4 (.updateMinimums (atLeast 2)) :: carry [(1, 2), (2, 1), (1, 2), (2, 1), (1, 2)]

def committed (_ i : Nat) : Inner :=
  [Inner.notSet, .membershipChange [⟨some 1, true⟩, ⟨some 2, false⟩],
    .membershipChange [⟨some 1, true⟩, ⟨some 2, true⟩], .minimums (atLeast 1),
    .minimums (atLeast 2)][i - 1]?.getD .notSet

theorem limits_committed {g i : Nat} {update : MinimumLimits}
    (h : (committed g i).limits? = some update) :
    i = 4 ∧ update = atLeast 1 ∨ i = 5 ∧ update = atLeast 2 := by
  match i with
  | 0 | 1 | 2 | 3 => cases h
  | 4 => exact .inl ⟨rfl, (Option.some.inj h).symm⟩
  | 5 => exact .inr ⟨rfl, (Option.some.inj h).symm⟩
  | i + 6 => cases h

/-- The second update is asked for once the first has been applied. -/
def InTurn (c : Core IdealHash DB2) : UntrustedMessage IdealHash DB2 → Prop
  | .h2eRequest _ (.updateMinimums update) =>
    update = atLeast 1 ∨ update = atLeast 2 ∧ c.minimums = atLeast 1
  | _ => True

instance (c : Core IdealHash DB2) (m : UntrustedMessage IdealHash DB2) : Decidable (InTurn c m) := by
  unfold InTurn
  split <;> infer_instance

theorem InTurn.nonePending {c : Core IdealHash DB2} {m : UntrustedMessage IdealHash DB2}
    (h : InTurn c m) : c.NonePending committed m := by
  unfold Core.NonePending
  split
  · intro g i j earlier hij hj hi hne
    obtain ⟨rfl, rfl⟩ | ⟨rfl, rfl⟩ := limits_committed hi
    · obtain ⟨rfl, -⟩ | ⟨rfl, rfl⟩ := limits_committed hj
      · exact absurd hij (lt_irrefl 4)
      · rcases h with heq | ⟨-, hlimits⟩
        · exact absurd heq (by decide)
        · exact hlimits ▸ .refl _
    · obtain ⟨rfl, -⟩ | ⟨rfl, -⟩ := limits_committed hj <;> omega
  · trivial

theorem minimums_accepted_in_turn :
    Cluster.empty.Along (fun c o m => Accepts c.minimums (c.receive o m).1.updates) updatedInTurn := by
  have hturn : Cluster.empty.Along (fun c o m => c.Commits committed o m ∧
      (∀ x ∈ c.startsAt o m, c.minimums = ∅) ∧ InTurn c m) updatedInTurn := by
    decide +kernel
  refine minimums_accepted committed updatedInTurn ?_
  exact Cluster.along_run (P := fun _ => True) (fun _ => trivial) (fun _ _ _ _ _ _ => trivial)
    (fun c o m _ _ h => ⟨h.1, h.2.1, h.2.2.nonePending⟩) _ _ (fun _ _ _ => trivial) hturn

/-- Both updates are asked for before the first is committed, the higher limit first. -/
def updatedAtOnce : List (ClusterEvent IdealHash DB2) :=
  voting ++ [ask 1 3 (.updateMinimums (atLeast 2)), ask 1 4 (.updateMinimums (atLeast 1))] ++
    carry [(1, 2), (2, 1), (1, 2), (2, 1), (1, 2), (2, 1)]

/-- Both are accepted and committed, and the second ends the process of enclave 1. -/
theorem minimums_refused :
    (((Cluster.empty.run updatedAtOnce).cores 1).map fun c =>
      (c.minimums, c.updates, c.aborted)) = some (atLeast 2, [atLeast 1], true) ∧
    (updateLimits (atLeast 2) (atLeast 1)).2 = .minimumsLimitDecreased := by
  decide +kernel

theorem limits_of_group_in_turn : ∃ c, (Cluster.empty.run updatedInTurn).cores 2 = some c ∧
    c.minimums = limitsAt (committed 5) 5 ∧ c.minimums = atLeast 2 := by
  have hfacts : (((Cluster.empty.run updatedInTurn).cores 2).map fun c => (c.aborted, c.minimums,
      c.raft.loaded.raft.map fun r => (r.group, r.lastApplied))) =
      some (false, atLeast 2, some (5, 5)) := by
    decide +kernel
  obtain ⟨c, hc, hfacts⟩ := Option.map_eq_some_iff.mp hfacts
  simp only [Prod.mk.injEq, Option.map_eq_some_iff] at hfacts
  obtain ⟨halive, hminimums, r, hr, hgroup, happlied⟩ := hfacts
  have hlimits := limits_of_group committed updatedInTurn (by decide +kernel) hc halive hr
  rw [hgroup, happlied] at hlimits
  exact ⟨c, hc, hlimits, hminimums⟩

def joinedLimited : List (ClusterEvent IdealHash DB2) :=
  [start 1, start 2, ask 1 1 .createNewRaftGroup, ask 1 2 (.updateMinimums (atLeast 1))] ++
    joined.drop 3

/-- After a run, the index that the enclave has applied, the second entry of its log, and its limits,
    unless a check has failed. -/
def limited (es : List (ClusterEvent IdealHash DB2)) (p : PeerId) :
    Option (Nat × Option Inner × MinimumLimits) :=
  ((Cluster.empty.run es).cores p).bind fun c => if c.aborted then none else
    c.raft.loaded.raft.map fun r => (r.lastApplied, (r.log.at? 2).map (·.inner), c.minimums)

/-- Both have applied three entries, of which the second brings limits, and enclave 2 has none. -/
theorem limits_missing :
    limited joinedLimited 1 = some (3, some (.minimums (atLeast 1)), atLeast 1) ∧
    limited joinedLimited 2 = some (3, some (.minimums (atLeast 1)), ∅) := by
  decide +kernel

end Sample

end SVR2
