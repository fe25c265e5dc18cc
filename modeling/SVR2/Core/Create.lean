import SVR2.Core.Replies

/-!
# Creating a group

`HandleCreateNewRaftGroupRequest` reports an error where it cannot create a group, and then creates
the group all the same: the current replica and its database are replaced, and a second response
says that the request has succeeded.
-/

namespace SVR2

variable {Hash DB : Type} [Database DB]

namespace Core

/-- If the request is answered with an error, then the replica, its database and what it has applied
    are as they were, and the request is not answered with success. -/
def FailsCleanly (tx : TransactionID) (c c' : Core Hash DB) : Prop :=
  (∃ err, err ≠ .ok ∧ HostResponse.status err ∈ c'.repliesTo tx) →
    c'.raft.state = c.raft.state ∧ c'.raft.loaded = c.raft.loaded ∧
      HostResponse.status .ok ∉ c'.repliesTo tx

theorem repliesTo_replyWithError (c : Core Hash DB) (tx : TransactionID) (err : Error) :
    (c.replyWithError tx err).repliesTo tx =
      if c.aborted then c.repliesTo tx else c.repliesTo tx ++ [.status err] := by
  dsimp only [repliesTo, replyWithError, send]
  split_ifs <;> simp

variable [DecidableEq Hash] [Platform Hash] [PushSize Hash] (c : Core Hash DB) (o : CoreOracle)
  {tx : TransactionID}

theorem receive_create (htx : tx ≠ 0) :
    (c.receive o (.h2eRequest tx .createNewRaftGroup)).1 =
      handleCreateNewRaftGroupRequest { c with out := [], calls := [], promotions := [], answers := [] }
        o tx := by
  change (handleHostToEnclave _ o tx .createNewRaftGroup).1 = _
  rw [handleHostToEnclave.eq_def, if_neg htx]

/-- Without an error to report, the request is answered with success alone. -/
theorem repliesTo_create (htx : tx ≠ 0) (hstate : c.raft.state = .noState)
    (hrandom : o.randomBytesErr = .ok) (hfree : c.NotJoining tx) (howed : c.owed tx = 0) :
    ∀ resp ∈ (c.receive o (.h2eRequest tx .createNewRaftGroup)).1.repliesTo tx,
      resp = .status .ok := by
  let c₀ := { c with out := [], calls := [], promotions := [], answers := [] }
  have hcreate : (c.receive o (.h2eRequest tx .createNewRaftGroup)).1 =
      ((c₀.created o).raftStep o).replyWithError tx .ok := by
    rw [c.receive_create o htx, handleCreateNewRaftGroupRequest,
      if_neg (not_not.mpr hstate), if_neg (not_not.mpr hrandom)]
  have hsettles : Settles tx 0 c₀ ((c₀.created o).raftStep o) :=
    (settles_raftStep _ o).after (settles_created c₀ o)
  obtain ⟨_, hle⟩ := hsettles.holds ⟨hfree.waiting, hfree.loading, hfree.calls, hfree.timeouts⟩
  have hbalance : c₀.balance tx = 0 := howed
  have hnil : ((c₀.created o).raftStep o).repliesTo tx = [] := by
    refine List.length_eq_zero_iff.mp ?_
    rw [balance] at hle
    omega
  intro resp hresp
  rw [hcreate, repliesTo_replyWithError, hnil] at hresp
  split_ifs at hresp <;> simp_all

/-- From `c` to `c'` nothing that was sent is taken back, and an enclave that has ended stays so. -/
structure Extends (c c' : Core Hash DB) : Prop where
  aborted : c.aborted = true → c'.aborted = true
  out : c.out <+: c'.out

omit [DecidableEq Hash] [Platform Hash] [PushSize Hash] in
theorem Extends.trans {a b c : Core Hash DB} (hab : Extends a b) (hbc : Extends b c) : Extends a c :=
  ⟨fun h => hbc.aborted (hab.aborted h), hab.out.trans hbc.out⟩

omit [DecidableEq Hash] [Platform Hash] [PushSize Hash] in
theorem extends_of_sends {P : PeerId → E2EMessage Hash → Prop} {c c' : Core Hash DB}
    (h : Sends P c c') : Extends c c' := by
  obtain ⟨ms, hms, -⟩ := h.out
  exact ⟨h.aborted, ms, hms.symm⟩

omit [DecidableEq Hash] [Platform Hash] [PushSize Hash] in
theorem extends_of_keeps {c c' : Core Hash DB} (h : Keeps c c') : Extends c c' := by
  obtain ⟨ms, hms, -⟩ := h.out
  exact ⟨h.aborted, ms, hms.symm⟩

omit [Platform Hash] [PushSize Hash] in
theorem extends_raftHandleCommittedLogsLoop (n : Nat) :
    Extends c (raftHandleCommittedLogsLoop o n c) := by
  induction n generalizing c with
  | zero => exact ⟨id, List.prefix_rfl⟩
  | succ n ih =>
    rw [raftHandleCommittedLogsLoop]
    split
    · exact extends_of_sends c.calm_abort.toSends
    · rename_i r _
      dsimp only
      split_ifs
      · exact ⟨id, List.prefix_rfl⟩
      · have hcalled : ∀ r', Extends c ((c.called (.takeCommittedLog r) r').updateLastAppliedLog
            r.takeCommittedLog.2.1) :=
          fun r' => ⟨fun h => by simp [called, updateLastAppliedLog, setRaft, h], List.prefix_rfl⟩
        exact ((hcalled _).trans (extends_of_keeps (keeps_raftHandleCommittedLog _ o _ _))).trans (ih _)

omit [Platform Hash] [PushSize Hash] in
theorem extends_raftStep : Extends c (c.raftStep o) := by
  have hsend : ∀ c : Core Hash DB, Extends c c.raftSendMessages := by
    intro c
    cases hr : c.raft.loaded.raft with
    | none =>
      rw [raftSendMessages, hr]
      exact extends_of_sends c.calm_abort.toSends
    | some r =>
      have hset : Extends c (c.setRaft { r with sendableMessages := [] }) :=
        ⟨fun h => by simp [setRaft, h], List.prefix_rfl⟩
      exact hset.trans (extends_of_sends (c.calm_raftSendMessages hr).toSends)
  have hlogs : ∀ c : Core Hash DB, Extends c (c.raftHandleCommittedLogs o) := by
    intro c
    rw [raftHandleCommittedLogs]
    split
    · exact extends_of_sends c.calm_abort.toSends
    · exact c.extends_raftHandleCommittedLogsLoop o _
  rw [raftStep]
  exact ((extends_of_sends (c.calm_check _).toSends).trans (hsend _)).trans (hlogs _)

omit [PushSize Hash] in
/-- An error that is reported first is followed by success. -/
theorem repliesTo_create_error {err : Error}
    (hreturns : (((c.replyWithError tx err).created o).raftStep o).aborted = false) :
    let c' := (((c.replyWithError tx err).created o).raftStep o).replyWithError tx .ok
    .status err ∈ c'.repliesTo tx ∧ .status .ok ∈ c'.repliesTo tx := by
  have hextends := ((c.replyWithError tx err).created o).extends_raftStep o
  have halive : c.aborted = false := by
    by_contra habort
    have hcreated : ((c.replyWithError tx err).created o).aborted = true :=
      (Bool.or_eq_true _ _).mpr (.inl (eq_true_of_ne_false habort))
    exact Bool.false_ne_true (hreturns.symm.trans (hextends.aborted hcreated))
  have herr : .status err ∈ (c.replyWithError tx err).repliesTo tx := by
    rw [repliesTo_replyWithError, halive]
    simp
  have hkept : .status err ∈ (((c.replyWithError tx err).created o).raftStep o).repliesTo tx :=
    (hextends.out.filterMap _).subset herr
  intro c'
  rw [repliesTo_replyWithError, hreturns]
  simp [hkept]

/-- A request to create a group that is under an id that is not in use and does not end the enclave
    fails cleanly exactly where there is nothing to fail with: the core has no group yet and the random
    bytes are drawn, or the id is the one that gets no response. -/
theorem create_fails_cleanly (hfree : c.NotJoining tx) (howed : c.owed tx = 0)
    (hreturns : (c.receive o (.h2eRequest tx .createNewRaftGroup)).1.aborted = false) :
    FailsCleanly tx c (c.receive o (.h2eRequest tx .createNewRaftGroup)).1 ↔
      tx = 0 ∨ c.raft.state = .noState ∧ o.randomBytesErr = .ok := by
  constructor
  · intro hclean
    by_contra hne
    obtain ⟨htx, hfails⟩ := not_or.mp hne
    have herror : ∃ (c₁ : Core Hash DB) (err : Error), err ≠ .ok ∧
        (c.receive o (.h2eRequest tx .createNewRaftGroup)).1 =
          (((c₁.replyWithError tx err).created o).raftStep o).replyWithError tx .ok := by
      rw [c.receive_create o htx, handleCreateNewRaftGroupRequest]
      by_cases hrandom : o.randomBytesErr = .ok
      · have hstate : c.raft.state ≠ .noState := fun hstate => hfails ⟨hstate, hrandom⟩
        rw [if_neg (not_not.mpr hrandom), if_pos hstate]
        exact ⟨_, .coreRaftState, by decide, rfl⟩
      · rw [if_pos hrandom]
        exact ⟨_, _, hrandom, rfl⟩
    obtain ⟨c₁, err, herr, heq⟩ := herror
    rw [heq] at hclean hreturns
    obtain ⟨hfirst, hsecond⟩ := c₁.repliesTo_create_error o hreturns
    exact (hclean ⟨err, herr, hfirst⟩).2.2 hsecond
  · rintro hcond ⟨err, herr, hmem⟩
    by_cases htx : tx = 0
    · have hout : (c.receive o (.h2eRequest tx .createNewRaftGroup)).1.out = [] := by
        rw [htx]
        rfl
      rw [repliesTo, hout] at hmem
      simp at hmem
    · obtain ⟨hstate, hrandom⟩ := hcond.resolve_left htx
      have hok := c.repliesTo_create o htx hstate hrandom hfree howed _ hmem
      exact absurd (HostResponse.status.inj hok) herr

end Core

namespace Sample

def created : Core IdealHash DB2 :=
  ((core 1).receive (coreOracle 1) (.h2eRequest 1 .createNewRaftGroup)).1

def createdAgain : Core IdealHash DB2 :=
  (created.receive (coreOracle 2) (.h2eRequest 2 .createNewRaftGroup)).1

theorem create_fails_cleanly_core : Core.FailsCleanly 1 (core 1) created := by
  obtain ⟨hfree, howed⟩ :=
    (core 1).create_owed (coreOracle 0) (create_core 1) (by decide : (1 : TransactionID) ≠ 0)
  exact ((core 1).create_fails_cleanly (coreOracle 1) hfree howed (by decide +kernel)).mpr
    (.inr ⟨rfl, rfl⟩)

/-- Creating a group again is answered with an error and with success, and replaces the replica; so
    does creating a group without random bytes. -/
theorem create_does_not_fail_cleanly :
    ¬Core.FailsCleanly 2 created createdAgain ∧
      created.raft.loaded.raft.map (·.group) = some 1 ∧
      createdAgain.raft.loaded.raft.map (·.group) = some 2 ∧
      ¬Core.FailsCleanly 1 (core 1)
        ((core 1).receive { coreOracle 1 with randomBytesErr := .envRandomBytes }
          (.h2eRequest 1 .createNewRaftGroup)).1 := by
  refine ⟨?_, by decide +kernel, by decide +kernel, ?_⟩
  · intro h
    have hreplies : createdAgain.repliesTo 2 = [.status .coreRaftState, .status .ok] := rfl
    refine (h ⟨.coreRaftState, by decide, ?_⟩).2.2 ?_ <;> simp [hreplies]
  · intro h
    have hreplies : ((core 1).receive { coreOracle 1 with randomBytesErr := .envRandomBytes }
        (.h2eRequest 1 .createNewRaftGroup)).1.repliesTo 1 =
        [.status .envRandomBytes, .status .ok] := rfl
    refine (h ⟨.envRandomBytes, by decide, ?_⟩).2.2 ?_ <;> simp [hreplies]

end Sample

end SVR2
