import SVR2.Raft.Merkle
import SVR2.Raft.Safety

/-!
# Safety of each replica

In every run without resets, whatever its events, a replica's indexes are in order and only grow,
promised entries stay until they are applied, the Merkle leaves are found as they should be, and no
`CHECK` fails.
-/

namespace SVR2

open Lib World

variable {Hash : Type} [DecidableEq Hash] [Platform Hash]
variable {S : Setting Hash} {s : Sys Hash} {w : World Hash} {p : PeerId} {r r' : Raft Hash}

/-- Nobody tampers with the Merkle tree during the event. -/
def Event.Untampered : Event Hash → Prop
  | .timerTick _ o | .logRequest _ _ o | .relinquishLeadership _ o | .deliver _ o
  | .join _ _ _ _ _ o => o.Untampered
  | _ => True

/-- Nobody tampers with the Merkle tree while the group starts. -/
def RaftGroup.Untampered (g : RaftGroup Hash) : Prop := ∀ p, (g.oracle p).Untampered

theorem obeys_any {e : Event Hash} (hreset : e.ResetsOnly ∅) :
    Obeys S (Rules.any Hash) (∅ : Finset PeerId) s e where
  rollback := by
    rintro p k rfl
    exact hreset
  join := fun _ _ _ _ _ _ _ => trivial
  change := fun _ _ _ _ _ _ _ _ _ _ => trivial
  permitted := fun r o _ => r.permitted_any o

/-! ### Merkle leaves along a run -/

/-- All replicas have the leaves that they should have. -/
def Sys.Sealed (s : Sys Hash) : Prop := ∀ p r, s.replicas p = some r → r.Sealed

omit [DecidableEq Hash] in
theorem Sys.Sealed.settle (hs : s.Sealed) (hr : r.Sealed) : (s.settle p r).Sealed := by
  intro q x hx
  rw [Sys.settle] at hx
  split_ifs at hx
  all_goals
    by_cases hq : q = p
    · subst hq
      simp only [Function.update_self] at hx
      cases hx <;> exact hr.congr rfl rfl
    · simp only [Function.update_of_ne hq] at hx
      exact hs q x hx

omit [DecidableEq Hash] in
theorem Sys.Sealed.call (hs : s.Sealed) {f : Raft Hash → Raft Hash}
    (hf : ∀ r, s.replicas p = some r → r.Sealed → (f r).Sealed) : (s.call p f).Sealed := by
  rw [Sys.call]
  split
  · exact hs
  · rename_i r hr
    exact hs.settle (hf r hr (hs p r hr))

theorem Sys.Sealed.apply (hs : s.Sealed) (hsim : Sim S s w)
    (hw : Reachable S (Rules.any Hash) (∅ : Finset PeerId) w) {e : Event Hash}
    (hreset : e.ResetsOnly ∅) (ho : e.Untampered) : (s.apply e).Sealed := by
  have inv : ∀ {p r}, s.replicas p = some r → r.Inv S ∧ r.me = p := by
    intro p r hr
    obtain ⟨hinv, hme, -⟩ := hsim.history p r (hsim.replica p r hr).1
    exact ⟨hinv, hme⟩
  cases e with
  | timerTick p o => exact hs.call fun r hr hsr => hsr.timerTick (inv hr).1 ho
  | logRequest p x o => exact hs.call fun r hr hsr => hsr.logRequest (inv hr).1 ho x
  | relinquishLeadership p o =>
    exact hs.call fun r hr hsr => hsr.relinquishLeadership (inv hr).1 ho
  | resetPeer p id =>
    simp only [Sys.apply]
    split_ifs with hid
    · exact hs
    · refine hs.call fun r hr hsr => hsr.resetPeer (inv hr).1 ?_
      rw [(inv hr).2]
      exact hid
  | reconfigure p config => exact hs.call fun r hr hsr => hsr.congr rfl rfl
  | takeCommittedLog p => exact hs.call fun r hr hsr => hsr.takeCommittedLog
  | deliver k o =>
    simp only [Sys.apply]
    cases hpkt : s.net[k]? with
    | none => exact hs
    | some pkt =>
      obtain ⟨hin, hne⟩ := hsim.net pkt (List.mem_of_getElem? hpkt)
      refine hs.call fun r hr hsr => hsr.receive (inv hr).1 ho ?_ hin (hw.promiseIdx_le hin)
      rw [(inv hr).2]
      exact hne
  | rollback p k => cases hreset
  | join p q k maxBytes config o =>
    simp only [Sys.apply]
    split_ifs
    · exact hs
    · cases hm : (s.history q)[k]? with
      | none => exact hs
      | some m =>
        apply hs.settle
        obtain ⟨hinv, -⟩ := hsim.history q m (List.mem_of_getElem? hm)
        obtain ⟨hok, -, hbase, hmem⟩ := hinv.copyTo maxBytes
        rw [hinv.group, hinv.super_majority]
        exact Raft.sealed_new (Raft.newFollower_spec p config o hok hbase hmem).1 ho

theorem Sys.Sealed.run (hs : s.Sealed) (hsim : Sim S s w)
    (hw : Reachable S (Rules.any Hash) (∅ : Finset PeerId) w) {es : List (Event Hash)}
    (hes : ∀ e ∈ es, e.ResetsOnly ∅ ∧ e.Untampered) : (s.run es).Sealed := by
  induction es generalizing s w with
  | nil => exact hs
  | cons e es ih =>
    obtain ⟨hreset, ho⟩ := hes e (List.mem_cons_self ..)
    obtain ⟨w', hw', -, hsim'⟩ := hsim.apply hw (obeys_any hreset)
    exact ih (hs.apply hsim hw hreset ho) hsim' hw' fun x hx => hes x (List.mem_cons_of_mem e hx)

omit [DecidableEq Hash] in
theorem RaftGroup.sealed_start {g : RaftGroup Hash} (hg : g.Untampered) : g.start.Sealed := by
  intro p r hr
  have hr : (if p ∈ g.membership.allReplicas ∧ (g.newReplica p).aborted = false
    then some { g.newReplica p with sendableMessages := [] } else none) = some r := hr
  split_ifs at hr
  cases hr
  exact (Raft.sealed_new (g.newFollower_spec p).1 (hg p)).congr rfl rfl

/-! ### What holds of every replica -/

/-- The indexes of a replica are in order, all that it has promised and may still have to apply is
    stored, and no `CHECK` has failed. -/
structure Raft.Consistent (r : Raft Hash) : Prop where
  applied_le : r.lastApplied ≤ r.commitIdx
  commit_le : r.commitIdx ≤ r.promiseIdx
  promise_le : r.promiseIdx ≤ r.log.lastIdx
  stored : ∀ i, max r.lastApplied 1 ≤ i → i ≤ r.promiseIdx → (r.log.at? i).isSome
  checked : r.aborted = false

/-- From `r` to `r'` terms and indexes only grow, and a promised entry is there as it was, unless it
    was given up after it was applied. -/
structure Raft.Advances (r r' : Raft Hash) : Prop where
  term_le : r.currentTerm ≤ r'.currentTerm
  commit_le : r.commitIdx ≤ r'.commitIdx
  promise_le : r.promiseIdx ≤ r'.promiseIdx
  kept : ∀ i e, i ≤ r.promiseIdx → r.log.at? i = some e →
    r'.log.at? i = some e ∨ (i < r'.log.oldestStoredIdx ∧ i < r'.lastApplied)

omit [DecidableEq Hash] [Platform Hash] in
theorem Raft.Inv.consistent (h : r.Inv S) : r.Consistent where
  applied_le := h.applied_le
  commit_le := h.commit_le
  promise_le := h.lastIdx_eq ▸ h.promise_le
  stored := by
    intro i hi hle
    rw [h.at?_eq ((le_max_left _ _).trans hi), Option.isSome_iff_exists]
    exact entryAt_isSome ((le_max_right _ _).trans hi) (hle.trans h.promise_le)
  checked := h.not_aborted

omit [DecidableEq Hash] in
theorem Raft.Inv.advances (h : r.Inv S) (h' : r'.Inv S) {G : Rules Hash}
    (hlead : Leads S G r.view r'.view) : r.Advances r' where
  term_le := hlead.term_le
  commit_le := hlead.commit_le
  promise_le := hlead.promised_mono.1
  kept := by
    intro i e hi he
    have hentry := h.log_ok.entryAt_of_at? he
    have hpre : r.log.full.take r.promiseIdx <+: r'.log.full :=
      hlead.promised_mono.2.trans (List.take_prefix _ _)
    have htake := List.prefix_iff_eq_take.mp hpre
    rw [List.length_take, Nat.min_eq_left h.promise_le] at htake
    have hentry' : entryAt r'.log.full i = some e := (entryAt_congr htake.symm hi).trans hentry
    by_cases hstored : r'.log.oldestStoredIdx ≤ i
    · exact Or.inl ((h'.log_ok.at?_of_le hstored).trans hentry')
    · have h1 := h'.stored
      have h2 := (entryAt_le hentry).1
      exact Or.inr ⟨by omega, by omega⟩

/-- A replica that runs at some point of a run without resets runs on, in good order, and has only
    advanced; if nobody tampers with the Merkle tree, `VerifyMerkleTree` has not failed and does not
    fail. -/
theorem replica_stays_safe (g : RaftGroup Hash) (es : List (Event Hash))
    (hes : ∀ e ∈ es, e.ResetsOnly ∅) (m n : Nat) (hmn : m ≤ n) (p : PeerId) (r : Raft Hash)
    (hr : (g.start.run (es.take m)).replicas p = some r) :
    ∃ r', (g.start.run (es.take n)).replicas p = some r' ∧ r'.Consistent ∧ r.Advances r' ∧
      (g.Untampered → (∀ e ∈ es, e.Untampered) →
        r'.merkleErrors = 0 ∧ (r'.verifyMerkleTree true).2 = .ok) := by
  have hes' : ∀ e ∈ es.take n, e.ResetsOnly ∅ := fun e he => hes e (List.mem_of_mem_take he)
  obtain ⟨w₀, hw₀, hsim₀⟩ := g.sim_start (R := (∅ : Finset PeerId)) fun _ _ => Raft.permitted_any _ _
  obtain ⟨w, hw, hsim, hhist⟩ := g.exists_sim (R := (∅ : Finset PeerId))
    (fun _ _ => Raft.permitted_any _ _)
    (Sys.AllEvents.of_forall (fun e he s => obeys_any (hes' e he)) _)
  have hmem := hhist m p r (by rwa [List.take_take, Nat.min_eq_left hmn])
  obtain ⟨hinv, -, -, hpast⟩ := hsim.history p r hmem
  obtain ⟨r', hr'⟩ := hsim.alive p (List.ne_nil_of_mem hmem)
  obtain ⟨hinv', -⟩ := hsim.history p r' (hsim.replica p r' hr').1
  obtain ⟨v, hv, hlead⟩ := hw.leads_view (by simp) hpast
  rw [(hsim.replica p r' hr').2] at hv
  cases hv
  refine ⟨r', hr', hinv'.consistent, hinv.advances hinv' hlead, ?_⟩
  intro hg ho
  have hs : r'.Sealed := (RaftGroup.sealed_start hg).run hsim₀ hw₀
    (fun e he => ⟨hes' e he, ho e (List.mem_of_mem_take he)⟩) p r' hr'
  exact ⟨hs.errors, by rw [hs.verifyMerkleTree_eq hinv']⟩

open Sample in
theorem replica_stays_safe_handOver : ∃ r r',
    ((group 0 [1, 2, 3]).start.run (handOver.take 4)).replicas 1 = some r ∧
    ((group 0 [1, 2, 3]).start.run (handOver.take 11)).replicas 1 = some r' ∧ r'.Consistent ∧
    r.Advances r' ∧ r'.merkleErrors = 0 ∧ (r'.verifyMerkleTree true).2 = .ok := by
  obtain ⟨r, hr⟩ : ∃ r, ((group 0 [1, 2, 3]).start.run (handOver.take 4)).replicas 1 = some r :=
    Option.isSome_iff_exists.mp (by decide +kernel)
  obtain ⟨r', hr', hconsistent, hadvances, hmerkle⟩ := replica_stays_safe (group 0 [1, 2, 3])
    handOver (fun e he => (handOver_ok e he).2) 4 11 (by decide) 1 r hr
  refine ⟨r, r', hr, hr', hconsistent, hadvances, hmerkle (fun _ _ => rfl) ?_⟩
  simp [handOver, tick, deliver, Event.Untampered, Oracle.Untampered, oracle]

end SVR2
