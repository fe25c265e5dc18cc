import SVR2.Raft.Refinement

/-!
# Append requests and responses follow the protocol

`HandleAppendRequest` goes through the entries of a message, cancelling and appending as it
goes; its loop keeps that the log agrees with the message on what has been processed.  What
`ValidateReceivedMessage` has seen before is what makes the skipped entries agree.
-/

namespace SVR2

open Lib Relation

variable {Hash : Type} [Platform Hash]

namespace Raft

variable {S : Setting Hash} {G : Rules Hash} {I : PeerId → RaftMessage Hash → Prop}
variable {r : Raft Hash}

/-! ### The Merkle leaves -/

omit [Platform Hash] in
theorem merkleHashChecked_eq (h : r.Inv S) (i : Nat) : r.merkleHashChecked i = true := by
  rw [merkleHashChecked]
  cases he : r.log.at? i with
  | none => rfl
  | some e =>
    have hmem : e ∈ r.log.full := entryAt_mem (h.log_ok.entryAt_of_at? he)
    simpa [Option.isSome_iff_ne_none] using h.log_ok.hash_some e hmem

omit [Platform Hash] in
theorem checkMerkleHashes_eq (h : r.Inv S) : r.checkMerkleHashes = r :=
  check_eq (by rw [merkleHashChecked_eq h, merkleHashChecked_eq h]; rfl)

theorem updateMerkleTree_eq (h : r.Inv S) :
    r.updateMerkleTree = { r with
      commitLeaf := r.merkleHashAt r.commitIdx
      promiseLeaf := r.merkleHashAt r.promiseIdx } := by
  simp only [updateMerkleTree, checkMerkleHashes_eq h]

theorem updateMerkleTree_follows (h : r.Inv S) : Follows S G I r r.updateMerkleTree := by
  rw [updateMerkleTree_eq h]
  exact Follows.of_shown { h with } rfl rfl

theorem verifyMerkleTree_cases (h : r.Inv S) (nodesVerify : Bool) :
    r.verifyMerkleTree nodesVerify = (r, .ok) ∨ ∃ err, err ≠ .ok ∧
      r.verifyMerkleTree nodesVerify = ({ r with merkleErrors := r.merkleErrors + 1 }, err) := by
  simp only [verifyMerkleTree, checkMerkleHashes_eq h]
  split_ifs
  · exact Or.inr ⟨_, by decide, rfl⟩
  · exact Or.inr ⟨_, by decide, rfl⟩
  · exact Or.inl rfl

theorem merkleError_follows (h : r.Inv S) :
    Follows S G I r { r with merkleErrors := r.merkleErrors + 1 } :=
  Follows.of_shown { h with } rfl rfl

/-! ### Validated messages -/

omit [Platform Hash] in
theorem checkLogHash_ok (h : r.Inv S) {i t : Nat} {hash : Option Hash} [DecidableEq Hash]
    {allowFuture : Bool} (hok : r.checkLogHash i t hash allowFuture = .ok) (h0 : i ≠ 0) :
    r.log.oldestStoredIdx ≤ i ∧ (allowFuture = false → i ≤ r.log.full.length) ∧
      ∀ e, entryAt r.log.full i = some e → t = 0 ∨ e.term = t → e.hashChain = hash := by
  rw [checkLogHash, if_neg h0] at hok
  by_cases hold : i < r.log.oldestStored
  · rw [if_pos hold] at hok
    cases hok
  rw [if_neg hold] at hok
  have hle := h.log_ok.oldestStored_le h0 hold
  by_cases hlast : r.log.lastIdx < i
  · -- beyond the end of the log
    rw [if_pos hlast] at hok
    rw [h.lastIdx_eq] at hlast
    refine ⟨hle, fun hno => (by rw [hno] at hok; cases hok), fun e he => ?_⟩
    have := (entryAt_le he).2
    omega
  · rw [if_neg hlast] at hok
    rw [h.lastIdx_eq] at hlast
    refine ⟨hle, fun _ => by omega, fun e he hterm => ?_⟩
    rw [h.log_ok.at?_of_le hle, he] at hok
    simp only at hok
    rw [if_neg (by omega), if_neg (by omega)] at hok
    split_ifs at hok with hne
    exact (not_not.mp hne).symm

/-- The entries of an append request have passed `ValidateReceivedMessage`. -/
def Vetted (log : Log Hash) (m : AppendRequest Hash) : Prop :=
  ∀ i e, m.entries[i]? = some e → log.oldestStoredIdx ≤ m.prevLogIdx + i + 1 ∧
    ∀ e', log.full[m.prevLogIdx + i]? = some e' → e'.term = e.term → e'.hashChain = e.hashChain

omit [Platform Hash] in
theorem checkEntries_ok [DecidableEq Hash] {es : List (LogEntry Hash)} {n : Nat}
    (hok : r.checkEntries n es = .ok) {i : Nat} {e : LogEntry Hash} (he : es[i]? = some e) :
    r.checkLogHash (n + i + 1) e.term e.hashChain true = .ok := by
  induction es generalizing n i with
  | nil => simp at he
  | cons a es ih =>
    rw [checkEntries] at hok
    split at hok
    · rename_i ha
      cases i with
      | zero => cases he; exact ha
      | succ i =>
        have := ih hok he
        rwa [Nat.add_right_comm n 1 i] at this
    · rename_i hne
      exact absurd hok hne

omit [Platform Hash] in
theorem vetted_of_checkEntries [DecidableEq Hash] (h : r.Inv S) {m : AppendRequest Hash}
    (hok : r.checkEntries m.prevLogIdx m.entries = .ok) : Vetted r.log m := by
  intro i e he
  obtain ⟨hold, -, hhash⟩ := checkLogHash_ok h (checkEntries_ok hok he) (by omega)
  refine ⟨hold, fun e' he' hterm => hhash e' ?_ (Or.inr hterm)⟩
  rw [entryAt_succ]
  exact he'

/-! ### The loop over the entries of an append request -/

section AppendRequest

variable {src : PeerId} {t : Nat} {m : AppendRequest Hash} {k : Nat} {e : LogEntry Hash}

/-- The end of the log is cut off where it conflicts with entry `k` of the message, above the
    promised index. -/
theorem cancelFrom_follows (h : r.Inv S) (hrole : r.role = .follower)
    (hin : I src ⟨S.group, r.currentTerm, .appendRequest m⟩) (hagree : Agrees r.log.full m k)
    (he : m.entries[k]? = some e) {e' : LogEntry Hash}
    (he' : r.log.full[m.prevLogIdx + k]? = some e') (hterm : e'.term ≠ e.term)
    (hpromise : r.promiseIdx ≤ m.prevLogIdx + k)
    (hold : r.log.oldestStoredIdx ≤ m.prevLogIdx + k + 1) :
    ∃ log, r.log.cancelFrom (m.prevLogIdx + k + 1) = (log, .ok) ∧
      log.full = r.log.full.take (m.prevLogIdx + k) ∧
      ∃ r', maybeChangeUncommittedMembershipsBasedOnLog { r with log := log } = r' ∧
        Follows S G I r r' ∧ r'.log = log ∧ r'.role = .follower ∧
        r'.currentTerm = r.currentTerm := by
  have happlied := h.applied_le
  have hcommit := h.commit_le
  have hstored := h.stored
  obtain ⟨hok, hlog, hfull, hsame⟩ := Log.cancelFrom_spec h.log_ok hold (by omega)
  rcases hcancel : r.log.cancelFrom (m.prevLogIdx + k + 1) with ⟨log, err⟩
  rw [hcancel] at hok hlog hfull hsame
  cases hok
  simp only [Nat.add_sub_cancel] at hlog hfull hsame
  have hlen : m.prevLogIdx + k ≤ r.log.full.length := hagree.length_le
  have hfullLen : log.full.length = m.prevLogIdx + k := by
    rw [hfull, List.length_take, Nat.min_eq_left hlen]
  have hle : r.commitIdx ≤ log.full.length := by omega
  have heq := maybeChangeUncommittedMemberships_eq (S := S) (r := { r with log := log })
    (L := r.log.full) (c := r.commitIdx) h.uncommitted h.committed h.base_le (le_refl _) hle
    (hfull ▸ List.take_prefix _ _) hlog.lastIdx_eq (fun hl => by rw [hrole] at hl; cases hl)
  have hbase : S.base <+: log.full := by
    rw [hfull]
    exact List.prefix_of_prefix_length_le h.base_start (List.take_prefix _ _)
      (by rw [← hfull]; exact h.base_le.trans hle)
  refine ⟨log, rfl, hfull, _, heq, ?_, rfl, hrole, rfl⟩
  refine Follows.of_silent { h with
    log_ok := hlog
    base_start := hbase
    promise_le := ?_
    stored := ?_
    committed := rfl
    uncommitted := rfl
    voting := fun hne => absurd hrole hne
    followers := fun hl => by rw [hrole] at hl; cases hl
    acked := fun hl => by rw [hrole] at hl; cases hl } rfl ?_ rfl
  · show r.promiseIdx ≤ log.full.length
    omega
  · show log.oldestStoredIdx ≤ max r.lastApplied 1
    omega
  · have hview : (setMemberships { r with log := log } (S.conf (log.full.take r.commitIdx))
        (confsAfter log.full r.commitIdx)).view =
        { r.view with log := r.view.log.take (m.prevLogIdx + k) } :=
      View.ext rfl rfl rfl rfl rfl rfl hfull rfl rfl
    rw [hview]
    exact Move.truncate r.view src m k e e' hrole hin hagree he he' hterm hpromise

theorem logAppend_follows (h : r.Inv S) (hrole : r.role = .follower)
    (hin : I src ⟨S.group, r.currentTerm, .appendRequest m⟩) (hagree : Agrees r.log.full m k)
    (he : m.entries[k]? = some e) (hend : r.log.full.length = m.prevLogIdx + k) {o : Oracle}
    (hnext : some (r.nextHash o e) = e.hashChain) :
    ∃ r' loc err, r.logAppend e = (r', loc, err) ∧ Follows S G I r r' ∧
      r'.role = .follower ∧ r'.currentTerm = r.currentTerm ∧
      r'.log.full = if err = .ok then r.log.full ++ [e] else r.log.full := by
  rcases logAppend_cases h e (fun _ _ hne => absurd hrole hne) with
    ⟨log, err, herr, ht, heq⟩ | ⟨-, r', loc, heq, hinv, happlied, hsend, hcase⟩
  · exact ⟨_, _, err, heq, trim_follows h ht, hrole, rfl, by rw [if_neg herr]; exact ht.full⟩
  · have hview : r'.view = { r.view with log := r.log.full ++ [e] } := by
      rcases hcase with ⟨-, hview⟩ | ⟨mem, -, hview⟩
      · exact hview
      · rw [hview, if_neg (by rw [hrole]; simp)]
    refine ⟨r', loc, .ok, heq, ?_, ?_, ?_, ?_⟩
    · refine Follows.of_silent hinv happlied ?_ hsend
      rw [hview]
      exact Move.extend r.view src m k e hrole hin hagree he hend
        (nextHash_chained h o hnext.symm)
    · exact (congrArg View.role hview).trans hrole
    · exact congrArg View.term hview
    · exact congrArg View.log hview

/-- Where the loop of `HandleAppendRequest` is after `k` entries: the log agrees with them, and
    either ends there or is still the one that the message was validated against. -/
structure Processing (r : Raft Hash) (m : AppendRequest Hash) (k : Nat) : Prop where
  role : r.role = .follower
  agree : Agrees r.log.full m k
  rest : r.log.full.length = m.prevLogIdx + k ∨ Vetted r.log m

omit [Platform Hash] in
/-- An index the loop looks at is stored, or beyond the end. -/
theorem Processing.at?_eq (h : r.Inv S) (hp : Processing r m k) (he : m.entries[k]? = some e) :
    r.log.at? (m.prevLogIdx + k + 1) = r.log.full[m.prevLogIdx + k]? ∧
      r.log.oldestStoredIdx ≤ m.prevLogIdx + k + 1 := by
  have hold : r.log.oldestStoredIdx ≤ m.prevLogIdx + k + 1 := by
    rcases hp.rest with hend | hvet
    · have h1 := h.stored
      have h2 := h.applied_le
      have h3 := h.commit_le_length
      omega
    · exact (hvet k e he).1
  exact ⟨by rw [h.log_ok.at?_of_le hold, entryAt_succ], hold⟩

variable [DecidableEq Hash]

/-- What the loop leaves behind when it ends: a follower of the term whose log agrees with some of
    the entries. -/
def Processed (S : Setting Hash) (G : Rules Hash) (I : PeerId → RaftMessage Hash → Prop) (t : Nat)
    (m : AppendRequest Hash) (r : Raft Hash) (x : Raft Hash × Nat) : Prop :=
  ∃ r' k, x = (r', m.prevLogIdx + k) ∧ Follows S G I r r' ∧ r'.currentTerm = t ∧
    r'.role = .follower ∧ Agrees r'.log.full m k

/-- The entry is appended to a log that ends before it, and the loop goes on. -/
theorem processAppend_follows {o : Oracle} {rest : List (LogEntry Hash)}
    (hin : I src ⟨S.group, t, .appendRequest m⟩) (he : m.entries[k]? = some e)
    (hrest : ∀ r : Raft Hash, r.Inv S → r.currentTerm = t → Processing r m (k + 1) →
      Processed S G I t m r (processEntries o r (m.prevLogIdx + k + 1) rest))
    (h : r.Inv S) (hterm : r.currentTerm = t) (hrole : r.role = .follower)
    (hagree : Agrees r.log.full m k) (hend : r.log.full.length = m.prevLogIdx + k) :
    Processed S G I t m r (r.processAppend o (m.prevLogIdx + k) e rest) := by
  rw [processAppend]
  split_ifs with hnext
  · exact ⟨r, k, rfl, Follows.refl h, hterm, hrole, hagree⟩
  · obtain ⟨r₂, loc, err, heq, hfollows, hrole₂, hterm₂, hfull⟩ :=
      logAppend_follows (G := G) h hrole (hterm ▸ hin) hagree he hend (not_not.mp hnext)
    rw [heq]
    by_cases herr : err = .ok
    · subst herr
      rw [if_pos rfl] at hfull
      have hp : Processing r₂ m (k + 1) :=
        ⟨hrole₂, hfull ▸ hagree.snoc hend he, Or.inl (by rw [hfull]; simp; omega)⟩
      obtain ⟨r', k', hrun, hfollows', hleft⟩ := hrest r₂ hfollows.inv (hterm₂.trans hterm) hp
      exact ⟨r', k', hrun, hfollows.trans hfollows', hleft⟩
    · rw [if_neg herr] at hfull
      refine ⟨r₂, k, ?_, hfollows, hterm₂.trans hterm, hrole₂, hfull ▸ hagree⟩
      cases err <;> first | exact absurd rfl herr | rfl

/-- The loop over what is left of the entries after the first `k`. -/
theorem processEntries_follows (o : Oracle)
    (hin : I src ⟨S.group, t, .appendRequest m⟩) (rest : List (LogEntry Hash)) :
    ∀ (r : Raft Hash) (k : Nat), r.Inv S → r.currentTerm = t → Processing r m k →
      m.entries.drop k = rest →
      Processed S G I t m r (processEntries o r (m.prevLogIdx + k) rest) := by
  induction rest with
  | nil =>
    intro r k h hterm hp _
    exact ⟨r, k, rfl, Follows.refl h, hterm, hp.role, hp.agree⟩
  | cons e rest ih =>
    intro r k h hterm hp hdrop
    subst hterm
    have he : m.entries[k]? = some e := by
      rw [← List.head?_drop, hdrop]
      rfl
    have hdrop' : m.entries.drop (k + 1) = rest := by
      rw [← List.drop_drop, hdrop]
      rfl
    obtain ⟨hat, hold⟩ := hp.at?_eq h he
    have hlen := hp.agree.length_le
    have append {r₁ : Raft Hash} (h₁ : r₁.Inv S) (hterm₁ : r₁.currentTerm = r.currentTerm) :=
      processAppend_follows (o := o) hin he
        (fun r₂ h₂ hterm₂ hp₂ => ih r₂ (k + 1) h₂ hterm₂ hp₂ hdrop') h₁ hterm₁
    rw [processEntries]
    cases he' : r.log.full[m.prevLogIdx + k]? with
    | none =>
      -- the log ends before the entry
      have hend : r.log.full.length = m.prevLogIdx + k := by
        have := List.getElem?_eq_none_iff.mp he'
        omega
      have hterm : r.log.termAt (m.prevLogIdx + k + 1) = 0 := by
        rw [Log.termAt, hat, he']
        rfl
      simp only [hterm, ne_eq, not_true_eq_false, false_and, if_false, h.lastIdx_eq, hend, if_true]
      exact append h rfl hp.role hp.agree hend
    | some e' =>
      have hlt := (List.getElem?_eq_some_iff.mp he').1
      have hterm : r.log.termAt (m.prevLogIdx + k + 1) = e'.term := by
        rw [Log.termAt, hat, he']
        rfl
      have hpos : e'.term ≠ 0 := h.log_ok.term_pos e' (List.mem_of_getElem? he')
      by_cases hsame : e'.term = e.term
      · -- the entry is there already
        have hhash : e'.hashChain = e.hashChain := by
          rcases hp.rest with hend | hvet
          · omega
          · exact (hvet k e he).2 e' he' hsame
        have hvet : Vetted r.log m := hp.rest.resolve_left (by omega)
        have hp' : Processing r m (k + 1) :=
          ⟨hp.role, hp.agree.succ he he' hsame hhash, Or.inr hvet⟩
        have hnot : ¬m.prevLogIdx + k + 1 = r.log.full.length + 1 := by omega
        simp only [hterm, hsame, ne_eq, not_true_eq_false, and_false, false_and, if_false,
          h.lastIdx_eq, hnot]
        exact ih r (k + 1) h rfl hp' hdrop'
      · by_cases hbelow : m.prevLogIdx + k + 1 ≤ r.commitIdx ∨ m.prevLogIdx + k + 1 ≤ r.promiseIdx
        · simp only [hterm, hpos, hsame, hbelow, ne_eq, not_false_eq_true, and_self, if_true]
          exact ⟨r, k, rfl, Follows.refl h, rfl, hp.role, hp.agree⟩
        · obtain ⟨log, hcancel, hfull, r₁, hr₁, hfollows, hlog, hrole₁, hterm₁⟩ :=
            cancelFrom_follows (G := G) h hp.role hin hp.agree he he' hsame (by omega) hold
          have hend : r₁.log.full.length = m.prevLogIdx + k := by
            rw [hlog, hfull, List.length_take]
            omega
          have hagree₁ : Agrees r₁.log.full m k := by
            refine hp.agree.congr ?_
            rw [hlog, hfull, List.take_take, Nat.min_self]
          obtain ⟨r', k', hrun, hfollows', hrest⟩ :=
            append hfollows.inv hterm₁ hrole₁ hagree₁ hend
          simp only [hterm, hpos, hsame, hbelow, ne_eq, not_false_eq_true, and_true, and_false,
            if_false, if_true, hcancel, not_true_eq_false, hr₁, hfollows.inv.lastIdx_eq, hend]
          exact ⟨r', k', hrun, hfollows.trans hfollows', hrest⟩

omit [DecidableEq Hash] in
/-- The reply that acknowledges the first `k` entries of the message. -/
theorem replyProcessed_follows (h : r.Inv S) (hrole : r.role = .follower) (hsrc : src ≠ r.me)
    (hin : I src ⟨S.group, r.currentTerm, .appendRequest m⟩) (hagree : Agrees r.log.full m k) :
    Follows S G I r (r.replyProcessed src (m.prevLogIdx + k)) := by
  refine reply_follows h hsrc ?_
  refine Move.acknowledge r.view src m k _ hrole hin hagree rfl ?_ rfl
  rw [Log.hashAt, h.log_ok.at?_eq]
  split_ifs
  · exact Or.inl rfl
  · exact Or.inr rfl

omit [Platform Hash] [DecidableEq Hash] in
/-- The order in which the two indexes are raised does not matter. -/
theorem raiseCommit_raisePromise (h : r.Inv S) {a b : Nat} (ha : a ≤ r.log.full.length)
    (hb : b ≤ r.log.full.length) :
    (r.raiseCommit a).raisePromise b = (r.raisePromise b).raiseCommit a := by
  have h₁ := h.raisePromise hb
  rw [raisePromise_eq] at h₁ ⊢
  rw [raisePromise_eq, raiseCommit_eq h ha, raiseCommit_eq h₁ ha]
  rfl

omit [DecidableEq Hash] in
/-- The commit and promise indexes of the leader are learnt as far as the log agrees. -/
theorem learn_follows (h : r.Inv S) (hrole : r.role = .follower)
    (hin : I src ⟨S.group, r.currentTerm, .appendRequest m⟩) (hagree : Agrees r.log.full m k)
    (hle : m.leaderCommit ≤ m.leaderPromise) :
    Follows S G I r ((r.raiseCommit (min m.leaderCommit (m.prevLogIdx + k))).raisePromise
      (min m.leaderPromise (m.prevLogIdx + k))) := by
  have hlen := hagree.length_le
  have ha : min m.leaderCommit (m.prevLogIdx + k) ≤ r.log.full.length := by omega
  have hb : min m.leaderPromise (m.prevLogIdx + k) ≤ r.log.full.length := by omega
  have h₁ := h.raisePromise hb
  have heq := raiseCommit_eq h₁ (n := min m.leaderCommit (m.prevLogIdx + k))
    (by rw [raisePromise_eq]; exact ha)
  have h₂ := h₁.raiseCommit (n := min m.leaderCommit (m.prevLogIdx + k))
    (by rw [raisePromise_eq]; simp only; omega)
  rw [raiseCommit_raisePromise h ha hb]
  refine Follows.of_silent h₂ (by rw [heq, raisePromise_eq]; rfl) ?_
    (by rw [heq, raisePromise_eq]; rfl)
  rw [heq, raisePromise_eq]
  exact Move.learn r.view src m k hrole hin hagree hle

omit [DecidableEq Hash] in
theorem finishAppendRequest_follows (h : r.Inv S) (o : Oracle) (hrole : r.role = .follower)
    (hsrc : src ≠ r.me) (hin : I src ⟨S.group, r.currentTerm, .appendRequest m⟩)
    (hagree : Agrees r.log.full m k) (hle : m.leaderCommit ≤ m.leaderPromise) :
    Follows S G I r (r.finishAppendRequest o m src (m.prevLogIdx + k)) := by
  rw [finishAppendRequest]
  split_ifs
  · rcases verifyMerkleTree_cases h (o.nodesVerify 0) with hok | ⟨err, herr, hfail⟩
    · rw [hok]
      have hlearn := learn_follows (G := G) h hrole hin hagree hle
      have hupdate := updateMerkleTree_follows (G := G) (I := I) hlearn.inv
      have hboth := hlearn.trans hupdate
      refine hboth.trans (replyProcessed_follows hupdate.inv ?_ (hboth.view_me ▸ hsrc) ?_ ?_)
      all_goals
        rw [updateMerkleTree_eq hlearn.inv, raisePromise_eq, raiseCommit_eq h
          ((Nat.min_le_right _ _).trans hagree.length_le)]
      · exact hrole
      · exact hin
      · exact hagree
    · rw [hfail]
      cases err <;> first | exact absurd rfl herr | exact merkleError_follows h
  · exact replyProcessed_follows h hrole hsrc hin hagree

omit [DecidableEq Hash] in
theorem followSender_follows (h : r.Inv S) (o : Oracle) (src : PeerId) :
    Follows S G I r (r.followSender o src) := by
  rw [followSender]
  split
  · exact Follows.of_silent (h.follow _ r.currentTerm r.votedFor) rfl
      (Move.stepDown r.view) rfl
  · exact Follows.of_shown { h with } rfl rfl

omit [Platform Hash] [DecidableEq Hash] in
theorem followSender_fields (o : Oracle) (src : PeerId) (hrole : r.role ≠ .leader) :
    (r.followSender o src).role = .follower ∧ (r.followSender o src).currentTerm = r.currentTerm ∧
      (r.followSender o src).log = r.log := by
  rw [followSender]
  cases hr : r.role with
  | leader => exact absurd hr hrole
  | follower => exact ⟨rfl, rfl, rfl⟩
  | candidate => exact ⟨rfl, rfl, rfl⟩

/-- What `HandleAppendRequest` does with a message that was validated: nothing, or it refuses, or it
    processes some entries and finishes. -/
theorem handleAppendRequest_cases (h : r.Inv S) (o : Oracle)
    (hin : I src ⟨S.group, t, .appendRequest m⟩)
    (hprev : m.prevLogIdx ≠ 0 → ∀ e, entryAt r.log.full m.prevLogIdx = some e →
      e.term = m.prevLogTerm → e.hashChain = m.prevLogHashChain) (hvet : Vetted r.log m) :
    r.handleAppendRequest o t m src = r ∨
    (∃ r₁ response, (r₁ = r ∨ r₁ = r.followSender o src) ∧ response.success = false ∧
      r.handleAppendRequest o t m src = r₁.reply src (.appendResponse response)) ∨
    ∃ r₁ k, r₁ = (processEntries o (r.followSender o src) m.prevLogIdx m.entries).1 ∧
      Follows S G I r r₁ ∧ r₁.currentTerm = t ∧ r₁.role = .follower ∧ Agrees r₁.log.full m k ∧
      r.handleAppendRequest o t m src = r₁.finishAppendRequest o m src (m.prevLogIdx + k) := by
  rw [handleAppendRequest]
  by_cases hfuture : r.currentTerm < t
  · rw [if_pos hfuture]
    exact Or.inl rfl
  rw [if_neg hfuture]
  by_cases hleader : t = r.currentTerm ∧ r.role = .leader
  · rw [if_pos hleader]
    exact Or.inl rfl
  rw [if_neg hleader]
  by_cases hterm : t = r.currentTerm
  · subst hterm
    have hrole : r.role ≠ .leader := fun hl => hleader ⟨rfl, hl⟩
    have hfollow := followSender_follows (G := G) (I := I) h o src
    obtain ⟨hrole₁, hterm₁, hlog₁⟩ := followSender_fields o src hrole
    simp only [if_true]
    generalize r.followSender o src = r₁ at hfollow hrole₁ hterm₁ hlog₁ ⊢
    rw [← hlog₁] at hprev hvet ⊢
    rw [← hterm₁] at hin ⊢
    by_cases hok : m.prevLogIdx = 0 ∨ ((r₁.log.at? m.prevLogIdx).isSome ∧
        m.prevLogTerm = r₁.log.termAt m.prevLogIdx)
    · have hagree : Agrees r₁.log.full m 0 := by
        refine ⟨hok.imp_right ?_, Nat.zero_le _, fun i hi => by omega⟩
        rintro ⟨hsome, hprevTerm⟩
        obtain ⟨e, he⟩ := Option.isSome_iff_exists.mp hsome
        have hentry := hfollow.inv.log_ok.entryAt_of_at? he
        have hpt : m.prevLogTerm = e.term := by simpa [Log.termAt, he] using hprevTerm
        have hpos := (entryAt_le hentry).1
        refine ⟨(entryAt_le hentry).2, by simp [termAt, hentry, hpt], ?_⟩
        rw [hashAt, hentry]
        exact hprev (by omega) e hentry hpt.symm
      rw [if_neg (by simp [hok, hrole₁]), check_eq (by simp [hok, hrole₁])]
      obtain ⟨r₂, k', hrun, hprocess, hterm₂, hrole₂, hagree₂⟩ := processEntries_follows (G := G) o
        hin m.entries r₁ 0 hfollow.inv rfl ⟨hrole₁, hagree, Or.inr hvet⟩ List.drop_zero
      rw [Nat.add_zero] at hrun
      rw [hrun]
      exact Or.inr (Or.inr ⟨r₂, k', rfl, hfollow.trans hprocess, hterm₂, hrole₂, hagree₂, rfl⟩)
    · rw [if_pos (Or.inr ⟨rfl, hrole₁, hok⟩)]
      exact Or.inr (Or.inl ⟨r₁, _, Or.inr rfl, rfl, rfl⟩)
  · simp only [hterm, if_false]
    rw [if_pos (Or.inl (by omega))]
    exact Or.inr (Or.inl ⟨r, _, Or.inl rfl, rfl, rfl⟩)

theorem handleAppendRequest_follows (h : r.Inv S) (o : Oracle) (hsrc : src ≠ r.me)
    (hin : I src ⟨S.group, t, .appendRequest m⟩)
    (hprev : m.prevLogIdx ≠ 0 → ∀ e, entryAt r.log.full m.prevLogIdx = some e →
      e.term = m.prevLogTerm → e.hashChain = m.prevLogHashChain)
    (hle : m.leaderCommit ≤ m.leaderPromise) (hvet : Vetted r.log m) :
    Follows S G I r (r.handleAppendRequest o t m src) := by
  rcases handleAppendRequest_cases (G := G) h o hin hprev hvet with
    heq | ⟨r₁, response, hr₁, hfail, heq⟩ | ⟨r₁, k, -, hfollows, rfl, hrole, hagree, heq⟩
  · rw [heq]
    exact Follows.refl h
  · have hfollows : Follows S G I r r₁ := by
      rcases hr₁ with rfl | rfl
      · exact Follows.refl h
      · exact followSender_follows h o src
    rw [heq]
    exact hfollows.trans (reply_follows hfollows.inv (hfollows.view_me ▸ hsrc)
      (Move.other _ (some src) _ hfail))
  · rw [heq]
    exact hfollows.trans (finishAppendRequest_follows hfollows.inv o hrole
      (hfollows.view_me ▸ hsrc) hin hagree hle)

end AppendRequest

/-! ### Append responses -/

theorem countAck_follows (h : r.Inv S) (hrole : r.role = .leader) {src : PeerId}
    {m : AppendResponse Hash} {s : ReplicationState} (hs : r.leader.followers.find? src = some s)
    (hin : I src ⟨S.group, r.currentTerm, .appendResponse m⟩) (hsuccess : m.success = true)
    (hmatch : m.matchIdx = 0 ∨
      (m.matchIdx ≤ r.log.full.length ∧ hashAt r.log.full m.matchIdx = m.matchHashChain))
    (hpromise : m.promiseIdx ≤ m.matchIdx) {f : ReplicationState → ReplicationState}
    (hf : (f s).ack = (max s.matchIdx m.matchIdx, max s.promiseIdx m.promiseIdx)) :
    Follows S G I r (r.modifyFollower src f) := by
  have heq : r.modifyFollower src f =
      r.setFollowers (r.leader.followers.insert src (f s)) := by
    rw [modifyFollower, hs]
  have hview : (r.modifyFollower src f).view =
      r.view.count src (max s.matchIdx m.matchIdx, max s.promiseIdx m.promiseIdx) := by
    rw [heq]
    refine View.ext rfl rfl rfl rfl rfl (funext fun p => ?_) rfl rfl rfl
    show Option.map _ ((r.leader.followers.insert src (f s)).find? p) = _
    rw [OrdMap.find?_insert]
    by_cases hp : src = p
    · subst hp
      simp [View.count, hf]
    · rw [if_neg hp]
      simp [View.count, view, Function.update_of_ne (Ne.symm hp)]
  have hack := h.acked hrole src s hs
  have hmatchIdx : (f s).matchIdx = max s.matchIdx m.matchIdx := congrArg Prod.fst hf
  have hpromiseIdx : (f s).promiseIdx = max s.promiseIdx m.promiseIdx := congrArg Prod.snd hf
  have hinv : (r.modifyFollower src f).Inv S := by
    rw [heq]
    refine { h with followers := ?_, acked := ?_ }
    · intro _ p
      refine Iff.trans ?_ (h.followers hrole p)
      show p ∈ r.leader.followers.insert src (f s) ↔ _
      rw [OrdMap.mem_insert]
      refine or_iff_right_of_imp ?_
      rintro rfl
      exact OrdMap.mem_iff.mpr ⟨s, hs⟩
    · intro _ p x hx
      have hx : (r.leader.followers.insert src (f s)).find? p = some x := hx
      show x.promiseIdx ≤ x.matchIdx ∧ x.matchIdx ≤ r.log.full.length
      rw [OrdMap.find?_insert] at hx
      split_ifs at hx with hp
      · cases hx
        omega
      · exact h.acked hrole p x hx
  refine Follows.of_silent hinv (by rw [heq]; rfl) ?_ (by rw [heq]; rfl)
  rw [hview]
  exact Move.countAck r.view src m s.ack hrole hin hsuccess (by simp [view, hs]) hmatch

theorem handleAppendResponse_follows [DecidableEq Hash] (h : r.Inv S) {src : PeerId} {t : Nat}
    {m : AppendResponse Hash} (hin : I src ⟨S.group, t, .appendResponse m⟩)
    (hmatch : m.matchIdx = 0 ∨ (r.log.oldestStoredIdx ≤ m.matchIdx ∧
      m.matchIdx ≤ r.log.full.length ∧ hashAt r.log.full m.matchIdx = m.matchHashChain))
    (hpromise : m.success = true → m.promiseIdx ≤ m.matchIdx) :
    Follows S G I r (r.handleAppendResponse t m src) := by
  rw [handleAppendResponse]
  by_cases hterm : t = r.currentTerm
  swap
  · rw [if_pos hterm]
    exact Follows.refl h
  by_cases hrole : r.role = .leader
  swap
  · rw [if_neg (not_not.mpr hterm), if_pos hrole]
    exact Follows.refl h
  cases hs : r.leader.followers.find? src with
  | none =>
    rw [if_neg (not_not.mpr hterm), if_neg (not_not.mpr hrole),
      if_pos (OrdMap.not_mem_iff.mpr hs)]
    exact Follows.refl h
  | some s =>
    rw [if_neg (not_not.mpr hterm), if_neg (not_not.mpr hrole),
      if_neg (not_not.mpr (OrdMap.mem_iff.mpr ⟨s, hs⟩))]
    subst hterm
    split_ifs with hsuccess
    · show Follows S G I r ((r.check _).modifyFollower src _)
      rw [check_eq]
      · exact countAck_follows h hrole hs hin hsuccess (hmatch.imp_right And.right)
          (hpromise hsuccess) rfl
      · -- the `CHECK` repeats what the message was validated for
        rcases hmatch with h0 | ⟨hold, hle, hhash⟩
        · have h1 := h.log_ok.oldest
          rw [h.log_ok.at?_eq, if_pos (by omega), h0]
          simp
        · rw [h.log_ok.at?_of_le hold, h.lastIdx_eq]
          cases he : entryAt r.log.full m.matchIdx with
          | none => simpa using hle
          | some e =>
            rw [hashAt, he] at hhash
            simpa using hhash.symm
    · exact modifyFollower_follows h src fun _ => rfl

end Raft

end SVR2
