import Mathlib.Data.List.Nodup
import Mathlib.Data.List.Range
import SVR2.Core.State
import SVR2.Lib.Runs

/-!
# Transactions on several threads

`SendE2ETransaction`, the response case of `HandleE2E`, `ResetPeer` and the timeout of a transaction
hold `e2e_txn_mu_` while they work on the table of outstanding transactions, and release it before
they call a callback.  Each such section is one action here, and the actions of different threads
come in any order.  What a callback does, be it to start further transactions, is further actions.
-/

namespace SVR2

variable {Hash : Type}

structure Completion (Hash : Type) where
  tx : TransactionID
  callback : E2ECallback Hash
  err : Error
  resp : Option (TransactionResponse Hash)
deriving DecidableEq

/-- The table and the timeouts.  `due` are the timeouts that `TimerTick` has taken and that are
    still to run, and `taken` the callbacks that were taken from the table and are still to be
    called.  `called` is not in the source: the calls so far. -/
structure TransactionTable (Hash : Type) where
  e2eTxnId : TransactionID := 0
  outstanding : List (TransactionID × E2ECall Hash) := []
  timeout : Timeout TimeoutFn := {}
  due : List TimeoutFn := []
  taken : List (Completion Hash) := []
  called : List (Completion Hash) := []

/-- What a thread does next.  A `send` comes with the result of `SendToPeer`, and with the ticks of
    the configuration if it has a timeout; `setTimeout` and `cancelTimeout` are those of the rest of
    the core. -/
inductive TransactionAction (Hash : Type) where
  | send (dst : PeerId) (callback : E2ECallback Hash) (err : Error) (timeoutTicks : Option Nat)
  | response (id : TransactionID) (resp : TransactionResponse Hash)
  | resetPeer (id : PeerId)
  | timerTick
  | runTimeout (k : Nat)
  | callBack (k : Nat)
  | setTimeout (ticksFromNow : Nat) (fn : TimeoutFn)
  | cancelTimeout (tc : Cancel)

namespace TransactionTable

def setTxnTimeout (timeout : Timeout TimeoutFn) (tx : TransactionID) :
    Option Nat → Timeout TimeoutFn × Cancel
  | some ticks => timeout.setTimeout ticks (.e2eTransaction tx)
  | none => (timeout, {})

def sendE2ETransaction (s : TransactionTable Hash) (dst : PeerId) (callback : E2ECallback Hash)
    (err : Error) (timeoutTicks : Option Nat) : TransactionTable Hash :=
  let tx := s.e2eTxnId + 1
  if err ≠ .ok then { s with e2eTxnId := tx, taken := s.taken ++ [⟨tx, callback, err, none⟩] }
  else
    let (timeout, tc) := setTxnTimeout s.timeout tx timeoutTicks
    { s with
      e2eTxnId := tx
      timeout := timeout
      outstanding := s.outstanding ++ [(tx, ⟨callback, tc, dst⟩)] }

def take (s : TransactionTable Hash) (id : TransactionID) (call : E2ECall Hash) (err : Error)
    (resp : Option (TransactionResponse Hash)) : TransactionTable Hash :=
  { s with
    outstanding := s.outstanding.filter fun t => t.1 ≠ id
    taken := s.taken ++ [⟨id, call.callback, err, resp⟩] }

def handleE2EResponse (s : TransactionTable Hash) (id : TransactionID)
    (resp : TransactionResponse Hash) : TransactionTable Hash :=
  match s.outstanding.find? fun t => t.1 = id with
  | none => s
  | some t =>
    { s.take id t.2 resp.statusOf (some resp) with
      timeout := s.timeout.cancelTimeout t.2.timeoutCancel }

/-- The function that `SendE2ETransaction` passes to `SetTimeout`. -/
def timeoutFn (s : TransactionTable Hash) (tx : TransactionID) : TransactionTable Hash :=
  match s.outstanding.find? fun t => t.1 = tx with
  | none => s
  | some t => s.take tx t.2 .coreE2ETransactionTimeout none

def resetPeer (s : TransactionTable Hash) (id : PeerId) : TransactionTable Hash :=
  let txnsToCancel := s.outstanding.filter fun t => t.2.dst = id
  { s with
    outstanding := s.outstanding.filter fun t => t.2.dst ≠ id
    timeout :=
      txnsToCancel.foldl (fun timeout t => timeout.cancelTimeout t.2.timeoutCancel) s.timeout
    taken := s.taken ++ txnsToCancel.map fun t =>
      ⟨t.1, t.2.callback, .coreE2ETransactionReset, none⟩ }

/-- `TimerTick`, up to where it releases its lock. -/
def timerTick (s : TransactionTable Hash) : TransactionTable Hash :=
  let (timeout, fns) := s.timeout.timerTick
  { s with timeout := timeout, due := s.due ++ fns }

def runTimeout (s : TransactionTable Hash) (k : Nat) : TransactionTable Hash :=
  match s.due[k]? with
  | none => s
  | some fn =>
    let s := { s with due := s.due.eraseIdx k }
    match fn with
    | .e2eTransaction tx => s.timeoutFn tx
    | _ => s

def callBack (s : TransactionTable Hash) (k : Nat) : TransactionTable Hash :=
  match s.taken[k]? with
  | none => s
  | some e => { s with taken := s.taken.eraseIdx k, called := s.called ++ [e] }

def step (s : TransactionTable Hash) : TransactionAction Hash → TransactionTable Hash
  | .send dst callback err timeoutTicks => s.sendE2ETransaction dst callback err timeoutTicks
  | .response id resp => s.handleE2EResponse id resp
  | .resetPeer id => s.resetPeer id
  | .timerTick => s.timerTick
  | .runTimeout k => s.runTimeout k
  | .callBack k => s.callBack k
  -- only `SendE2ETransaction` sets the timeout of a transaction
  | .setTimeout _ (.e2eTransaction _) => s
  | .setTimeout ticksFromNow fn => { s with timeout := (s.timeout.setTimeout ticksFromNow fn).1 }
  | .cancelTimeout tc => { s with timeout := s.timeout.cancelTimeout tc }

def run (as : List (TransactionAction Hash)) : TransactionTable Hash := as.foldl step {}

theorem run_concat (as : List (TransactionAction Hash)) (a : TransactionAction Hash) :
    run (as ++ [a]) = (run as).step a := by
  rw [run, List.foldl_append]
  rfl

/-! ### Every transaction is in one place -/

variable {s : TransactionTable Hash}

/-- The callbacks that were taken, called or not. -/
def completions (s : TransactionTable Hash) : List (Completion Hash) := s.taken ++ s.called

/-- The transactions, outstanding or taken. -/
def ids (s : TransactionTable Hash) : List TransactionID :=
  s.outstanding.map (·.1) ++ s.completions.map (·.tx)

/-- Every transaction that was started is in the table or was taken from it, once. -/
def Ledger (s : TransactionTable Hash) : Prop := s.ids.Perm (List.range' 1 s.e2eTxnId)

theorem Ledger.nodup (h : Ledger s) : s.ids.Nodup := h.nodup_iff.mpr List.nodup_range'

/-- A key that occurs once is taken out. -/
theorem perm_find?_filter {α : Type} {l : List (TransactionID × α)} {id : TransactionID}
    {t : TransactionID × α} (hl : (l.map (·.1)).Nodup) (h : l.find? (fun t => t.1 = id) = some t) :
    l.Perm (t :: l.filter fun t => t.1 ≠ id) := by
  induction l with
  | nil => cases h
  | cons x l ih =>
    rw [List.map_cons, List.nodup_cons] at hl
    by_cases hx : x.1 = id
    · rw [List.find?_cons_of_pos (by simpa using hx)] at h
      obtain rfl := Option.some.inj h
      have hrest : ∀ t ∈ l, t.1 ≠ id := fun t ht heq =>
        hl.1 (List.mem_map.mpr ⟨t, ht, heq.trans hx.symm⟩)
      rw [List.filter_cons_of_neg (by simpa using hx),
        List.filter_eq_self.mpr fun t ht => by simpa using hrest t ht]
    · rw [List.find?_cons_of_neg (by simpa using hx)] at h
      rw [List.filter_cons_of_pos (by simpa using hx)]
      exact ((ih hl.2 h).cons x).trans (List.Perm.swap ..)

theorem perm_append_taken (left new taken called : List TransactionID) :
    (left ++ (taken ++ new ++ called)).Perm (new ++ left ++ (taken ++ called)) := by
  refine List.perm_iff_count.mpr fun tx => ?_
  simp only [List.count_append]
  omega

/-- `s'` has the same transactions as `s`. -/
structure Moves (s s' : TransactionTable Hash) : Prop where
  e2eTxnId : s'.e2eTxnId = s.e2eTxnId
  ids : s'.ids.Perm s.ids

theorem Moves.refl (s : TransactionTable Hash) : Moves s s := ⟨rfl, .refl _⟩

theorem moves_take {id : TransactionID} {t : TransactionID × E2ECall Hash} (hs : s.ids.Nodup)
    (ht : s.outstanding.find? (fun t => t.1 = id) = some t) (err : Error)
    (resp : Option (TransactionResponse Hash)) : Moves s (s.take id t.2 err resp) := by
  have hperm := (perm_find?_filter (List.nodup_append.mp hs).1 ht).map (·.1)
  obtain rfl : t.1 = id := by simpa using List.find?_some ht
  refine ⟨rfl, ?_⟩
  rw [ids, ids, completions, completions, take, List.map_append, List.map_append, List.map_append,
    List.map_singleton]
  exact (perm_append_taken ..).trans (hperm.symm.append_right _)

theorem moves_handleE2EResponse (hs : s.ids.Nodup) (id : TransactionID)
    (resp : TransactionResponse Hash) : Moves s (s.handleE2EResponse id resp) := by
  rw [handleE2EResponse]
  split
  · exact .refl s
  · rename_i t ht
    exact ⟨rfl, (moves_take hs ht _ _).ids⟩

theorem moves_timeoutFn (hs : s.ids.Nodup) (tx : TransactionID) : Moves s (s.timeoutFn tx) := by
  rw [timeoutFn]
  split
  · exact .refl s
  · rename_i t ht
    exact moves_take hs ht _ _

theorem moves_resetPeer (id : PeerId) : Moves s (s.resetPeer id) := by
  have hperm := (List.filter_append_perm (fun t => decide (t.2.dst = id)) s.outstanding).map (·.1)
  rw [List.map_append] at hperm
  refine ⟨rfl, ?_⟩
  simp only [ids, completions, resetPeer, List.map_append, List.map_map, ne_eq, decide_not]
  exact (perm_append_taken ..).trans (hperm.append_right _)

theorem moves_runTimeout (hs : s.ids.Nodup) (k : Nat) : Moves s (s.runTimeout k) := by
  rw [runTimeout]
  split
  · exact .refl s
  · dsimp only
    split
    · obtain ⟨he2e, hids⟩ := moves_timeoutFn (s := { s with due := s.due.eraseIdx k }) hs _
      exact ⟨he2e, hids⟩
    · exact ⟨rfl, .refl _⟩

theorem completions_callBack (k : Nat) : (s.callBack k).completions.Perm s.completions := by
  rw [callBack]
  split
  · exact .refl _
  · rename_i e he
    obtain ⟨hk, rfl⟩ := List.getElem?_eq_some_iff.mp he
    rw [completions, completions, ← List.append_assoc]
    refine (List.perm_append_singleton _ _).trans ?_
    exact (List.getElem_cons_eraseIdx_perm hk).append_right _

theorem outstanding_callBack (k : Nat) :
    (s.callBack k).outstanding = s.outstanding ∧ (s.callBack k).e2eTxnId = s.e2eTxnId := by
  rw [callBack]
  split <;> exact ⟨rfl, rfl⟩

theorem ids_sendE2ETransaction (dst : PeerId) (callback : E2ECallback Hash) (err : Error)
    (timeoutTicks : Option Nat) :
    (s.sendE2ETransaction dst callback err timeoutTicks).ids.Perm ((s.e2eTxnId + 1) :: s.ids) := by
  rw [sendE2ETransaction]
  dsimp only
  split_ifs
  · rw [ids, ids, completions, completions, List.map_append, List.map_append, List.map_append,
      List.map_singleton]
    exact perm_append_taken ..
  · rw [ids, ids, List.map_append, List.map_singleton, List.append_assoc, List.singleton_append]
    exact List.perm_middle

theorem Ledger.step (h : Ledger s) (a : TransactionAction Hash) : Ledger (s.step a) := by
  have of_moves : ∀ {s' : TransactionTable Hash}, Moves s s' → Ledger s' := by
    intro s' hm
    rw [Ledger, hm.e2eTxnId]
    exact hm.ids.trans h
  cases a with
  | send dst callback err timeoutTicks =>
    have hid : (s.sendE2ETransaction dst callback err timeoutTicks).e2eTxnId = s.e2eTxnId + 1 := by
      rw [sendE2ETransaction]
      dsimp only
      split_ifs <;> rfl
    rw [TransactionTable.step, Ledger, hid, List.range'_concat, Nat.one_mul, Nat.add_comm 1]
    exact (ids_sendE2ETransaction ..).trans
      ((h.cons _).trans (List.perm_append_singleton _ _).symm)
  | response id resp => exact of_moves (moves_handleE2EResponse h.nodup id resp)
  | resetPeer id => exact of_moves (moves_resetPeer id)
  | timerTick => exact of_moves ⟨rfl, .refl _⟩
  | runTimeout k => exact of_moves (moves_runTimeout h.nodup k)
  | callBack k =>
    obtain ⟨houtstanding, hid⟩ := outstanding_callBack (s := s) k
    refine of_moves ⟨hid, ?_⟩
    rw [TransactionTable.step, ids, ids, houtstanding]
    exact ((completions_callBack k).map _).append_left _
  | setTimeout ticksFromNow fn =>
    cases fn with
    | e2eTransaction tx => exact h
    | _ => exact of_moves ⟨rfl, .refl _⟩
  | cancelTimeout tc => exact of_moves ⟨rfl, .refl _⟩

theorem ledger_run (as : List (TransactionAction Hash)) : Ledger (run as) :=
  Lib.foldl_invariant (fun _ a h => h.step a) (.refl _) as

/-! ### Who completes a transaction -/

/-- The action completes a transaction: a response to it, its own timeout, a reset of the peer it
    was sent to, or that it could not be sent. -/
inductive Completes (s : TransactionTable Hash) :
    TransactionAction Hash → Completion Hash → Prop where
  | response {id : TransactionID} {call : E2ECall Hash} (resp : TransactionResponse Hash)
      (hcall : (id, call) ∈ s.outstanding) :
      Completes s (.response id resp) ⟨id, call.callback, resp.statusOf, some resp⟩
  | timeout {k : Nat} {tx : TransactionID} {call : E2ECall Hash}
      (hdue : s.due[k]? = some (.e2eTransaction tx)) (hcall : (tx, call) ∈ s.outstanding) :
      Completes s (.runTimeout k) ⟨tx, call.callback, .coreE2ETransactionTimeout, none⟩
  | reset {tx : TransactionID} {call : E2ECall Hash} (hcall : (tx, call) ∈ s.outstanding) :
      Completes s (.resetPeer call.dst) ⟨tx, call.callback, .coreE2ETransactionReset, none⟩
  | notSent (dst : PeerId) (callback : E2ECallback Hash) {err : Error} (herr : err ≠ .ok)
      (timeoutTicks : Option Nat) :
      Completes s (.send dst callback err timeoutTicks) ⟨s.e2eTxnId + 1, callback, err, none⟩

theorem mem_of_find? {id : TransactionID} {t : TransactionID × E2ECall Hash}
    (ht : s.outstanding.find? (fun t => t.1 = id) = some t) : (id, t.2) ∈ s.outstanding := by
  have hmem := List.mem_of_find?_eq_some ht
  obtain rfl : t.1 = id := by simpa using List.find?_some ht
  exact hmem

theorem mem_completions_take {id : TransactionID} {call : E2ECall Hash} {err : Error}
    {resp : Option (TransactionResponse Hash)} {e : Completion Hash}
    (he : e ∈ (s.take id call err resp).completions) :
    e ∈ s.completions ∨ e = ⟨id, call.callback, err, resp⟩ := by
  rw [completions, take, List.mem_append, List.mem_append, List.mem_singleton] at he
  rw [completions, List.mem_append]
  tauto

/-- What is taken was taken before, or the action completes it. -/
theorem completions_step {a : TransactionAction Hash} {e : Completion Hash}
    (he : e ∈ (s.step a).completions) : e ∈ s.completions ∨ Completes s a e := by
  cases a with
  | send dst callback err timeoutTicks =>
    rw [step, sendE2ETransaction] at he
    dsimp only at he
    split_ifs at he with herr
    · rw [completions, List.mem_append, List.mem_append, List.mem_singleton] at he
      rw [completions, List.mem_append]
      rcases he with (he | rfl) | he
      · exact .inl (.inl he)
      · exact .inr (.notSent dst callback herr timeoutTicks)
      · exact .inl (.inr he)
    · exact .inl he
  | response id resp =>
    rw [step, handleE2EResponse] at he
    split at he
    · exact .inl he
    · rename_i t ht
      rcases mem_completions_take he with he | rfl
      · exact .inl he
      · exact .inr (.response resp (mem_of_find? ht))
  | resetPeer id =>
    rw [step, resetPeer, completions, List.mem_append, List.mem_append, List.mem_map] at he
    rw [completions, List.mem_append]
    rcases he with (he | ⟨t, ht, rfl⟩) | he
    · exact .inl (.inl he)
    · obtain ⟨hmem, hdst⟩ := List.mem_filter.mp ht
      obtain rfl : t.2.dst = id := by simpa using hdst
      exact .inr (.reset hmem)
    · exact .inl (.inr he)
  | timerTick => exact .inl he
  | runTimeout k =>
    rw [step, runTimeout] at he
    split at he
    · exact .inl he
    · rename_i fn hdue
      dsimp only at he
      split at he
      · rename_i tx
        rw [timeoutFn] at he
        split at he
        · exact .inl he
        · rename_i t ht
          rcases mem_completions_take he with he | rfl
          · exact .inl he
          · exact .inr (.timeout hdue (mem_of_find? ht))
      · exact .inl he
  | callBack k => exact .inl ((completions_callBack k).mem_iff.mp he)
  | setTimeout ticksFromNow fn =>
    cases fn with
    | e2eTransaction tx => exact .inl he
    | _ => exact .inl he
  | cancelTimeout tc => exact .inl he

theorem outstanding_step {a : TransactionAction Hash} {t : TransactionID × E2ECall Hash}
    (ht : t ∈ (s.step a).outstanding) :
    t ∈ s.outstanding ∨
      ∃ err timeoutTicks, a = .send t.2.dst t.2.callback err timeoutTicks ∧
        t.1 = s.e2eTxnId + 1 := by
  have of_filter : ∀ {p : TransactionID × E2ECall Hash → Bool}, t ∈ s.outstanding.filter p →
      t ∈ s.outstanding := fun h => (List.mem_filter.mp h).1
  cases a with
  | send dst callback err timeoutTicks =>
    rw [step, sendE2ETransaction] at ht
    dsimp only at ht
    split_ifs at ht
    · exact .inl ht
    · rcases List.mem_append.mp ht with ht | ht
      · exact .inl ht
      · obtain rfl := List.mem_singleton.mp ht
        exact .inr ⟨err, timeoutTicks, rfl, rfl⟩
  | response id resp =>
    rw [step, handleE2EResponse] at ht
    split at ht
    · exact .inl ht
    · exact .inl (of_filter ht)
  | resetPeer id => exact .inl (of_filter ht)
  | timerTick => exact .inl ht
  | runTimeout k =>
    rw [step, runTimeout] at ht
    split at ht
    · exact .inl ht
    · dsimp only at ht
      split at ht
      · rw [timeoutFn] at ht
        split at ht
        · exact .inl ht
        · exact .inl (of_filter ht)
      · exact .inl ht
  | callBack k =>
    rw [step, (outstanding_callBack k).1] at ht
    exact .inl ht
  | setTimeout ticksFromNow fn =>
    cases fn with
    | e2eTransaction tx => exact .inl ht
    | _ => exact .inl ht
  | cancelTimeout tc => exact .inl ht

def Started (as : List (TransactionAction Hash)) (tx : TransactionID) (dst : PeerId)
    (callback : E2ECallback Hash) : Prop :=
  ∃ before err timeoutTicks after, as = before ++ .send dst callback err timeoutTicks :: after ∧
    tx = (run before).e2eTxnId + 1

def Completed (as : List (TransactionAction Hash)) (e : Completion Hash) : Prop :=
  ∃ before a after, as = before ++ a :: after ∧ Completes (run before) a e

theorem Started.append {as : List (TransactionAction Hash)} {tx : TransactionID} {dst : PeerId}
    {callback : E2ECallback Hash} (h : Started as tx dst callback)
    (as' : List (TransactionAction Hash)) : Started (as ++ as') tx dst callback := by
  obtain ⟨before, err, timeoutTicks, after, rfl, htx⟩ := h
  exact ⟨before, err, timeoutTicks, after ++ as', List.append_assoc .., htx⟩

theorem started_of_outstanding (as : List (TransactionAction Hash))
    {t : TransactionID × E2ECall Hash} (ht : t ∈ (run as).outstanding) :
    Started as t.1 t.2.dst t.2.callback := by
  induction as using List.reverseRecOn with
  | nil => cases ht
  | append_singleton as a ih =>
    rw [run_concat] at ht
    rcases outstanding_step ht with ht | ⟨err, timeoutTicks, rfl, htx⟩
    · exact (ih ht).append [a]
    · exact ⟨as, err, timeoutTicks, [], rfl, htx⟩

theorem completed_of_mem (as : List (TransactionAction Hash)) {e : Completion Hash}
    (he : e ∈ (run as).completions) : Completed as e := by
  induction as using List.reverseRecOn with
  | nil => cases he
  | append_singleton as a ih =>
    rw [run_concat] at he
    rcases completions_step he with he | ha
    · obtain ⟨before, a', after, rfl, ha'⟩ := ih he
      exact ⟨before, a', after ++ [a], List.append_assoc .., ha'⟩
    · exact ⟨as, a, [], rfl, ha⟩

theorem Completed.started {as : List (TransactionAction Hash)} {e : Completion Hash}
    (h : Completed as e) : ∃ dst, Started as e.tx dst e.callback := by
  obtain ⟨before, a, after, rfl, ha⟩ := h
  cases ha with
  | response resp hcall => exact ⟨_, (started_of_outstanding before hcall).append _⟩
  | timeout hdue hcall => exact ⟨_, (started_of_outstanding before hcall).append _⟩
  | reset hcall => exact ⟨_, (started_of_outstanding before hcall).append _⟩
  | notSent dst callback herr timeoutTicks =>
    exact ⟨dst, before, _, timeoutTicks, after, rfl, rfl⟩

/-- A function that is to run at a timeout, later or now. -/
def Scheduled (s : TransactionTable Hash) (fn : TimeoutFn) : Prop :=
  fn ∈ s.due ∨ ∃ tc, (tc, fn) ∈ s.timeout.timeouts

theorem scheduled_cancelTimeout {timeout : Timeout TimeoutFn} {tc tc' : Cancel} {fn : TimeoutFn}
    (h : (tc', fn) ∈ (timeout.cancelTimeout tc).timeouts) : (tc', fn) ∈ timeout.timeouts :=
  (List.mem_filter.mp h).1

theorem scheduled_foldl_cancelTimeout {l : List (TransactionID × E2ECall Hash)}
    {timeout : Timeout TimeoutFn} {tc : Cancel} {fn : TimeoutFn}
    (h : (tc, fn) ∈ (l.foldl (fun timeout t => timeout.cancelTimeout t.2.timeoutCancel)
      timeout).timeouts) : (tc, fn) ∈ timeout.timeouts := by
  induction l generalizing timeout with
  | nil => exact h
  | cons t l ih => exact scheduled_cancelTimeout (ih h)

/-- The timeout of a transaction is set when it is started, and by nothing else. -/
theorem scheduled_step {a : TransactionAction Hash} {tx : TransactionID}
    (h : (s.step a).Scheduled (.e2eTransaction tx)) :
    s.Scheduled (.e2eTransaction tx) ∨
      ∃ dst callback ticks, a = .send dst callback .ok (some ticks) ∧ tx = s.e2eTxnId + 1 := by
  cases a with
  | send dst callback err timeoutTicks =>
    rw [step, sendE2ETransaction] at h
    dsimp only at h
    split_ifs at h with herr
    · exact .inl h
    · cases timeoutTicks with
      | none => exact .inl h
      | some ticks =>
        rcases h with h | ⟨tc, h⟩
        · exact .inl (.inl h)
        · rcases List.mem_append.mp h with h | h
          · exact .inl (.inr ⟨tc, h⟩)
          · obtain ⟨-, heq⟩ := Prod.mk.inj (List.mem_singleton.mp h)
            rw [not_not.mp herr]
            exact .inr ⟨dst, callback, ticks, rfl, TimeoutFn.e2eTransaction.inj heq⟩
  | response tx' resp =>
    rw [step, handleE2EResponse] at h
    split at h
    · exact .inl h
    · exact .inl (h.imp id fun ⟨tc, htc⟩ => ⟨tc, scheduled_cancelTimeout htc⟩)
  | resetPeer dst =>
    exact .inl (h.imp id fun ⟨tc, htc⟩ => ⟨tc, scheduled_foldl_cancelTimeout htc⟩)
  | timerTick =>
    rcases h with h | ⟨tc, h⟩
    · rcases List.mem_append.mp h with h | h
      · exact .inl (.inl h)
      · obtain ⟨⟨tc, fn⟩, hmem, rfl⟩ := List.mem_map.mp h
        exact .inl (.inr ⟨tc, (List.mem_filter.mp hmem).1⟩)
    · exact .inl (.inr ⟨tc, (List.mem_filter.mp h).1⟩)
  | runTimeout k =>
    rw [step, runTimeout] at h
    split at h
    · exact .inl h
    · have of_erase : (({ s with due := s.due.eraseIdx k } : TransactionTable Hash).Scheduled
          (.e2eTransaction tx)) → s.Scheduled (.e2eTransaction tx) :=
        fun h => h.imp List.mem_of_mem_eraseIdx id
      dsimp only at h
      split at h
      · rw [timeoutFn] at h
        split at h
        · exact .inl (of_erase h)
        · exact .inl (of_erase h)
      · exact .inl (of_erase h)
  | callBack k =>
    rw [step, callBack] at h
    split at h
    · exact .inl h
    · exact .inl h
  | setTimeout ticksFromNow fn =>
    cases fn with
    | e2eTransaction tx => exact .inl h
    | _ =>
      rcases h with h | ⟨tc, h⟩
      · exact .inl (.inl h)
      · rcases List.mem_append.mp h with h | h
        · exact .inl (.inr ⟨tc, h⟩)
        · cases (Prod.mk.inj (List.mem_singleton.mp h)).2
  | cancelTimeout tc =>
    exact .inl (h.imp id fun ⟨tc', htc'⟩ => ⟨tc', scheduled_cancelTimeout htc'⟩)

theorem started_of_scheduled (as : List (TransactionAction Hash)) {tx : TransactionID}
    (h : (run as).Scheduled (.e2eTransaction tx)) :
    ∃ before dst callback ticks after,
      as = before ++ .send dst callback .ok (some ticks) :: after ∧
        tx = (run before).e2eTxnId + 1 := by
  induction as using List.reverseRecOn with
  | nil =>
    rcases h with h | ⟨tc, h⟩
    · cases h
    · cases h
  | append_singleton as a ih =>
    rw [run_concat] at h
    rcases scheduled_step h with h | ⟨dst, callback, ticks, rfl, htx⟩
    · obtain ⟨before, dst, callback, ticks, after, rfl, htx⟩ := ih h
      exact ⟨before, dst, callback, ticks, after ++ [a], List.append_assoc .., htx⟩
    · exact ⟨as, dst, callback, ticks, [], rfl, htx⟩

/-! ### Calls -/

theorem called_callBack {k : Nat} {e : Completion Hash} (he : s.taken[k]? = some e) :
    (s.callBack k).called = s.called ++ [e] ∧ (s.callBack k).taken = s.taken.eraseIdx k := by
  rw [callBack, he]
  exact ⟨rfl, rfl⟩

/-- Once the threads have called what they have taken, every transaction that is not in the table has
    had its callback called. -/
theorem called_of_taken (s : TransactionTable Hash) :
    let s' := (List.replicate s.taken.length (.callBack 0)).foldl step s
    s'.taken = [] ∧ s'.called = s.called ++ s.taken ∧ s'.outstanding = s.outstanding := by
  generalize htaken : s.taken = taken
  induction taken generalizing s with
  | nil => exact ⟨htaken, (List.append_nil _).symm, rfl⟩
  | cons e taken ih =>
    obtain ⟨hcalled, hrest⟩ := called_callBack (s := s) (k := 0) (e := e) (by rw [htaken]; rfl)
    rw [htaken] at hrest
    obtain ⟨hnone, hall, houtstanding⟩ := ih (s.callBack 0) hrest
    refine ⟨hnone, ?_, houtstanding.trans (outstanding_callBack 0).1⟩
    rw [List.length_cons, List.replicate_succ, List.foldl_cons]
    exact hall.trans (by rw [hcalled, List.append_assoc]; rfl)

/-- In every run each callback is called at most once; one that was started, is no longer in the
    table and is not about to be called has been called exactly once; every call was brought about
    by a response, the transaction's own timeout, a reset or a failure to send, with the callback
    that the transaction was started with; and a timeout belongs to the transaction that was started
    with it. -/
theorem callbacks_called_once (as : List (TransactionAction Hash)) :
    (∀ tx, (run as).called.countP (fun e => e.tx = tx) ≤ 1) ∧
      (∀ tx, 1 ≤ tx → tx ≤ (run as).e2eTxnId → tx ∉ (run as).outstanding.map (·.1) →
        tx ∉ (run as).taken.map (·.tx) → (run as).called.countP (fun e => e.tx = tx) = 1) ∧
      (∀ e ∈ (run as).called, Completed as e ∧ ∃ dst, Started as e.tx dst e.callback) ∧
      ∀ tx, .e2eTransaction tx ∈ (run as).due → ∃ before dst callback ticks after,
        as = before ++ .send dst callback .ok (some ticks) :: after ∧
          tx = (run before).e2eTxnId + 1 := by
  have hledger := ledger_run as
  have hcount : ∀ tx, (run as).called.countP (fun e => e.tx = tx) =
      ((run as).called.map (·.tx)).count tx := by
    intro tx
    rw [List.count_eq_countP, List.countP_map]
    congr 1
  have hids : ∀ tx, (run as).ids.count tx = ((run as).outstanding.map (·.1)).count tx +
      (((run as).taken.map (·.tx)).count tx + ((run as).called.map (·.tx)).count tx) := by
    intro tx
    rw [ids, completions, List.count_append, List.map_append, List.count_append]
  refine ⟨fun tx => ?_, fun tx hpos hle houtstanding htaken => ?_, fun e he => ?_,
    fun tx htx => started_of_scheduled as (.inl htx)⟩
  · have := List.nodup_iff_count_le_one.mp hledger.nodup tx
    rw [hids] at this
    rw [hcount]
    omega
  · have hmem : tx ∈ (run as).ids :=
      hledger.mem_iff.mpr (List.mem_range'_1.mpr ⟨hpos, Nat.lt_one_add_iff.mpr hle⟩)
    have hone := List.count_eq_one_of_mem hledger.nodup hmem
    rw [hids, List.count_eq_zero_of_not_mem houtstanding,
      List.count_eq_zero_of_not_mem htaken] at hone
    rw [hcount]
    omega
  · have hcompleted := completed_of_mem as (List.mem_append_right _ he)
    exact ⟨hcompleted, hcompleted.started⟩

/-- The first transaction is answered, the second times out, the peer of the third is reset and the
    fourth cannot be sent. -/
def sampleActions : List (TransactionAction Unit) :=
  [.send 2 (.reply 11) .ok (some 5), .send 3 (.reply 12) .ok (some 1), .send 4 (.reply 13) .ok none,
    .timerTick, .response 1 (.status .ok), .send 5 (.reply 14) .peersInvalidID none, .resetPeer 4,
    .runTimeout 0, .response 2 (.status .ok), .callBack 1, .callBack 0, .callBack 1, .callBack 0]

theorem callbacks_called_once_sampleActions :
    (run sampleActions).called.map (fun e => (e.tx, e.err)) =
        [(4, .peersInvalidID), (1, .ok), (2, .coreE2ETransactionTimeout),
          (3, .coreE2ETransactionReset)] ∧
      ∀ tx, 1 ≤ tx → tx ≤ 4 → (run sampleActions).called.countP (fun e => e.tx = tx) = 1 :=
  ⟨by decide, fun tx hpos hle =>
    (callbacks_called_once sampleActions).2.1 tx hpos hle (List.not_mem_nil) (List.not_mem_nil)⟩

end TransactionTable

end SVR2
