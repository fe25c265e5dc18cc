import SVR2.Core.Handlers
import SVR2.Lib.Runs

/-!
# The callbacks of the pushes of one replication

`HandleReplicateStateRequest` starts several pushes, and the callback of each sends the next one.
The callbacks run on different threads, or inline in `SendE2ETransaction` while `raft_.mu` is held.
Here they take turns at any of their atomic steps: the load and the exchange of `sent_response` and
acquiring `raft_.mu`.  Of a replication the model has what the callbacks look at; what else happens
in `SendNextReplicationState` is up to the surroundings.
-/

namespace SVR2

open Lib

namespace PushCallbacks

inductive Point where
  /-- before `sent_response.load()` -/
  | start
  /-- which was false -/
  | loaded
  /-- before it acquires `raft_.mu` -/
  | acquire
  | locked
  /-- before it returns and releases `raft_.mu` -/
  | release
deriving DecidableEq

/-- A call on the stack of a thread: the loop of `HandleReplicateStateRequest` with the number of
    turns that are left, which holds `raft_.mu`, or a callback with its error and
    `last_sent_transaction`. -/
inductive Frame where
  | handler (left : Nat)
  | callback (err : Error) (last : Bool) (point : Point)
deriving DecidableEq

abbrev Failure := { err : Error // err ≠ .ok }

/-- What the surroundings make of a call of `SendNextReplicationState`: `RowsAsProtos` fails; the
    push goes out, perhaps with the last rows; or it cannot be sent. -/
inductive Sending where
  | rowsFail (err : Failure)
  | sent (finished : Bool)
  | sendFails (finished : Bool) (err : Failure)

def Sending.RowsFail : Sending → Prop
  | .rowsFail _ => True
  | _ => False

instance : DecidablePred Sending.RowsFail
  | .rowsFail _ => .isTrue trivial
  | .sent _ => .isFalse id
  | .sendFails .. => .isFalse id

/-- What the threads share, and their stacks.  The last two fields are not in the source: the errors
    of the callbacks that have gone on to acquire `raft_.mu`, and of those that have called
    `SendNextReplicationState`. -/
structure State (n : Nat) where
  sentResponse : Bool
  finishedSending : Bool
  mutex : Option (Fin n)
  /-- `last_sent_transaction` of the pushes whose callback has not been called -/
  outstanding : List Bool
  /-- the final statuses that the requester has been sent -/
  statuses : List Error
  stack : Fin n → List Frame
  acquiring : List Error
  sending : List Error

/-- The callback of an outstanding push is called on a thread that has nothing to do: the response
    has come, or the transaction has timed out or been reset.  Or a thread takes its next step. -/
inductive Event (n : Nat) where
  | call (t : Fin n) (push : Nat) (err : Error)
  | run (t : Fin n) (how : Sending)

namespace State

variable {n : Nat}

/-- The handler on the first thread, with `raft_.mu`. -/
def init (n pipeline : Nat) : State (n + 1) where
  sentResponse := false
  finishedSending := false
  mutex := some 0
  outstanding := []
  statuses := []
  stack := Function.update (fun _ => []) 0 [.handler pipeline]
  acquiring := []
  sending := []

def setStack (s : State n) (t : Fin n) (frames : List Frame) : State n :=
  { s with stack := Function.update s.stack t frames }

/-- `if (!sent_response.exchange(true)) SendE2EError(err)`. -/
def answer (s : State n) (err : Error) : State n :=
  { s with
    sentResponse := true
    statuses := if s.sentResponse then s.statuses else s.statuses ++ [err] }

/-- `SendNextReplicationState`; the thread then goes on with the given frames. -/
def sendNext (s : State n) (t : Fin n) (rest : List Frame) : Sending → State n
  | .rowsFail err => (s.answer err).setStack t rest
  | .sent finished =>
    { s with finishedSending := finished, outstanding := s.outstanding ++ [finished] }.setStack t rest
  | .sendFails finished err =>
    -- the callback is called inline
    { s with finishedSending := finished }.setStack t (.callback err finished .start :: rest)

def goOn (s : State n) (t : Fin n) (err : Error) (last : Bool) (rest : List Frame) : State n :=
  { s with acquiring := s.acquiring ++ [err] }.setStack t (.callback err last .acquire :: rest)

def stepCallback (s : State n) (t : Fin n) (how : Sending) (err : Error) (last : Bool)
    (rest : List Frame) : Point → State n
  | .start => s.setStack t (if s.sentResponse then rest else .callback err last .loaded :: rest)
  | .loaded =>
    if err = .ok ∨ s.sentResponse then s.goOn t err last rest
    else (s.answer err).setStack t rest
  | .acquire =>
    if s.mutex = none then
      { s with mutex := some t }.setStack t (.callback err last .locked :: rest)
    else s
  | .locked =>
    if last ∧ s.sentResponse = false then
      (s.answer .ok).setStack t (.callback err last .release :: rest)
    else if s.finishedSending then s.setStack t (.callback err last .release :: rest)
    else { s with sending := s.sending ++ [err] }.sendNext t (.callback err last .release :: rest) how
  | .release => { s with mutex := none }.setStack t rest

def stepThread (s : State n) (t : Fin n) (how : Sending) : State n :=
  match s.stack t with
  | [] => s
  | .handler left :: rest =>
    if left = 0 ∨ s.finishedSending then { s with mutex := none }.setStack t rest
    else s.sendNext t (.handler (left - 1) :: rest) how
  | .callback err last point :: rest => s.stepCallback t how err last rest point

def step (s : State n) : Event n → State n
  | .call t push err =>
    match s.stack t, s.outstanding[push]? with
    | [], some last =>
      { s with outstanding := s.outstanding.eraseIdx push }.setStack t [.callback err last .start]
    | _, _ => s
  | .run t how => s.stepThread t how

end State

/-- A callback that was called with an error and has found that no status has been sent, but has not
    exchanged the flag. -/
def Frame.Waits : Frame → Prop
  | .callback err _ .loaded => err ≠ .ok
  | _ => False

instance : DecidablePred Frame.Waits
  | .handler _ => .isFalse id
  | .callback err _ point => by
    unfold Frame.Waits
    split <;> infer_instance

/-- The next step of the call sets `sent_response`, which is not set: the exchange of a callback with
    an error, the answer after the last push, or a call of `SendNextReplicationState` in which
    `RowsAsProtos` fails. -/
def Frame.Answers (finishedSending : Bool) (how : Sending) : Frame → Prop
  | .handler left => left ≠ 0 ∧ finishedSending = false ∧ how.RowsFail
  | .callback err _ .loaded => err ≠ .ok
  | .callback _ last .locked => last = true ∨ finishedSending = false ∧ how.RowsFail
  | .callback _ _ .start | .callback _ _ .acquire | .callback _ _ .release => False

instance (finishedSending : Bool) (how : Sending) : DecidablePred (Frame.Answers finishedSending how)
  | .handler _ => inferInstanceAs (Decidable (_ ∧ _ ∧ how.RowsFail))
  | .callback _ _ .loaded => inferInstanceAs (Decidable (_ ≠ _))
  | .callback _ _ .locked => inferInstanceAs (Decidable (_ ∨ _ ∧ how.RowsFail))
  | .callback _ _ .start | .callback _ _ .acquire | .callback _ _ .release => .isFalse id

/-- A callback with an error has not exchanged the flag yet, and the flag is as it has loaded it. -/
def Frame.Sound (sentResponse : Bool) : Frame → Prop
  | .handler _ => True
  | .callback err _ point => err = .ok ∨ point = .start ∨ point = .loaded ∧ sentResponse = false

theorem Frame.sound_start (sentResponse : Bool) (err : Error) (last : Bool) :
    (Frame.callback err last .start).Sound sentResponse :=
  .inr (.inl rfl)

theorem Frame.Sound.mono {f : Frame} {before after : Bool} (h : f.Sound before)
    (hwaits : before = false → after = true → ¬f.Waits) : f.Sound after := by
  cases f with
  | handler left => trivial
  | callback err last point =>
    rcases h with h | h | ⟨rfl, hbefore⟩
    · exact .inl h
    · exact .inr (.inl h)
    · cases after with
      | false => exact .inr (.inr ⟨rfl, rfl⟩)
      | true => exact .inl (not_not.mp (hwaits hbefore rfl))

namespace State

variable {n : Nat} {s : State n}

def Answers (s : State n) (t : Fin n) (how : Sending) : Prop :=
  ∃ f ∈ (s.stack t).head?, f.Answers s.finishedSending how

/-- The calls that are not the next to go on when a thread takes a step. -/
def others (s : State n) (t t' : Fin n) : List Frame :=
  if t' = t then (s.stack t).tail else s.stack t'

/-- If the event sets `sent_response`, no other callback is between its load and its exchange. -/
def Undisturbed (s : State n) : Event n → Prop
  | .call .. => True
  | .run t how => s.sentResponse = false → s.Answers t how → ∀ t', ∀ f ∈ s.others t t', ¬f.Waits

instance (s : State n) : ∀ e : Event n, Decidable (s.Undisturbed e)
  | .call .. => .isTrue trivial
  | .run t _ => inferInstanceAs (Decidable (_ → (∃ f ∈ (s.stack t).head?, _) → _))

/-! ### One status -/

/-- A status has been sent exactly if the flag is set. -/
def Once (s : State n) : Prop := s.statuses.length = if s.sentResponse then 1 else 0

theorem Once.setStack (h : s.Once) (t : Fin n) (frames : List Frame) : (s.setStack t frames).Once := h

theorem Once.answer (h : s.Once) (err : Error) : (s.answer err).Once := by
  unfold Once State.answer at *
  cases hsent : s.sentResponse with
  | false =>
    rw [hsent] at h
    simpa using h
  | true =>
    rw [hsent] at h
    simpa using h

theorem Once.sendNext (h : s.Once) (t : Fin n) (rest : List Frame) (how : Sending) :
    (s.sendNext t rest how).Once := by
  cases how with
  | rowsFail err => exact (h.answer err).setStack t rest
  | sent finished => exact h
  | sendFails finished err => exact h

theorem Once.stepCallback (h : s.Once) (t : Fin n) (how : Sending) (err : Error) (last : Bool)
    (rest : List Frame) (point : Point) : (s.stepCallback t how err last rest point).Once := by
  cases point with
  | start => exact h
  | loaded =>
    rw [State.stepCallback]
    split_ifs
    · exact h
    · exact (h.answer err).setStack t rest
  | acquire =>
    rw [State.stepCallback]
    split_ifs <;> exact h
  | locked =>
    rw [State.stepCallback]
    split_ifs
    · exact (h.answer .ok).setStack t _
    · exact h
    · exact Once.sendNext (s := { s with sending := s.sending ++ [err] }) h t _ how
  | release => exact h

theorem Once.step (h : s.Once) (e : Event n) : (s.step e).Once := by
  cases e with
  | call t push err =>
    rw [State.step]
    split <;> exact h
  | run t how =>
    rw [State.step, stepThread]
    split
    · exact h
    · split_ifs
      · exact h
      · exact h.sendNext t _ how
    · exact h.stepCallback t how _ _ _ _

/-! ### Callbacks with an error -/

/-- No callback with an error has gone on after its exchange. -/
structure Stopped (sentResponse : Bool) (s : State n) : Prop where
  frames : ∀ t, ∀ f ∈ s.stack t, f.Sound sentResponse
  acquiring : ∀ err ∈ s.acquiring, err = .ok
  sending : ∀ err ∈ s.sending, err = .ok

variable {sentResponse : Bool}

theorem Stopped.of_stack (h : s.Stopped sentResponse) {s' : State n} {t : Fin n}
    {frames : List Frame} (hstack : s'.stack = Function.update s.stack t frames)
    (hframes : ∀ f ∈ frames, f.Sound sentResponse) (hacquiring : ∀ err ∈ s'.acquiring, err = .ok)
    (hsending : ∀ err ∈ s'.sending, err = .ok) : s'.Stopped sentResponse := by
  refine ⟨fun t' f hf => ?_, hacquiring, hsending⟩
  rw [hstack, Function.update_apply] at hf
  split_ifs at hf with ht
  · exact hframes f hf
  · exact h.frames t' f hf

theorem Stopped.sendNext (h : s.Stopped sentResponse) {t : Fin n} {rest : List Frame}
    (hrest : ∀ f ∈ rest, f.Sound sentResponse) (how : Sending) :
    (s.sendNext t rest how).Stopped sentResponse := by
  cases how with
  | rowsFail err => exact h.of_stack rfl hrest h.acquiring h.sending
  | sent finished => exact h.of_stack rfl hrest h.acquiring h.sending
  | sendFails finished err =>
    exact h.of_stack rfl (List.forall_mem_cons.mpr ⟨Frame.sound_start _ _ _, hrest⟩)
      h.acquiring h.sending

theorem Stopped.stepCallback (h : s.Stopped s.sentResponse) {t : Fin n} (how : Sending)
    {err : Error} {last : Bool} {rest : List Frame} {point : Point}
    (hstack : s.stack t = .callback err last point :: rest) :
    (s.stepCallback t how err last rest point).Stopped s.sentResponse := by
  obtain ⟨htop, hrest⟩ := List.forall_mem_cons.mp (hstack ▸ h.frames t)
  have hok : ∀ point', err = .ok → ∀ f ∈ .callback err last point' :: rest, f.Sound s.sentResponse :=
    fun point' herr => List.forall_mem_cons.mpr ⟨.inl herr, hrest⟩
  have hsnoc : ∀ errs : List Error, (∀ e ∈ errs, e = .ok) → err = .ok → ∀ e ∈ errs ++ [err], e = .ok :=
    fun errs herrs herr => List.forall_mem_append.mpr ⟨herrs, List.forall_mem_singleton.mpr herr⟩
  cases point with
  | start =>
    refine h.of_stack rfl ?_ h.acquiring h.sending
    split_ifs with hsent
    · exact hrest
    · exact List.forall_mem_cons.mpr ⟨.inr (.inr ⟨rfl, by simpa using hsent⟩), hrest⟩
  | loaded =>
    rw [State.stepCallback]
    split_ifs with hgo
    · have herr : err = .ok := by
        rcases htop with herr | hpoint | ⟨-, hsent⟩
        · exact herr
        · cases hpoint
        · exact hgo.resolve_right (by simp [hsent])
      exact h.of_stack rfl (hok _ herr) (hsnoc _ h.acquiring herr) h.sending
    · exact h.of_stack rfl hrest h.acquiring h.sending
  | acquire =>
    have herr : err = .ok := htop.resolve_right (by simp)
    rw [State.stepCallback]
    split_ifs
    · exact h.of_stack rfl (hok _ herr) h.acquiring h.sending
    · exact h
  | locked =>
    have herr : err = .ok := htop.resolve_right (by simp)
    rw [State.stepCallback]
    split_ifs
    · exact h.of_stack rfl (hok _ herr) h.acquiring h.sending
    · exact h.of_stack rfl (hok _ herr) h.acquiring h.sending
    · have h' : Stopped s.sentResponse { s with sending := s.sending ++ [err] } :=
        ⟨h.frames, h.acquiring, hsnoc _ h.sending herr⟩
      exact h'.sendNext (hok _ herr) how
  | release => exact h.of_stack rfl hrest h.acquiring h.sending

/-- Of the calls on the stacks afterwards, those that wait are among the others. -/
theorem mem_others {t t' : Fin n} {frames : List Frame} {f : Frame}
    (hframes : ∀ f ∈ frames, f.Waits → f ∈ (s.stack t).tail)
    (hf : f ∈ Function.update s.stack t frames t') (hwaits : f.Waits) : f ∈ s.others t t' := by
  rw [Function.update_apply] at hf
  rw [others]
  split_ifs at hf ⊢ with ht
  · exact hframes f hf hwaits
  · exact hf

theorem rowsFail_of_sendNext {t : Fin n} {rest : List Frame} {how : Sending}
    (hbefore : s.sentResponse = false) (hafter : (s.sendNext t rest how).sentResponse = true) :
    how.RowsFail ∧ (s.sendNext t rest how).stack = Function.update s.stack t rest := by
  cases how with
  | rowsFail err => exact ⟨trivial, rfl⟩
  | sent finished => exact absurd (hbefore.symm.trans hafter) Bool.false_ne_true
  | sendFails finished err => exact absurd (hbefore.symm.trans hafter) Bool.false_ne_true

/-- A step that sets the flag is one of those that answer, and what waits afterwards has waited
    before, apart from the call that has taken the step. -/
theorem answers_of_step {t : Fin n} {how : Sending} (hbefore : s.sentResponse = false)
    (hafter : (s.stepThread t how).sentResponse = true) :
    s.Answers t how ∧ ∀ t', ∀ f ∈ (s.stepThread t how).stack t', f.Waits → f ∈ s.others t t' := by
  have hsame : ∀ s' : State n, s'.sentResponse = s.sentResponse → s'.sentResponse ≠ true :=
    fun s' hs' hset => absurd (hbefore.symm.trans (hs'.symm.trans hset)) Bool.false_ne_true
  rw [Answers]
  cases hstack : s.stack t with
  | nil =>
    rw [stepThread, hstack] at hafter
    exact absurd hafter (hsame s rfl)
  | cons top rest =>
    -- a call that does not wait has taken the place of the one on top, or none has
    have hrest : ∀ f ∈ rest, f.Waits → f ∈ (s.stack t).tail := fun f hf _ => by rwa [hstack]
    have hcons : ∀ top' : Frame, ¬top'.Waits → ∀ f ∈ top' :: rest, f.Waits → f ∈ (s.stack t).tail := by
      intro top' hnot f hf hwaits
      refine hrest f ((List.mem_cons.mp hf).resolve_left ?_) hwaits
      rintro rfl
      exact hnot hwaits
    rw [stepThread, hstack] at hafter ⊢
    cases top with
    | handler left =>
      dsimp only at hafter ⊢
      split_ifs at hafter ⊢ with hleft
      · exact absurd hafter (hsame _ rfl)
      · rw [not_or, Bool.not_eq_true] at hleft
        obtain ⟨hrows, hupdate⟩ := rowsFail_of_sendNext hbefore hafter
        rw [hupdate]
        exact ⟨⟨_, rfl, hleft.1, hleft.2, hrows⟩, fun t' f => mem_others (hcons (.handler _) id)⟩
    | callback err last point =>
      cases point with
      | start => exact absurd hafter (hsame _ rfl)
      | loaded =>
        dsimp only [stepCallback] at hafter ⊢
        split_ifs at hafter ⊢ with hgo
        · exact absurd hafter (hsame _ rfl)
        · exact ⟨⟨_, rfl, (not_or.mp hgo).1⟩, fun t' f => mem_others hrest⟩
      | acquire =>
        dsimp only [stepCallback] at hafter
        split_ifs at hafter
        · exact absurd hafter (hsame _ rfl)
        · exact absurd hafter (hsame s rfl)
      | locked =>
        dsimp only [stepCallback] at hafter ⊢
        split_ifs at hafter ⊢ with hlast hfinished
        · exact ⟨⟨_, rfl, .inl hlast.1⟩, fun t' f => mem_others (hcons (.callback err last .release) id)⟩
        · exact absurd hafter (hsame _ rfl)
        · obtain ⟨hrows, hupdate⟩ :=
            rowsFail_of_sendNext (s := { s with sending := s.sending ++ [err] }) hbefore hafter
          rw [hupdate]
          exact ⟨⟨_, rfl, .inr ⟨(Bool.not_eq_true _).mp hfinished, hrows⟩⟩,
            fun t' f => mem_others (hcons (.callback err last .release) id)⟩
      | release => exact absurd hafter (hsame _ rfl)

theorem Stopped.step (h : s.Stopped s.sentResponse) {e : Event n} (he : s.Undisturbed e) :
    (s.step e).Stopped (s.step e).sentResponse := by
  have hstep : (s.step e).Stopped s.sentResponse := by
    cases e with
    | call t push err =>
      rw [State.step]
      split
      · exact h.of_stack rfl (List.forall_mem_singleton.mpr (Frame.sound_start _ _ _))
          h.acquiring h.sending
      · exact h
    | run t how =>
      rw [State.step, stepThread]
      split
      · exact h
      · rename_i left rest hstack
        have hrest := (List.forall_mem_cons.mp (hstack ▸ h.frames t)).2
        split_ifs
        · exact h.of_stack rfl hrest h.acquiring h.sending
        · exact h.sendNext (List.forall_mem_cons.mpr
            ⟨show Frame.Sound _ (.handler (left - 1)) from trivial, hrest⟩) how
      · rename_i err last point rest hstack
        exact h.stepCallback how hstack
  -- the flag is as before, or no callback depends on it
  refine { hstep with frames := fun t' f hf => (hstep.frames t' f hf).mono fun hbefore hafter => ?_ }
  intro hwaits
  cases e with
  | call t push err =>
    have hsame : (s.step (.call t push err)).sentResponse = s.sentResponse := by
      rw [State.step]
      split <;> rfl
    exact absurd (hbefore.symm.trans (hsame.symm.trans hafter)) Bool.false_ne_true
  | run t how =>
    obtain ⟨hanswers, hothers⟩ := answers_of_step hbefore hafter
    exact he hbefore hanswers t' f (hothers t' f hf hwaits) hwaits

theorem stopped_init (n pipeline : Nat) : (init n pipeline).Stopped false := by
  have hidle : Stopped false { init n pipeline with stack := fun _ => [] } :=
    ⟨fun _ => List.forall_mem_nil _, List.forall_mem_nil _, List.forall_mem_nil _⟩
  exact hidle.of_stack rfl (List.forall_mem_singleton.mpr trivial) hidle.acquiring hidle.sending

/-! ### Callbacks that run at once -/

/-- The flags are those of a push state. -/
structure Follows (s : State n) (ps : ReplicationPushState) : Prop where
  sentResponse : s.sentResponse = ps.sentResponse
  finishedSending : s.finishedSending = ps.finishedSending

theorem step_callback {t : Fin n} {err : Error} {last : Bool} {point : Point} {rest : List Frame}
    (hstack : s.stack t = .callback err last point :: rest) (how : Sending) :
    s.step (.run t how) = s.stepCallback t how err last rest point := by
  rw [State.step, stepThread, hstack]

/-- The load and the exchange of a callback with an error, one right after the other. -/
theorem step_step_callback {t : Fin n} {err : Error} {last : Bool} {rest : List Frame}
    (hstack : s.stack t = .callback err last .start :: rest) (herr : err ≠ .ok)
    (hflag : s.sentResponse = false) (how : Sending) :
    (s.step (.run t how)).step (.run t how) = (s.answer err).setStack t rest := by
  have hload : s.step (.run t how) = s.setStack t (.callback err last .loaded :: rest) := by
    rw [step_callback hstack, stepCallback, hflag, if_neg Bool.false_ne_true]
  have hloaded : (s.setStack t (.callback err last .loaded :: rest)).stack t =
      .callback err last .loaded :: rest := Function.update_self ..
  rw [hload, step_callback hloaded, stepCallback, if_neg (by simp [herr, setStack, hflag])]
  simp [setStack, answer, hflag]

end State

section

variable {Hash DB : Type} [Database DB]

theorem pushStates_sendE2EError (c : Core Hash DB) (dst : PeerId) (id : TransactionID) (err : Error) :
    (c.sendE2EError dst id err).1.pushStates = c.pushStates := by
  unfold Core.sendE2EError Core.sendToPeer
  split
  · rfl
  · split_ifs <;> rfl

theorem State.Follows.e2eCallbackError {n : Nat} {s : State n} {c : Core Hash DB} {k : Nat}
    {ps : ReplicationPushState} (hps : c.pushStates[k]? = some ps) (h : s.Follows ps) {err : Error}
    (herr : err ≠ .ok) {last : Bool} {t : Fin n} {rest : List Frame}
    (hstack : s.stack t = .callback err last .start :: rest) (how : Sending) (o : CoreOracle) :
    ∃ steps ps', (c.e2eCallbackError o err (.sendNextReplicationState k last)).pushStates[k]? = some ps' ∧
      ((List.replicate steps (Event.run t how)).foldl State.step s).Follows ps' ∧
      ((List.replicate steps (Event.run t how)).foldl State.step s).stack t = rest := by
  rw [Core.e2eCallbackError, hps]
  dsimp only
  cases hsent : ps.sentResponse with
  | true =>
    have hreturn : s.step (.run t how) = s.setStack t rest := by
      rw [State.step_callback hstack, State.stepCallback, h.sentResponse, if_pos hsent]
    refine ⟨1, ps, hps, ?_⟩
    rw [List.replicate_one, List.foldl_cons, hreturn]
    exact ⟨⟨h.sentResponse, h.finishedSending⟩, Function.update_self ..⟩
  | false =>
    have hanswer := State.step_step_callback hstack herr (h.sentResponse.trans hsent) how
    have hk : k < c.pushStates.length := (List.getElem?_eq_some_iff.mp hps).1
    refine ⟨2, { ps with sentResponse := true }, ?_, ?_⟩
    · rw [if_neg Bool.false_ne_true, pushStates_sendE2EError, Core.setPushState,
        List.getElem?_set_self hk]
    · rw [List.replicate_succ, List.replicate_one, List.foldl_cons, List.foldl_cons, hanswer]
      exact ⟨⟨rfl, h.finishedSending⟩, Function.update_self ..⟩

end

/-! ### Whole replications -/

/-- Of one replication, whatever the order of the steps of its callbacks, the requester is sent at
    most one final status.  And as long as the flag is not set between a load and an exchange, a
    callback with an error neither goes on to acquire the mutex nor sends another push. -/
theorem push_failures_stop (n pipeline : Nat) (es : List (Event (n + 1))) :
    (es.foldl State.step (State.init n pipeline)).statuses.length ≤ 1 ∧
      (Along State.step State.Undisturbed (State.init n pipeline) es →
        (∀ err ∈ (es.foldl State.step (State.init n pipeline)).acquiring, err = .ok) ∧
          ∀ err ∈ (es.foldl State.step (State.init n pipeline)).sending, err = .ok) := by
  constructor
  · have hinit : (State.init n pipeline).Once := rfl
    have honce := foldl_invariant (P := State.Once) (fun s e h => h.step e) hinit es
    rw [honce]
    split_ifs <;> omega
  · intro hes
    have hstopped := hes.invariant (P := fun s => s.Stopped s.sentResponse)
      (fun s e h he => h.step he) (State.stopped_init n pipeline)
    exact ⟨hstopped.acquiring, hstopped.sending⟩

namespace Sample

/-- The first thread of three sends two pushes and releases the mutex. -/
def start : List (Event 3) :=
  [.run 0 (.sent false), .run 0 (.sent false), .run 0 (.sent false)]

/-- The target has refused both pushes.  One callback is done before the other starts. -/
def oneAfterTheOther : List (Event 3) :=
  start ++ [.call 1 0 .replicateReplicationSequence, .run 1 (.sent false), .run 1 (.sent false),
    .call 2 0 .replicateReplicationSequence, .run 2 (.sent false)]

theorem push_failures_stop_refused :
    ((oneAfterTheOther.foldl State.step (State.init 2 2)).statuses = [.replicateReplicationSequence] ∧
      Along State.step State.Undisturbed (State.init 2 2) oneAfterTheOther) ∧
      (∀ err ∈ (oneAfterTheOther.foldl State.step (State.init 2 2)).acquiring, err = .ok) ∧
        ∀ err ∈ (oneAfterTheOther.foldl State.step (State.init 2 2)).sending, err = .ok :=
  have h : (oneAfterTheOther.foldl State.step (State.init 2 2)).statuses =
      [.replicateReplicationSequence] ∧
      Along State.step State.Undisturbed (State.init 2 2) oneAfterTheOther := by decide +kernel
  ⟨h, (push_failures_stop 2 2 oneAfterTheOther).2 h.2⟩

def bothLoad : List (Event 3) :=
  start ++ [.call 1 0 .replicateReplicationSequence, .call 2 0 .replicateReplicationSequence,
    .run 1 (.sent false), .run 2 (.sent false), .run 2 (.sent false),
    .run 1 (.sent false), .run 1 (.sent false), .run 1 (.sent false)]

local instance neZero_two : NeZero 2 := ⟨two_ne_zero⟩

/-- The peer is reset while the handler sends its second push, which fails. -/
def resetMeanwhile : List (Event 2) :=
  [.run 0 (.sent false), .call 1 0 .coreE2ETransactionReset,
    .run 0 (.sendFails false ⟨.peersSendBeforeConnect, by decide⟩), .run 0 (.sent false),
    .run 1 (.sent false), .run 1 (.sent false), .run 0 (.sent false)]

/-- After one status has been sent, a callback with an error acquires the mutex and sends another
    push; and one that is called inline waits for the mutex that its own thread holds. -/
theorem failed_push_goes_on :
    ((bothLoad.foldl State.step (State.init 2 2)).statuses = [.replicateReplicationSequence] ∧
      (bothLoad.foldl State.step (State.init 2 2)).acquiring = [.replicateReplicationSequence] ∧
      (bothLoad.foldl State.step (State.init 2 2)).sending = [.replicateReplicationSequence] ∧
      (bothLoad.foldl State.step (State.init 2 2)).outstanding.length = 1) ∧
    ((resetMeanwhile.foldl State.step (State.init 1 2)).statuses = [.coreE2ETransactionReset] ∧
      (resetMeanwhile.foldl State.step (State.init 1 2)).stack 0 =
        [.callback .peersSendBeforeConnect false .acquire, .handler 0] ∧
      (resetMeanwhile.foldl State.step (State.init 1 2)).mutex = some 0) := by
  decide +kernel

end Sample

end PushCallbacks

end SVR2
