import Mathlib.Logic.Function.Basic
import Mathlib.Tactic.SplitIfs
import SVR2.Lib.Runs

/-!
# Reply channels

`host/dispatch/dispatcher.go`: `Send` hands a message to a worker together with a channel, on which
it waits for the reply of the enclave.  The channel of a request is registered under the request's
id, and whoever takes it out of the map, the worker after a failure or the loop that forwards a
response, closes it.  The steps of all of them interleave in any order.
-/

namespace SVR2.Host

open Lib

/-- What matters of a message that is sent: its request id, if it is a request to the enclave. -/
structure Outgoing where
  requestId : Nat
  expectReply : Bool
deriving DecidableEq

/-- A channel: how many messages were sent on it and how often it was closed. -/
structure Channel where
  messages : Nat := 0
  closes : Nat := 0
deriving DecidableEq

/-- Where the worker is that forwards a message: it has not begun, is in `SendMessage`, has seen it
    fail, is about to close a channel, or has returned, with or without an error. -/
inductive Worker where
  | waiting
  | sending
  | failed
  | closing (recv : Nat) (err : Bool)
  | returned (err : Bool)
deriving DecidableEq

/-- Where an execution of `forwardToHost` is: none runs, it has taken a channel out of the map, or it
    has sent the response and is about to close the channel. -/
inductive Forward where
  | idle
  | taken (recv : Nat)
  | sent (recv : Nat)
deriving DecidableEq

def Forward.recv? : Forward → Option Nat
  | .idle => none
  | .taken recv => some recv
  | .sent recv => some recv

/-- The dispatcher with everything that runs in it.  The messages are numbered in the order of
    `Send`, and number `i` has channel `i`.  `responded` records for which of them a response has
    been looked up since they were handed to a worker. -/
structure Dispatcher where
  receivers : Nat → Option Nat := fun _ => none
  workers : Nat → Worker := fun _ => .waiting
  forwards : Nat → Forward := fun _ => .idle
  channels : Nat → Channel := fun _ => {}
  responded : Nat → Bool := fun _ => false
  panicked : Bool := false

/-- What may happen next: a worker begins, `SendMessage` returns, the worker deletes its receiver or
    closes a channel, an execution of `forwardToHost` begins with a response, sends it, or closes the
    channel. -/
inductive DispatchEvent where
  | begin (i : Nat)
  | sendReturns (i : Nat) (err : Bool)
  | deleteReceiver (i : Nat)
  | close (i : Nat)
  | forward (h : Nat) (requestId : Nat)
  | reply (h : Nat)
  | closeReply (h : Nat)
deriving DecidableEq

namespace Dispatcher

def sendOn (d : Dispatcher) (c : Nat) : Dispatcher :=
  if (d.channels c).closes ≠ 0 then { d with panicked := true }
  else { d with
    channels := Function.update d.channels c
      { d.channels c with messages := (d.channels c).messages + 1 } }

def closeChannel (d : Dispatcher) (c : Nat) : Dispatcher :=
  if (d.channels c).closes ≠ 0 then { d with panicked := true }
  else { d with
    channels := Function.update d.channels c
      { d.channels c with closes := (d.channels c).closes + 1 } }

section

variable (msgs : Nat → Outgoing)

/-- `forwardToEnclave` for message `i`, up to `SendMessage`. -/
def begin (d : Dispatcher) (i : Nat) : Dispatcher :=
  match d.workers i with
  | .waiting =>
    { d with
      receivers := if (msgs i).expectReply
        then Function.update d.receivers (msgs i).requestId (some i) else d.receivers
      workers := Function.update d.workers i .sending }
  | _ => d

def sendReturns (d : Dispatcher) (i : Nat) (err : Bool) : Dispatcher :=
  match d.workers i with
  | .sending =>
    { d with
      workers := Function.update d.workers i
        (if (msgs i).expectReply then (if err then .failed else .returned false)
          else .closing i err) }
  | _ => d

/-- `deleteReceiver` on the failure path. -/
def workerDeletes (d : Dispatcher) (i : Nat) : Dispatcher :=
  match d.workers i with
  | .failed =>
    { d with
      receivers := Function.update d.receivers (msgs i).requestId none
      workers := Function.update d.workers i (match d.receivers (msgs i).requestId with
        | none => .returned true
        | some recv => .closing recv true) }
  | _ => d

def workerCloses (d : Dispatcher) (i : Nat) : Dispatcher :=
  match d.workers i with
  | .closing recv err =>
    { d.closeChannel recv with workers := Function.update d.workers i (.returned err) }
  | _ => d

/-- `forwardToHost` begins with a response: `deleteReceiver`, after which it returns an error if
    there is no channel. -/
def forward (d : Dispatcher) (h requestId : Nat) : Dispatcher :=
  match d.forwards h with
  | .idle =>
    { d with
      receivers := Function.update d.receivers requestId none
      forwards := Function.update d.forwards h (match d.receivers requestId with
        | none => .idle
        | some recv => .taken recv)
      responded := fun i => d.responded i ||
        decide ((msgs i).expectReply ∧ (msgs i).requestId = requestId ∧ d.workers i ≠ .waiting) }
  | _ => d

def reply (d : Dispatcher) (h : Nat) : Dispatcher :=
  match d.forwards h with
  | .taken recv => { d.sendOn recv with forwards := Function.update d.forwards h (.sent recv) }
  | _ => d

def closeReply (d : Dispatcher) (h : Nat) : Dispatcher :=
  match d.forwards h with
  | .sent recv => { d.closeChannel recv with forwards := Function.update d.forwards h .idle }
  | _ => d

/-- One event; one that cannot happen changes nothing. -/
def act (d : Dispatcher) : DispatchEvent → Dispatcher
  | .begin i => d.begin msgs i
  | .sendReturns i err => d.sendReturns msgs i err
  | .deleteReceiver i => d.workerDeletes msgs i
  | .close i => d.workerCloses i
  | .forward h requestId => d.forward msgs h requestId
  | .reply h => d.reply h
  | .closeReply h => d.closeReply h

/-- A panic ends the host. -/
def step (d : Dispatcher) (e : DispatchEvent) : Dispatcher := if d.panicked then d else d.act msgs e

def run (events : List DispatchEvent) : Dispatcher := events.foldl (step msgs) {}

end

/-- What `SendMessage` has returned to the worker of message `i`: whether it failed. -/
def sendMessageErr (d : Dispatcher) (i : Nat) : Option Bool :=
  match d.workers i with
  | .waiting => none
  | .sending => none
  | .failed => some true
  | .closing _ err => some err
  | .returned err => some err

/-! ### Every channel has one holder -/

def UniqueIds (msgs : Nat → Outgoing) : Prop :=
  ∀ i j, (msgs i).expectReply = true → (msgs j).expectReply = true →
    (msgs i).requestId = (msgs j).requestId → i = j

inductive Holder where
  | send
  | map
  | worker
  | forward (h : Nat)
  | nobody
deriving DecidableEq

/-- What the place of the worker says about the holder of its channel. -/
def WorkerOk (m : Outgoing) (i : Nat) (holder : Holder) : Worker → Prop
  | .waiting => holder = .send
  | .sending => holder ≠ .send ∧ (if m.expectReply then holder ≠ .worker else holder = .worker)
  | .failed => m.expectReply = true ∧ holder ≠ .send ∧ holder ≠ .worker
  | .closing recv _ => recv = i ∧ holder = .worker
  | .returned err => holder ≠ .send ∧ holder ≠ .worker ∧
      (m.expectReply = false → holder = .nobody) ∧ (err = true → holder ≠ .map)

/-- The worker does not notice that a channel is taken out of the map or closed by another. -/
theorem WorkerOk.pass {m : Outgoing} {i : Nat} {x y : Holder} {w : Worker} (h : WorkerOk m i x w)
    (hsend : x ≠ .send) (hworker : x ≠ .worker) (hnobody : x ≠ .nobody)
    (hsend' : y ≠ .send) (hworker' : y ≠ .worker) (hmap' : y ≠ .map) : WorkerOk m i y w := by
  cases w with
  | waiting => exact absurd h hsend
  | sending =>
    rw [WorkerOk] at h ⊢
    split_ifs at h ⊢ with hreply
    · exact ⟨hsend', hworker'⟩
    · exact absurd h.2 hworker
  | failed => exact ⟨h.1, hsend', hworker'⟩
  | closing recv err => exact absurd h.2 hworker
  | returned err =>
    exact ⟨hsend', hworker', fun hreply => absurd (h.2.2.1 hreply) hnobody, fun _ => hmap'⟩

def ChannelOk (forwards : Nat → Forward) (i : Nat) (channel : Channel) : Holder → Prop
  | .forward h => channel.closes = 0 ∧ channel.messages = if forwards h = .sent i then 1 else 0
  | .nobody => channel.closes = 1 ∧ channel.messages ≤ 1
  | _ => channel.closes = 0 ∧ channel.messages = 0

structure Held (msgs : Nat → Outgoing) (d : Dispatcher) (holder : Nat → Holder) : Prop where
  map : ∀ id i, d.receivers id = some i ↔
    holder i = .map ∧ (msgs i).expectReply = true ∧ (msgs i).requestId = id
  map_reply : ∀ i, holder i = .map → (msgs i).expectReply = true
  worker : ∀ i, WorkerOk (msgs i) i (holder i) (d.workers i)
  forward : ∀ h i, (d.forwards h).recv? = some i ↔ holder i = .forward h
  channel : ∀ i, ChannelOk d.forwards i (d.channels i) (holder i)
  responded : ∀ i, d.responded i = true →
    (msgs i).expectReply = true ∧ holder i ≠ .send ∧ holder i ≠ .map
  running : d.panicked = false

namespace Held

variable {msgs : Nat → Outgoing} {d : Dispatcher} {holder : Nat → Holder}

/-- A step that only touches channel `i`, and may pass it to another holder. -/
theorem pass (hd : Held msgs d holder) {d' : Dispatcher} (i : Nat) (x : Holder)
    (hmap : ∀ id j, d'.receivers id = some j ↔
      if j = i then x = .map ∧ (msgs i).requestId = id else d.receivers id = some j)
    (hreply : x = .map → (msgs i).expectReply = true)
    (hworkers : ∀ j, j ≠ i → d'.workers j = d.workers j)
    (hworker : WorkerOk (msgs i) i x (d'.workers i))
    (hforward : ∀ h j, (d'.forwards h).recv? = some j ↔
      if j = i then x = .forward h else (d.forwards h).recv? = some j)
    (hsent : ∀ h j, j ≠ i → (d'.forwards h = .sent j ↔ d.forwards h = .sent j))
    (hchannels : ∀ j, j ≠ i → d'.channels j = d.channels j)
    (hchannel : ChannelOk d'.forwards i (d'.channels i) x)
    (hothers : ∀ j, j ≠ i → d'.responded j = true → d.responded j = true)
    (hresponded : d'.responded i = true → (msgs i).expectReply = true ∧ x ≠ .send ∧ x ≠ .map)
    (hrunning : d'.panicked = false) :
    Held msgs d' (Function.update holder i x) where
  map id j := by
    rw [hmap]
    split_ifs with hj
    · subst hj
      rw [Function.update_self]
      exact ⟨fun h => ⟨h.1, hreply h.1, h.2⟩, fun h => ⟨h.1, h.2.2⟩⟩
    · rw [Function.update_of_ne hj, hd.map]
  map_reply j hj := by
    by_cases hji : j = i
    · subst hji
      rw [Function.update_self] at hj
      exact hreply hj
    · rw [Function.update_of_ne hji] at hj
      exact hd.map_reply j hj
  worker j := by
    by_cases hji : j = i
    · subst hji
      rw [Function.update_self]
      exact hworker
    · rw [Function.update_of_ne hji, hworkers j hji]
      exact hd.worker j
  forward h j := by
    rw [hforward]
    split_ifs with hj
    · subst hj
      rw [Function.update_self]
    · rw [Function.update_of_ne hj, hd.forward]
  channel j := by
    by_cases hji : j = i
    · subst hji
      rw [Function.update_self]
      exact hchannel
    · have hold := hd.channel j
      rw [Function.update_of_ne hji, hchannels j hji]
      cases hholder : holder j with
      | forward h =>
        rw [hholder] at hold
        rw [ChannelOk] at hold ⊢
        simp only [hsent h j hji]
        exact hold
      | _ =>
        rw [hholder] at hold
        exact hold
  responded j hj := by
    by_cases hji : j = i
    · subst hji
      rw [Function.update_self]
      exact hresponded hj
    · rw [Function.update_of_ne hji]
      exact hd.responded j (hothers j hji hj)
  running := hrunning

theorem not_map (hd : Held msgs d holder) {i : Nat} (h : holder i ≠ .map) (id : Nat) :
    d.receivers id ≠ some i := fun hmap => h ((hd.map id i).mp hmap).1

theorem started (hd : Held msgs d holder) {i : Nat} (hworker : d.workers i ≠ .waiting) :
    holder i ≠ .send := by
  have hok := hd.worker i
  cases hw : d.workers i with
  | waiting => exact absurd hw hworker
  | sending =>
    rw [hw] at hok
    exact hok.1
  | failed =>
    rw [hw] at hok
    exact hok.2.1
  | closing recv err =>
    rw [hw] at hok
    rw [hok.2]
    nofun
  | returned err =>
    rw [hw] at hok
    exact hok.1

/-- Nothing has happened to a channel that neither `forwardToHost` has nor nobody. -/
theorem unused (hd : Held msgs d holder) {i : Nat}
    (hholder : holder i = .send ∨ holder i = .map ∨ holder i = .worker) :
    (d.channels i).closes = 0 ∧ (d.channels i).messages = 0 := by
  have hchannel := hd.channel i
  obtain h | h | h := hholder <;> rwa [h] at hchannel

theorem receivers_same (hd : Held msgs d holder) {i : Nat} {x : Holder} (hold : holder i ≠ .map)
    (hnew : x ≠ .map) (id j : Nat) : d.receivers id = some j ↔
      if j = i then x = .map ∧ (msgs i).requestId = id else d.receivers id = some j := by
  split_ifs with hj
  · subst hj
    exact iff_of_false (hd.not_map hold id) fun h => hnew h.1
  · rfl

theorem receivers_taken (hd : Held msgs d holder) {i : Nat} {x : Holder} {requestId : Nat}
    (hrecv : d.receivers requestId = some i) (hnew : x ≠ .map) (id j : Nat) :
    Function.update d.receivers requestId none id = some j ↔
      if j = i then x = .map ∧ (msgs i).requestId = id else d.receivers id = some j := by
  by_cases hid : id = requestId
  · subst hid
    rw [Function.update_self, hrecv]
    split_ifs with hj
    · exact iff_of_false nofun fun h => hnew h.1
    · exact iff_of_false nofun fun h => hj (Option.some.inj h).symm
  · rw [Function.update_of_ne hid]
    split_ifs with hj
    · subst hj
      refine iff_of_false (fun hmap => hid ?_) fun h => hnew h.1
      exact ((hd.map id j).mp hmap).2.2.symm.trans ((hd.map requestId j).mp hrecv).2.2
    · rfl

theorem forwards_same (hd : Held msgs d holder) {i h : Nat} {x : Holder}
    (hsame : holder i = .forward h ↔ x = .forward h) (j : Nat) :
    (d.forwards h).recv? = some j ↔
      if j = i then x = .forward h else (d.forwards h).recv? = some j := by
  split_ifs with hj
  · rw [hj, hd.forward, hsame]
  · rfl

theorem begin (hd : Held msgs d holder)
    (hunique : UniqueIds msgs) (i : Nat) :
    ∃ holder', Held msgs (d.begin msgs i) holder' := by
  rw [Dispatcher.begin]
  split
  case h_2 => exact ⟨holder, hd⟩
  rename_i hworker
  have hholder : holder i = .send := by
    have := hd.worker i
    rwa [hworker] at this
  have hresponded : d.responded i ≠ true := fun h => (hd.responded i h).2.1 hholder
  by_cases hreply : (msgs i).expectReply = true
  · refine ⟨_, hd.pass i .map ?_ (fun _ => hreply) ?_ ?_ ?_ (fun _ _ _ => Iff.rfl) (fun _ _ => rfl)
      (hd.unused (.inl hholder)) (fun _ _ h => h) (fun h => absurd h hresponded) hd.running⟩
    · intro id j
      dsimp only
      rw [if_pos hreply]
      by_cases hid : id = (msgs i).requestId
      · subst hid
        rw [Function.update_self, Option.some.injEq]
        split_ifs with hj
        · exact iff_of_true hj.symm ⟨rfl, rfl⟩
        · refine iff_of_false (Ne.symm hj) fun hmap => ?_
          obtain ⟨-, hreply', hid'⟩ := (hd.map _ _).mp hmap
          exact hj (hunique j i hreply' hreply hid')
      · rw [Function.update_of_ne hid]
        split_ifs with hj
        · subst hj
          exact iff_of_false (hd.not_map (by rw [hholder]; nofun) id) fun h => hid h.2.symm
        · rfl
    · exact fun j hj => Function.update_of_ne hj ..
    · dsimp only
      rw [Function.update_self, WorkerOk, if_pos hreply]
      exact ⟨nofun, nofun⟩
    · exact fun h => hd.forwards_same (by rw [hholder]; exact iff_of_false nofun nofun)
  · refine ⟨_, hd.pass i .worker ?_ nofun ?_ ?_ ?_ (fun _ _ _ => Iff.rfl) (fun _ _ => rfl)
      (hd.unused (.inl hholder)) (fun _ _ h => h) (fun h => absurd h hresponded) hd.running⟩
    · dsimp only
      rw [if_neg hreply]
      exact hd.receivers_same (by rw [hholder]; nofun) nofun
    · exact fun j hj => Function.update_of_ne hj ..
    · dsimp only
      rw [Function.update_self, WorkerOk, if_neg hreply]
      exact ⟨nofun, rfl⟩
    · exact fun h => hd.forwards_same (by rw [hholder]; exact iff_of_false nofun nofun)

theorem moveWorker (hd : Held msgs d holder) (i : Nat) {w : Worker}
    (hworker : WorkerOk (msgs i) i (holder i) w) :
    Held msgs { d with workers := Function.update d.workers i w } holder where
  map := hd.map
  map_reply := hd.map_reply
  worker j := by
    dsimp only
    by_cases hj : j = i
    · subst hj
      rw [Function.update_self]
      exact hworker
    · rw [Function.update_of_ne hj]
      exact hd.worker j
  forward := hd.forward
  channel := hd.channel
  responded := hd.responded
  running := hd.running

theorem sendReturns (hd : Held msgs d holder) (i : Nat) (err : Bool) :
    Held msgs (d.sendReturns msgs i err) holder := by
  rw [Dispatcher.sendReturns]
  split
  case h_2 => exact hd
  rename_i hworker
  refine hd.moveWorker i ?_
  have hok := hd.worker i
  rw [hworker, WorkerOk] at hok
  split_ifs at hok ⊢ with hreply herr
  · exact ⟨hreply, hok⟩
  · exact ⟨hok.1, hok.2, fun h => absurd hreply (by rw [h]; nofun), nofun⟩
  · exact ⟨rfl, hok.2⟩

theorem workerDeletes (hd : Held msgs d holder)
    (hunique : UniqueIds msgs) (i : Nat) :
    ∃ holder', Held msgs (d.workerDeletes msgs i) holder' := by
  rw [Dispatcher.workerDeletes]
  split
  case h_2 => exact ⟨holder, hd⟩
  rename_i hworker
  have hok := hd.worker i
  rw [hworker] at hok
  obtain ⟨hreply, hsend, hnotworker⟩ := hok
  cases hrecv : d.receivers (msgs i).requestId with
  | none =>
    have hnotmap : holder i ≠ .map := by
      intro hmap
      have := (hd.map (msgs i).requestId i).mpr ⟨hmap, hreply, rfl⟩
      rw [hrecv] at this
      exact Option.some_ne_none i this.symm
    refine ⟨holder, ?_⟩
    rw [Function.update_eq_self_iff.mpr hrecv.symm]
    exact hd.moveWorker i ⟨hsend, hnotworker, fun h => absurd hreply (by rw [h]; nofun),
      fun _ => hnotmap⟩
  | some recv =>
    -- request ids are unique, so the channel under this id is the worker's own
    obtain ⟨hmap, hreply', hid⟩ := (hd.map _ _).mp hrecv
    obtain rfl := hunique recv i hreply' hreply hid
    refine ⟨_, hd.pass recv .worker (hd.receivers_taken hrecv nofun) nofun ?_ ?_ ?_
      (fun _ _ _ => Iff.rfl) (fun _ _ => rfl) (hd.unused (.inr (.inl hmap))) (fun _ _ h => h)
      (fun _ => ⟨hreply, nofun, nofun⟩) hd.running⟩
    · exact fun j hj => Function.update_of_ne hj ..
    · dsimp only
      rw [Function.update_self]
      exact ⟨rfl, rfl⟩
    · exact fun h => hd.forwards_same (by rw [hmap]; exact iff_of_false nofun nofun)

theorem workerCloses (hd : Held msgs d holder) (i : Nat) :
    ∃ holder', Held msgs (d.workerCloses i) holder' := by
  rw [Dispatcher.workerCloses]
  split
  case h_2 => exact ⟨holder, hd⟩
  rename_i recv err hworker
  have hok := hd.worker i
  rw [hworker] at hok
  obtain ⟨rfl, hholder⟩ := hok
  obtain ⟨hcloses, hmessages⟩ := hd.unused (.inr (.inr hholder))
  rw [closeChannel, if_neg (not_not.mpr hcloses)]
  refine ⟨_, hd.pass recv .nobody (hd.receivers_same (by rw [hholder]; nofun) nofun) nofun ?_ ?_ ?_
    (fun _ _ _ => Iff.rfl) ?_ ?_ (fun _ _ h => h) ?_ hd.running⟩
  · exact fun j hj => Function.update_of_ne hj ..
  · dsimp only
    rw [Function.update_self]
    exact ⟨nofun, nofun, fun _ => rfl, fun _ => nofun⟩
  · exact fun h => hd.forwards_same (by rw [hholder]; exact iff_of_false nofun nofun)
  · exact fun j hj => Function.update_of_ne hj ..
  · dsimp only
    rw [Function.update_self, hcloses, hmessages]
    exact ⟨rfl, Nat.zero_le _⟩
  · exact fun h => ⟨(hd.responded recv h).1, nofun, nofun⟩

/-- A response without a receiver is dropped: the channel of a request that has been handed to a
    worker is then no longer in the map. -/
theorem dropped (hd : Held msgs d holder) {requestId : Nat} (hrecv : d.receivers requestId = none) :
    Held msgs { d with
      responded := fun i => d.responded i ||
        decide ((msgs i).expectReply ∧ (msgs i).requestId = requestId ∧ d.workers i ≠ .waiting) }
      holder := by
  refine ⟨hd.map, hd.map_reply, hd.worker, hd.forward, hd.channel, fun i hi => ?_, hd.running⟩
  obtain hi | hi := Bool.or_eq_true .. |>.mp hi
  · exact hd.responded i hi
  · obtain ⟨hreply, hid, hworker⟩ := of_decide_eq_true hi
    refine ⟨hreply, hd.started hworker, fun hmap => ?_⟩
    have := (hd.map requestId i).mpr ⟨hmap, hreply, hid⟩
    rw [hrecv] at this
    exact Option.some_ne_none i this.symm

theorem forwardToHost (hd : Held msgs d holder)
    (hunique : UniqueIds msgs) (h requestId : Nat) :
    ∃ holder', Held msgs (d.forward msgs h requestId) holder' := by
  rw [Dispatcher.forward]
  split
  case h_2 => exact ⟨holder, hd⟩
  rename_i hidle
  cases hrecv : d.receivers requestId with
  | none =>
    refine ⟨holder, ?_⟩
    rw [Function.update_eq_self_iff.mpr hrecv.symm, Function.update_eq_self_iff.mpr hidle.symm]
    exact hd.dropped hrecv
  | some recv =>
    obtain ⟨hmap, hreply, hid⟩ := (hd.map _ _).mp hrecv
    refine ⟨_, hd.pass recv (.forward h) (hd.receivers_taken hrecv nofun) nofun (fun _ _ => rfl) ?_
      ?_ ?_ (fun _ _ => rfl) ?_ ?_ (fun _ => ⟨hreply, nofun, nofun⟩) hd.running⟩
    · refine (hd.worker recv).pass ?_ ?_ ?_ nofun nofun nofun <;>
        · rw [hmap]
          nofun
    · intro h' j
      dsimp only
      by_cases hh : h' = h
      · subst hh
        rw [Function.update_self, Forward.recv?, hidle]
        split_ifs with hj
        · exact iff_of_true (congrArg some hj.symm) rfl
        · exact iff_of_false (fun h => hj (Option.some.inj h).symm) nofun
      · rw [Function.update_of_ne hh]
        refine hd.forwards_same ?_ j
        rw [hmap]
        exact iff_of_false nofun fun h => hh (Holder.forward.inj h).symm
    · intro h' j _
      dsimp only
      by_cases hh : h' = h
      · subst hh
        rw [Function.update_self, hidle]
        exact iff_of_false nofun nofun
      · rw [Function.update_of_ne hh]
    · dsimp only
      rw [ChannelOk, Function.update_self, if_neg nofun]
      exact hd.unused (.inr (.inl hmap))
    · intro j hj hresponded
      refine (Bool.or_eq_true .. |>.mp hresponded).resolve_right fun hnew => hj ?_
      obtain ⟨hreply', hid', -⟩ := of_decide_eq_true hnew
      exact hunique j recv hreply' hreply (hid'.trans hid.symm)

theorem reply (hd : Held msgs d holder) (h : Nat) : ∃ holder', Held msgs (d.reply h) holder' := by
  rw [Dispatcher.reply]
  split
  case h_2 => exact ⟨holder, hd⟩
  rename_i recv htaken
  have hholder : holder recv = .forward h := (hd.forward h recv).mp (by rw [htaken]; rfl)
  have hchannel := hd.channel recv
  rw [hholder, ChannelOk, htaken, if_neg nofun] at hchannel
  rw [sendOn, if_neg (not_not.mpr hchannel.1)]
  refine ⟨_, hd.pass recv (.forward h) (hd.receivers_same (by rw [hholder]; nofun) nofun) nofun
    (fun _ _ => rfl) (hholder ▸ hd.worker recv) ?_ ?_ ?_ ?_ (fun _ _ h => h)
    (fun h => ⟨(hd.responded recv h).1, nofun, nofun⟩) hd.running⟩
  · intro h' j
    dsimp only
    have hrecv : (Function.update d.forwards h (.sent recv) h').recv? = (d.forwards h').recv? := by
      by_cases hh : h' = h
      · rw [hh, Function.update_self, htaken]
        rfl
      · rw [Function.update_of_ne hh]
    rw [hrecv]
    exact hd.forwards_same (by rw [hholder]) j
  · intro h' j hj
    dsimp only
    by_cases hh : h' = h
    · rw [hh, Function.update_self, htaken]
      exact iff_of_false (fun h => hj (Forward.sent.inj h).symm) nofun
    · rw [Function.update_of_ne hh]
  · exact fun j hj => Function.update_of_ne hj ..
  · dsimp only
    rw [ChannelOk, Function.update_self, Function.update_self, if_pos rfl, hchannel.2]
    exact ⟨hchannel.1, rfl⟩

theorem closeReply (hd : Held msgs d holder) (h : Nat) :
    ∃ holder', Held msgs (d.closeReply h) holder' := by
  rw [Dispatcher.closeReply]
  split
  case h_2 => exact ⟨holder, hd⟩
  rename_i recv hsent
  have hholder : holder recv = .forward h := (hd.forward h recv).mp (by rw [hsent]; rfl)
  have hchannel := hd.channel recv
  rw [hholder, ChannelOk, hsent, if_pos rfl] at hchannel
  rw [closeChannel, if_neg (not_not.mpr hchannel.1)]
  refine ⟨_, hd.pass recv .nobody (hd.receivers_same (by rw [hholder]; nofun) nofun) nofun
    (fun _ _ => rfl) ?_ ?_ ?_ ?_ ?_ (fun _ _ h => h)
    (fun h => ⟨(hd.responded recv h).1, nofun, nofun⟩) hd.running⟩
  · refine (hd.worker recv).pass ?_ ?_ ?_ nofun nofun nofun <;>
      · rw [hholder]
        nofun
  · intro h' j
    dsimp only
    by_cases hh : h' = h
    · rw [hh, Function.update_self, hsent]
      split_ifs with hj
      · exact iff_of_false nofun nofun
      · exact iff_of_false nofun fun h => hj (Option.some.inj h).symm
    · rw [Function.update_of_ne hh]
      refine hd.forwards_same ?_ j
      rw [hholder]
      exact iff_of_false (fun h => hh (Holder.forward.inj h).symm) nofun
  · intro h' j hj
    dsimp only
    by_cases hh : h' = h
    · rw [hh, Function.update_self, hsent]
      exact iff_of_false nofun fun h => hj (Forward.sent.inj h).symm
    · rw [Function.update_of_ne hh]
  · exact fun j hj => Function.update_of_ne hj ..
  · dsimp only
    rw [Function.update_self, hchannel.1, hchannel.2]
    exact ⟨rfl, Nat.le_refl 1⟩

theorem step_eq (hd : Held msgs d holder) (e : DispatchEvent) : d.step msgs e = d.act msgs e := by
  rw [Dispatcher.step, if_neg (by rw [hd.running]; nofun)]

theorem step (hd : Held msgs d holder)
    (hunique : UniqueIds msgs) (e : DispatchEvent) :
    ∃ holder', Held msgs (d.step msgs e) holder' := by
  rw [hd.step_eq]
  cases e with
  | begin i => exact hd.begin hunique i
  | sendReturns i err => exact ⟨holder, hd.sendReturns i err⟩
  | deleteReceiver i => exact hd.workerDeletes hunique i
  | close i => exact hd.workerCloses i
  | forward h requestId => exact hd.forwardToHost hunique h requestId
  | reply h => exact hd.reply h
  | closeReply h => exact hd.closeReply h

end Held

/-- Some assignment of holders explains the state after every run. -/
theorem run_held {msgs : Nat → Outgoing}
    (hunique : UniqueIds msgs) (events : List DispatchEvent) :
    ∃ holder, Held msgs (run msgs events) holder := by
  refine foldl_invariant (P := fun d => ∃ holder, Held msgs d holder)
    (fun _ e ⟨_, hd⟩ => hd.step hunique e) ⟨fun _ => .send, ?_⟩ events
  exact
    { map := fun _ _ => iff_of_false nofun nofun
      map_reply := nofun
      worker := fun _ => rfl
      forward := fun _ _ => iff_of_false nofun nofun
      channel := fun _ => ⟨rfl, rfl⟩
      responded := nofun
      running := rfl }

namespace Held

variable {msgs : Nat → Outgoing} {d : Dispatcher} {holder : Nat → Holder}

theorem channel_bounds (hd : Held msgs d holder) (i : Nat) :
    (d.channels i).messages ≤ 1 ∧ (d.channels i).closes ≤ 1 := by
  have hchannel := hd.channel i
  cases hholder : holder i <;> rw [hholder] at hchannel
  case forward h =>
    rw [ChannelOk] at hchannel
    split_ifs at hchannel <;> omega
  case nobody => exact ⟨hchannel.2, Nat.le_of_eq hchannel.1⟩
  all_goals exact ⟨by rw [hchannel.2]; exact Nat.zero_le 1, by rw [hchannel.1]; exact Nat.zero_le 1⟩

theorem close_closes (hd : Held msgs d holder) {i recv : Nat} {err : Bool}
    (hworker : d.workers i = .closing recv err) :
    ((d.step msgs (.close i)).channels i).closes = 1 := by
  have hok := hd.worker i
  rw [hworker] at hok
  obtain ⟨rfl, hholder⟩ := hok
  have hcloses := (hd.unused (.inr (.inr hholder))).1
  rw [hd.step_eq, act, Dispatcher.workerCloses, hworker]
  dsimp only
  rw [closeChannel, if_neg (not_not.mpr hcloses)]
  dsimp only
  rw [Function.update_self, hcloses]

/-- The worker that has seen `SendMessage` fail closes its channel if that is still in the map. -/
theorem deleteReceiver_close_closes (hd : Held msgs d holder)
    (hunique : UniqueIds msgs) {i : Nat} (hworker : d.workers i = .failed)
    (hmap : holder i = .map) :
    (((d.step msgs (.deleteReceiver i)).step msgs (.close i)).channels i).closes = 1 := by
  obtain ⟨_, hd'⟩ := hd.step hunique (.deleteReceiver i)
  have hrecv : d.receivers (msgs i).requestId = some i :=
    (hd.map _ _).mpr ⟨hmap, hd.map_reply i hmap, rfl⟩
  have hworker' : (d.step msgs (.deleteReceiver i)).workers i = .closing i true := by
    rw [hd.step_eq, act, Dispatcher.workerDeletes, hworker]
    dsimp only
    rw [Function.update_self, hrecv]
  exact hd'.close_closes hworker'

/-- An execution of `forwardToHost` that has sent the response closes the channel. -/
theorem closeReply_closes (hd : Held msgs d holder) {h i : Nat} (hsent : d.forwards h = .sent i) :
    ((d.step msgs (.closeReply h)).channels i).closes = 1 := by
  have hchannel := hd.channel i
  rw [(hd.forward h i).mp (by rw [hsent]; rfl), ChannelOk] at hchannel
  rw [hd.step_eq, act, Dispatcher.closeReply, hsent]
  dsimp only
  rw [closeChannel, if_neg (not_not.mpr hchannel.1)]
  dsimp only
  rw [Function.update_self, hchannel.1]

/-- An execution of `forwardToHost` that has taken a channel closes it. -/
theorem reply_closeReply_closes (hd : Held msgs d holder)
    (hunique : UniqueIds msgs) {h i : Nat}
    (hholder : holder i = .forward h) :
    (((d.step msgs (.reply h)).step msgs (.closeReply h)).channels i).closes = 1 := by
  obtain ⟨_, hd'⟩ := hd.step hunique (.reply h)
  refine hd'.closeReply_closes ?_
  have hrecv := (hd.forward h i).mpr hholder
  rw [hd.step_eq, act, Dispatcher.reply]
  cases hforward : d.forwards h with
  | idle =>
    rw [hforward] at hrecv
    exact absurd hrecv.symm (Option.some_ne_none i)
  | taken recv =>
    rw [hforward] at hrecv
    obtain rfl := Option.some.inj hrecv
    exact Function.update_self ..
  | sent recv =>
    rw [hforward] at hrecv
    obtain rfl := Option.some.inj hrecv
    exact hforward

section

-- the channel of message `i` is due to be closed
variable {i : Nat} (hdue : d.responded i = true ∨ d.sendMessageErr i = some true ∨
  ((msgs i).expectReply = false ∧ d.sendMessageErr i = some false))

include hdue

theorem not_send_of_due (hd : Held msgs d holder) : holder i ≠ .send := by
  obtain hresponded | herr | ⟨-, herr⟩ := hdue
  · exact (hd.responded i hresponded).2.1
  all_goals
    refine hd.started fun hworker => ?_
    rw [sendMessageErr, hworker] at herr
    exact Option.some_ne_none _ herr.symm

/-- The channel is left in the map only for the worker that has seen `SendMessage` fail. -/
theorem failed_of_map (hd : Held msgs d holder) (hmap : holder i = .map) :
    d.workers i = .failed := by
  have hok := hd.worker i
  obtain hresponded | herr | ⟨hreply, -⟩ := hdue
  · exact absurd hmap (hd.responded i hresponded).2.2
  · rw [sendMessageErr] at herr
    cases hworker : d.workers i <;> rw [hworker] at hok herr
    case closing =>
      rw [hok.2] at hmap
      nomatch hmap
    case returned => exact absurd hmap (hok.2.2.2 (Option.some.inj herr))
    all_goals nomatch herr
  · exact absurd (hd.map_reply i hmap) (by rw [hreply]; nofun)

theorem closing_of_worker (hd : Held msgs d holder) (hholder : holder i = .worker) :
    ∃ err, d.workers i = .closing i err := by
  have hok := hd.worker i
  cases hworker : d.workers i with
  | waiting =>
    rw [hworker, hholder] at hok
    nomatch hok
  | sending =>
    rw [hworker, WorkerOk] at hok
    split_ifs at hok with hreply
    · exact absurd hholder hok.2
    · -- only a message without a reply is still the worker's, and it is not due yet
      obtain hresponded | herr | ⟨-, herr⟩ := hdue
      · exact absurd (hd.responded i hresponded).1 hreply
      all_goals
        rw [sendMessageErr, hworker] at herr
        nomatch herr
  | failed =>
    rw [hworker] at hok
    exact absurd hholder hok.2.2
  | closing recv err =>
    rw [hworker] at hok
    exact ⟨err, by rw [hok.1]⟩
  | returned err =>
    rw [hworker] at hok
    exact absurd hholder hok.2.1

end

end Held

/-- No run sends on a closed channel or closes one twice.  Every channel gets at most one message,
    and once a response was looked up for it, `SendMessage` failed, or returned for a message without
    a reply, the channel is closed, or the worker or `forwardToHost` is about to close it. -/
theorem reply_channel_closed_once (msgs : Nat → Outgoing)
    (hunique : UniqueIds msgs) (events : List DispatchEvent) :
    (run msgs events).panicked = false ∧ ∀ i,
      ((run msgs events).channels i).messages ≤ 1 ∧ ((run msgs events).channels i).closes ≤ 1 ∧
      ((run msgs events).responded i = true ∨ (run msgs events).sendMessageErr i = some true ∨
          ((msgs i).expectReply = false ∧ (run msgs events).sendMessageErr i = some false) →
        ((run msgs events).channels i).closes = 1 ∨
        ((run msgs events).workers i = .failed ∧
          ((run msgs (events ++ [.deleteReceiver i, .close i])).channels i).closes = 1) ∨
        (∃ err, (run msgs events).workers i = .closing i err ∧
          ((run msgs (events ++ [.close i])).channels i).closes = 1) ∨
        ∃ h, ((run msgs events).forwards h).recv? = some i ∧
          ((run msgs (events ++ [.reply h, .closeReply h])).channels i).closes = 1) := by
  obtain ⟨holder, hd⟩ := run_held hunique events
  refine ⟨hd.running, fun i => ⟨(hd.channel_bounds i).1, (hd.channel_bounds i).2, fun hdue => ?_⟩⟩
  simp only [run, List.foldl_append, List.foldl_cons, List.foldl_nil]
  rw [← run]
  cases hholder : holder i with
  | send => exact absurd hholder (hd.not_send_of_due hdue)
  | map =>
    have hworker := hd.failed_of_map hdue hholder
    exact .inr (.inl ⟨hworker, hd.deleteReceiver_close_closes hunique hworker hholder⟩)
  | worker =>
    obtain ⟨err, hworker⟩ := hd.closing_of_worker hdue hholder
    exact .inr (.inr (.inl ⟨err, hworker, hd.close_closes hworker⟩))
  | forward h =>
    exact .inr (.inr (.inr ⟨h, (hd.forward h i).mpr hholder,
      hd.reply_closeReply_closes hunique hholder⟩))
  | nobody =>
    have hchannel := hd.channel i
    rw [hholder] at hchannel
    exact .inl hchannel.1

/-- Two requests; all other messages expect no reply. -/
def sampleMessages : Nat → Outgoing
  | 0 => ⟨7, true⟩
  | 1 => ⟨8, true⟩
  | _ => ⟨0, false⟩

/-- The enclave answers the first request twice before `SendMessage` fails for it, answers an unknown
    id, and refuses the second request. -/
def sampleDispatch : List DispatchEvent :=
  [.begin 0, .forward 0 7, .begin 1, .sendReturns 0 true, .forward 1 7, .reply 0, .deleteReceiver 0,
    .closeReply 0, .close 0, .forward 0 99, .sendReturns 1 true, .deleteReceiver 1, .close 1]

theorem sampleMessages_unique : UniqueIds sampleMessages := by
  intro i j hi hj hid
  match i, j with
  | 0, 0 => rfl
  | 1, 1 => rfl
  | 0, 1 => nomatch hid
  | 1, 0 => nomatch hid
  | _ + 2, _ => nomatch hi
  | _, _ + 2 => nomatch hj

theorem reply_channel_closed_once_sampleDispatch :
    (run sampleMessages sampleDispatch).responded 0 = true ∧
      (run sampleMessages sampleDispatch).channels 0 = ⟨1, 1⟩ ∧
      (run sampleMessages sampleDispatch).sendMessageErr 1 = some true ∧
      (run sampleMessages sampleDispatch).channels 1 = ⟨0, 1⟩ ∧
      (run sampleMessages sampleDispatch).panicked = false :=
  ⟨by decide, by decide, by decide, by decide,
    (reply_channel_closed_once sampleMessages sampleMessages_unique sampleDispatch).1⟩

end Dispatcher

end SVR2.Host
