import SVR2.Host.SequenceNumber
import SVR2.Lib.Chain
import SVR2.Lib.Runs

/-!
# Receiving from another host

`host/peer/server.go`: a `peerReceiver` passes the messages of one remote host on to the enclave.
It has one connection at a time, and keeps the number of the last message over all of them.
-/

namespace SVR2.Host

open Lib

inductive PeerInner where
  | syn (b : Bytes)
  | synack (b : Bytes)
  | data (b : Bytes)
  | rst (b : Bool)
  | notSet
deriving DecidableEq, Repr

structure PeerMessage where
  peerId : Bytes
  inner : PeerInner
deriving DecidableEq, Repr

/-- `pb.PeerConnectionData`, whose fields are pointers. -/
structure PeerConnectionData where
  msg : Option PeerMessage
  seqno : Option SequenceNumber
deriving DecidableEq, Repr

/-- `pb.PeerConnectionMessage`; a receiver only looks at data. -/
inductive PeerConnectionMessage where
  | data (d : PeerConnectionData)
  | other
deriving DecidableEq, Repr

inductive ConnError where
  | noSeqno
  | outOfOrder (expected got : SequenceNumber)
  | enclave
  | write
deriving DecidableEq, Repr

def makeSeqno : Option SequenceNumber → Except ConnError SequenceNumber
  | none => .error .noSeqno
  | some s => .ok s

structure PeerReceiver where
  remote : Bytes
  seqno : SequenceNumber := {}
  /-- history: what has been passed to `esender.Send`, with its number -/
  sent : List (SequenceNumber × PeerMessage) := []
  /-- history: the numbers for which a connection was given up -/
  refused : List SequenceNumber := []
deriving DecidableEq, Repr

namespace PeerReceiver

def updateSeqno (p : PeerReceiver) (seqno : SequenceNumber) :
    PeerReceiver × Except ConnError Bool :=
  if seqno.cmp p.seqno ≤ 0 then (p, .ok false)
  else if seqno.follows p.seqno = false then
    ({ p with refused := p.refused ++ [seqno] }, .error (.outOfOrder p.seqno.next seqno))
  else ({ p with seqno := seqno }, .ok true)

/-- What the enclave and the connection answer while a message is handled. -/
structure Answers where
  sendOk : Bool := true
  ackOk : Bool := true
deriving DecidableEq, Repr

/-- How a turn of the read loop ends: with the next one, with the end of the connection, or with
    the end of the process. -/
inductive Turn where
  | goOn (ack : Option SequenceNumber)
  | close (err : ConnError)
  | crash
deriving DecidableEq, Repr

def writeAck (env : Answers) (ack : SequenceNumber) : Turn :=
  if env.ackOk then .goOn (some ack) else .close .write

/-- One turn of the loop of `handleConnection`. -/
def handleMessage (p : PeerReceiver) (pcm : PeerConnectionMessage) (env : Answers) :
    PeerReceiver × Turn :=
  match pcm with
  | .other => (p, .goOn none)
  | .data d =>
    match makeSeqno d.seqno with
    | .error err => (p, .close err)
    | .ok msgSeqno =>
      match p.updateSeqno msgSeqno with
      | (p, .error err) => (p, .close err)
      | (p, .ok false) => (p, writeAck env p.seqno)
      | (p, .ok true) =>
        match d.msg with
        -- `msg.Data.Msg.Inner` reads through a nil pointer
        | none => (p, .crash)
        | some msg =>
          let u : PeerMessage := { peerId := p.remote, inner := msg.inner }
          let p := { p with sent := p.sent ++ [(msgSeqno, u)] }
          if env.sendOk then (p, writeAck env msgSeqno) else (p, .close .enclave)

/-- A turn moves the number on, and passes at most this message on, or leaves both alone. -/
theorem handleMessage_cases (p : PeerReceiver) (pcm : PeerConnectionMessage) (env : Answers) :
    (∃ d n, pcm = .data d ∧ d.seqno = some n ∧ n.follows p.seqno = true ∧ 0 < n.cmp p.seqno ∧
      (p.handleMessage pcm env).1.seqno = n ∧
      ((p.handleMessage pcm env).1.sent = p.sent ∧ (p.handleMessage pcm env).2 = .crash ∨
        ∃ u, (p.handleMessage pcm env).1.sent = p.sent ++ [(n, u)])) ∨
    (p.handleMessage pcm env).1.seqno = p.seqno ∧ (p.handleMessage pcm env).1.sent = p.sent := by
  cases pcm with
  | other => exact .inr ⟨rfl, rfl⟩
  | data d =>
    obtain ⟨msg, _ | n⟩ := d
    · exact .inr ⟨rfl, rfl⟩
    simp only [handleMessage, makeSeqno]
    by_cases hcmp : n.cmp p.seqno ≤ 0
    · rw [updateSeqno, if_pos hcmp]
      exact .inr ⟨rfl, rfl⟩
    by_cases hfollows : n.follows p.seqno = true
    · rw [updateSeqno, if_neg hcmp, if_neg (Bool.not_eq_false _ ▸ hfollows)]
      refine .inl ⟨_, n, rfl, rfl, hfollows, not_le.mp hcmp, ?_⟩
      cases msg with
      | none => exact ⟨rfl, .inl ⟨rfl, rfl⟩⟩
      | some msg =>
        dsimp only
        split_ifs <;> exact ⟨rfl, .inr ⟨_, rfl⟩⟩
    · rw [updateSeqno, if_neg hcmp, if_pos (Bool.not_eq_true _ ▸ hfollows)]
      exact .inr ⟨rfl, rfl⟩

end PeerReceiver

/-! ### Connection after connection -/

inductive Handler where
  | idle
  | running
  | crashed
deriving DecidableEq, Repr

/-- A receiver and the loop that gives it one connection after the other. -/
structure ReceiveLoop where
  receiver : PeerReceiver
  handler : Handler := .idle
deriving DecidableEq, Repr

inductive ReceiveEvent where
  /-- a new connection replaces the old one; whether the hello ack can be written -/
  | connect (helloOk : Bool)
  | message (pcm : PeerConnectionMessage) (env : PeerReceiver.Answers)
  | disconnect
deriving DecidableEq, Repr

namespace ReceiveLoop

/-- `receiveLoop` waits for the old handler before it starts the next one, so there is never
    more than one that handles messages. -/
def step (s : ReceiveLoop) (e : ReceiveEvent) : ReceiveLoop :=
  match s.handler, e with
  | .crashed, _ => s
  | _, .connect helloOk => { s with handler := if helloOk then .running else .idle }
  | _, .disconnect => { s with handler := .idle }
  | .idle, .message .. => s
  | .running, .message pcm env =>
    match s.receiver.handleMessage pcm env with
    | (p, .goOn _) => { s with receiver := p }
    | (p, .close _) => { receiver := p, handler := .idle }
    | (p, .crash) => { receiver := p, handler := .crashed }

/-- The numbers of the messages passed to the enclave, oldest first. -/
def numbers (s : ReceiveLoop) : List SequenceNumber := s.receiver.sent.map Prod.fst

/-- The counter of the last message has reached its end, and its successor arrives. -/
def Wraps (s : ReceiveLoop) : ReceiveEvent → Prop
  | .message (.data d) _ =>
    s.receiver.seqno.seq + 1 = 0 ∧ d.seqno = some s.receiver.seqno.next
  | _ => False

instance (s : ReceiveLoop) : ∀ e, Decidable (s.Wraps e)
  | .message (.data _) _ => inferInstanceAs (Decidable (_ ∧ _))
  | .message .other _ => .isFalse id
  | .connect _ => .isFalse id
  | .disconnect => .isFalse id

/-- The messages passed on are numbered one after the other, and the receiver knows the last
    number as long as it runs. -/
structure InOrder (s : ReceiveLoop) : Prop where
  chain : ({} :: s.numbers).IsChain SequenceNumber.Next
  last : s.handler ≠ .crashed → s.numbers.getLastD {} = s.receiver.seqno

theorem InOrder.start (remote : Bytes) : InOrder { receiver := { remote := remote } } where
  chain := List.isChain_singleton _
  last _ := rfl

theorem InOrder.message {s : ReceiveLoop} (h : InOrder s) (hrunning : s.handler = .running)
    (pcm : PeerConnectionMessage) (env : PeerReceiver.Answers)
    (hwrap : ¬ s.Wraps (.message pcm env)) (handler : Handler)
    (hcrash : (s.receiver.handleMessage pcm env).2 = .crash → handler = .crashed) :
    InOrder { receiver := (s.receiver.handleMessage pcm env).1, handler := handler } := by
  have hlast := h.last (by rw [hrunning]; nofun)
  rcases s.receiver.handleMessage_cases pcm env with
    ⟨d, n, rfl, hn, hfollows, -, hseqno, hsent | ⟨u, hsent⟩⟩ | ⟨hseqno, hsent⟩
  · refine ⟨?_, fun hne => absurd (hcrash hsent.2) hne⟩
    rw [numbers, hsent.1]
    exact h.chain
  · have hnext : SequenceNumber.Next s.receiver.seqno n :=
      SequenceNumber.next_of_follows hfollows fun hw => hwrap ⟨hw.1, hn.trans (congrArg some hw.2)⟩
    refine ⟨?_, fun _ => ?_⟩ <;> rw [numbers, hsent, List.map_append, List.map_singleton]
    · exact isChain_cons_snoc.mpr ⟨h.chain, hlast ▸ hnext⟩
    · rw [getLastD_append, hseqno]
      rfl
  · refine ⟨?_, fun _ => ?_⟩ <;> rw [numbers, hsent]
    · exact h.chain
    · rw [hseqno]
      exact hlast

theorem InOrder.step {s : ReceiveLoop} (h : InOrder s) (e : ReceiveEvent) (hwrap : ¬ s.Wraps e) :
    InOrder (s.step e) := by
  unfold ReceiveLoop.step
  split
  · exact h
  · rename_i hne
    exact ⟨h.chain, fun _ => h.last hne⟩
  · rename_i hne
    exact ⟨h.chain, fun _ => h.last hne⟩
  · exact h
  · rename_i pcm env hrunning
    have hmessage := h.message hrunning pcm env hwrap
    split <;> rename_i hturn <;> rw [hturn] at hmessage
    · exact hmessage _ nofun
    · exact hmessage _ nofun
    · exact hmessage _ fun _ => rfl

/-- Over any connections and any messages on them, as long as no counter runs out, the messages
    that a receiver passes to the enclave are numbered in increasing order, each number the
    successor of the last one or the number 0 of a greater epoch, and no number comes twice. -/
theorem delivered_in_order (remote : Bytes) (es : List ReceiveEvent)
    (hwrap : Along step (fun s e => ¬ s.Wraps e) { receiver := { remote := remote } } es) :
    let s := es.foldl step { receiver := { remote := remote } }
    s.numbers.Pairwise (· < ·) ∧ ({} :: s.numbers).IsChain SequenceNumber.Next ∧
      s.numbers.Nodup := by
  have h : InOrder _ := hwrap.invariant (fun s e hs hw => hs.step e hw) (InOrder.start remote)
  have hsorted : (({} : SequenceNumber) :: (es.foldl step _).numbers).Pairwise (· < ·) :=
    List.isChain_iff_pairwise.mp (h.chain.imp fun _ _ => SequenceNumber.Next.lt)
  have htail := (List.pairwise_cons.mp hsorted).2
  exact ⟨htail, h.chain, htail.imp ne_of_lt⟩

/-- Two connections: a number arrives twice, then a gap ends the first one; on the second a new
    epoch starts, and a number of the epoch between them arrives late. -/
def sampleEvents : List ReceiveEvent :=
  let message (epoch : UInt32) (seq : UInt64) : ReceiveEvent :=
    .message (.data ⟨some ⟨[], .data []⟩, some ⟨epoch, seq⟩⟩) {}
  [.connect true, message 0 1, message 0 1, message 0 5, message 0 2,
   .connect true, message 0 2, message 2 0, message 1 0, .connect true, message 2 1]

theorem delivered_in_order_sampleEvents :
    let s := sampleEvents.foldl step { receiver := { remote := [] } }
    s.numbers = [⟨0, 1⟩, ⟨0, 2⟩, ⟨2, 0⟩, ⟨2, 1⟩] ∧
      s.numbers.Pairwise (· < ·) ∧ ({} :: s.numbers).IsChain SequenceNumber.Next ∧
      s.numbers.Nodup :=
  ⟨by decide +kernel, delivered_in_order [] sampleEvents (by decide +kernel)⟩

end ReceiveLoop

end SVR2.Host
