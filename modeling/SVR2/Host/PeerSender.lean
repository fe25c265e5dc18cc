import SVR2.Host.PeerReceiver

/-!
# Sending to another host

`host/peer/client.go`: a `peerSender` numbers the messages of its enclave, keeps those that have
not been acknowledged, and sends them again when it has lost its connection.  Here it runs against
one receiver.  Each side may leave a connection at any moment, and what is under way then may
still be read by the other.
-/

namespace SVR2.Host

open Lib

/-- The `pb.PeerConnectionData` that a sender builds: both its fields are set. -/
structure Numbered where
  msg : PeerMessage
  seqno : SequenceNumber
deriving DecidableEq, Repr

def Numbered.toData (d : Numbered) : PeerConnectionData := ⟨some d.msg, some d.seqno⟩

def numbers (l : List Numbered) : List SequenceNumber := l.map Numbered.seqno

@[simp] theorem numbers_nil : numbers [] = [] := rfl

@[simp] theorem numbers_cons (d : Numbered) (l : List Numbered) :
    numbers (d :: l) = d.seqno :: numbers l := rfl

@[simp] theorem numbers_append (l l' : List Numbered) : numbers (l ++ l') = numbers l ++ numbers l' :=
  List.map_append

def isEstablishing (msg : PeerMessage) : Bool :=
  match msg.inner with
  | .syn _ => true
  | .synack _ => true
  | _ => false

def isReset (msg : PeerMessage) : Bool :=
  match msg.inner with
  | .rst _ => true
  | _ => false

structure PeerSender where
  bufferSize : Nat
  pending : List Numbered := []
  lastAck : SequenceNumber := {}
  /-- the channel that `tx` points to -/
  tx : List PeerMessage := []
  /-- history: the numbers given to messages, oldest first -/
  assigned : List SequenceNumber := []
deriving DecidableEq, Repr

namespace PeerSender

/-- `queueMessage`: whether there was room. -/
def queueMessage (p : PeerSender) (msg : PeerMessage) : PeerSender × Bool :=
  let c := if isEstablishing msg || isReset msg then [] else p.tx
  if c.length < p.bufferSize then ({ p with tx := c ++ [msg] }, true)
  else ({ p with tx := c }, false)

/-- `processAck`; it fails when the ack goes backwards. -/
def processAck (p : PeerSender) (ack : SequenceNumber) : Option PeerSender :=
  if ack.cmp p.lastAck < 0 then none
  else some { p with
    pending := p.pending.dropWhile fun d => ¬ 0 < d.seqno.cmp ack
    lastAck := ack }

/-- A numbered message is kept for later; a handshake message makes those before it useless. -/
def keep (p : PeerSender) (d : Numbered) : PeerSender :=
  { p with
    pending := (if isEstablishing d.msg then [] else p.pending) ++ [d]
    assigned := p.assigned ++ [d.seqno] }

end PeerSender

/-- The local variables of `handleConnection` once the hello has been acknowledged. -/
structure Running where
  currentSeqno : SequenceNumber
  /-- the pending messages that are still to be sent again -/
  resend : List Numbered
  /-- `msgChan`, when `queueMessage` has replaced and closed it after it was loaded -/
  closed : Option (List PeerMessage) := none
deriving DecidableEq, Repr

inductive Phase where
  /-- the hello is written, and its ack not yet read -/
  | hello
  | running (c : Running)
deriving DecidableEq, Repr

/-- A connection: what is under way in either direction, oldest first, and whether the receiver
    has taken it up. -/
structure Link where
  toReceiver : List Numbered := []
  toSender : List SequenceNumber := []
  accepted : Bool := false
deriving DecidableEq, Repr

/-- A sender, the receiver it talks to, and the connections dialed so far. -/
structure Hosts where
  sender : PeerSender
  conn : Option (Nat × Phase) := none
  receiver : PeerReceiver
  serving : Option Nat := none
  links : Nat → Link := fun _ => {}
  dialed : Nat := 0

inductive HostEvent where
  /-- `queueMessage`, before or after the sender's loop has loaded `tx` for its next turn -/
  | queue (msg : PeerMessage) (loaded : Bool)
  /-- the sender connects anew and writes its hello -/
  | dial
  /-- the receiver takes up a connection; whether it can write the hello ack -/
  | accept (k : Nat) (helloOk : Bool)
  /-- the sender reads the hello ack -/
  | hello
  /-- the sender writes the next pending message; whether it can -/
  | resend (written : Bool)
  /-- the sender takes a message from its channel, numbers it and writes it; whether it can -/
  | send (written : Bool)
  /-- the sender handles an ack -/
  | ack
  | senderLeaves
  /-- the receiver reads the next message -/
  | deliver (env : PeerReceiver.Answers)
  | receiverLeaves
deriving DecidableEq, Repr

namespace Hosts

def setLink (s : Hosts) (k : Nat) (l : Link) : Hosts :=
  { s with links := fun j => if j = k then l else s.links j }

@[simp] theorem setLink_links_self (s : Hosts) (k : Nat) (l : Link) : (s.setLink k l).links k = l :=
  if_pos rfl

theorem setLink_links_ne (s : Hosts) {j k : Nat} (h : j ≠ k) (l : Link) :
    (s.setLink k l).links j = s.links j :=
  if_neg h

/-- The message that the select of `handleConnection` finds in its channel, and the channel that
    `tx` points to afterwards.  A closed channel is read to its end, and the loop then loads
    `tx` anew. -/
def takeMessage (s : Hosts) (c : Running) : Option (Option PeerMessage × List PeerMessage) :=
  match c.closed, s.sender.tx with
  | some (msg :: _), tx => some (some msg, tx)
  | some [], tx => some (none, tx)
  | none, msg :: tx => some (some msg, tx)
  | none, [] => none

/-- The number of the next message, before it is given to one: a handshake message starts the
    next epoch. -/
def nextNumber (c : Running) (msg : PeerMessage) : SequenceNumber :=
  if isEstablishing msg then c.currentSeqno.nextEpoch else c.currentSeqno

/-- The turn of `handleConnection`'s loop that numbers and sends a message. -/
def sendMessage (s : Hosts) (k : Nat) (c : Running) (msg : PeerMessage) (written : Bool) : Hosts :=
  let d : Numbered := { msg := msg, seqno := nextNumber c msg }
  let s := { s with sender := s.sender.keep d }
  if written then
    { s.setLink k { s.links k with toReceiver := (s.links k).toReceiver ++ [d] } with
      conn := some (k, .running { c with currentSeqno := d.seqno.next, closed := none }) }
  else { s with conn := none }

/-- What a turn of the receiver's loop sends back. -/
def answer (s : Hosts) (k : Nat) : PeerReceiver.Turn → Hosts
  | .goOn (some ack) => s.setLink k { s.links k with toSender := (s.links k).toSender ++ [ack] }
  | .goOn none => s
  | .close _ => { s with serving := none }
  | .crash => { s with serving := none }

def step (s : Hosts) : HostEvent → Hosts
  | .queue msg loaded =>
    let conn := match s.conn with
      | some (k, .running c) =>
        if (isEstablishing msg || isReset msg) && loaded && c.resend.isEmpty && c.closed.isNone then
          some (k, .running { c with closed := some s.sender.tx })
        else s.conn
      | conn => conn
    { s with sender := (s.sender.queueMessage msg).1, conn := conn }
  | .dial =>
    match s.conn with
    | some _ => s
    | none => { s with conn := some (s.dialed, .hello), dialed := s.dialed + 1 }
  | .accept k helloOk =>
    if k < s.dialed ∧ (s.links k).accepted = false then
      if helloOk then
        { s.setLink k { s.links k with accepted := true, toSender := [s.receiver.seqno] } with
          serving := some k }
      else { s.setLink k { s.links k with accepted := true } with serving := none }
    else s
  | .hello =>
    match s.conn with
    | some (k, .hello) =>
      match (s.links k).toSender with
      | [] => s
      | h :: rest =>
        let s := s.setLink k { s.links k with toSender := rest }
        match s.sender.processAck h with
        | none => { s with conn := none }
        | some p =>
          { s with
            sender := p
            conn := some (k, .running { currentSeqno := p.lastAck.next, resend := p.pending }) }
    | _ => s
  | .resend written =>
    match s.conn with
    | some (k, .running c) =>
      match c.resend with
      | [] => s
      | d :: rest =>
        if written then
          { s.setLink k { s.links k with toReceiver := (s.links k).toReceiver ++ [d] } with
            conn := some (k, .running { c with currentSeqno := c.currentSeqno.next, resend := rest }) }
        else { s with conn := none }
    | _ => s
  | .send written =>
    match s.conn with
    | some (k, .running c) =>
      if c.resend ≠ [] then s
      else match s.takeMessage c with
        | none => s
        | some (msg, tx) =>
          let s := { s with sender := { s.sender with tx := tx } }
          match msg with
          -- the channel was closed
          | none => { s with conn := some (k, .running { c with closed := none }) }
          | some msg => s.sendMessage k c msg written
    | _ => s
  | .ack =>
    match s.conn with
    | some (k, .running c) =>
      if c.resend ≠ [] then s
      else match (s.links k).toSender with
        | [] => s
        | a :: rest =>
          let s := s.setLink k { s.links k with toSender := rest }
          match s.sender.processAck a with
          | none => { s with conn := none }
          | some p =>
            { s with sender := p, conn := some (k, .running { c with closed := none }) }
    | _ => s
  | .senderLeaves => { s with conn := none }
  | .deliver env =>
    match s.serving with
    | none => s
    | some k =>
      match (s.links k).toReceiver with
      | [] => s
      | d :: rest =>
        let s := s.setLink k { s.links k with toReceiver := rest }
        let r := s.receiver.handleMessage (.data d.toData) env
        { s with receiver := r.1 }.answer k r.2
  | .receiverLeaves => { s with serving := none }

end Hosts

end SVR2.Host
