import SVR2.Lib.Runs
import SVR2.Peers.Peer

/-!
# The connections to all peers

`peers/peers.cc`, class `PeerManager`: which peers may stay connected.  What is stored about a peer
and what it is held against change at different times: a connection is made with values that pass
the limits of that time and an attestation of that time, and both the limits and the time move on.
-/

namespace SVR2.Peers

open Lib Minimums

variable {H C M : Type}

/-- `PeerManager`, with the limits it refers to.  `attested` is not in the source: the attestations
    that the environment has accepted, and when. -/
structure PeerManager (H C : Type) where
  peers : OrdMap PeerID (Peer H C) := ∅
  initSuccess : Bool := true
  mostRecentAttestation : Attestation := {}
  time : UInt64 := 0
  limits : MinimumLimits := ∅
  attested : List (UInt64 × AttestationData) := []

/-- What a call returns to its caller, and what it sends to the host. -/
structure Reply (M : Type) where
  err : Error
  out : List PeerMessage := []
  decoded : Option (Message M) := none

def peerIDFromString (s : Bytes) : Option PeerID :=
  if h : s.length = 32 then some ⟨s, h⟩ else none

namespace PeerManager

/-- `CreatePeer`: the peer with this id, which is a new one if there is none. -/
def createPeer (m : PeerManager H C) (id : PeerID) : Peer H C :=
  match m.peers.find? id with
  | some p => p
  | none => { id := id }

def store (m : PeerManager H C) (id : PeerID) (r : Result H C M) : PeerManager H C × Reply M :=
  ({ m with peers := m.peers.insert id r.peer, attested := m.attested ++ r.attested },
    { err := r.err, out := r.out, decoded := r.decoded })

def connectToPeer (lib : Library H C M) (m : PeerManager H C) (dest : PeerID) :
    PeerManager H C × Reply M :=
  if m.initSuccess = false then (m, { err := .peersNoInit })
  else m.store dest ((m.createPeer dest).connect lib m.mostRecentAttestation)

def maybeConnectToPeer (lib : Library H C M) (m : PeerManager H C) (dest : PeerID) :
    PeerManager H C × Reply M :=
  if m.initSuccess = false then (m, { err := .peersNoInit })
  else m.store dest ((m.createPeer dest).maybeConnect lib m.mostRecentAttestation)

def resetPeer (m : PeerManager H C) (dest : PeerID) :
    PeerManager H C × Error × List PeerMessage :=
  if m.initSuccess = false then (m, .peersNoInit, [])
  else match m.peers.find? dest with
    | none => (m, .peersResetMissingPeer, Peer.sendRst dest)
    | some p => ({ m with peers := m.peers.insert dest p.disconnect.1 }, .ok, p.disconnect.2)

def sendToPeer (lib : Library H C M) (m : PeerManager H C) (dest : PeerID) (msg : Message M) :
    PeerManager H C × Reply M :=
  if m.initSuccess = false then (m, { err := .peersNoInit })
  else match msg with
    | .connected true => (m, { err := .peersSendConnect })
    | msg =>
      match m.peers.find? dest with
      | none => (m, { err := .peersSendBeforeConnect, out := Peer.sendRst dest })
      | some p => m.store dest (p.send lib msg)

def recvFromPeer (lib : Library H C M) (m : PeerManager H C) (msg : PeerMessage) :
    PeerManager H C × Reply M :=
  if m.initSuccess = false then (m, { err := .peersNoInit })
  else match peerIDFromString msg.peerId with
    | none => (m, { err := .peersInvalidID })
    | some from_ =>
      match msg.inner with
      | .syn syn => m.store from_
          ((m.createPeer from_).accept lib m.time m.limits m.mostRecentAttestation syn)
      | inner =>
        match m.peers.find? from_ with
        | none =>
          (m, { err := .peersRecvBeforeConnect
                out := match inner with
                  | .rst _ => []
                  | _ => Peer.sendRst from_ })
        | some p => m.store from_ (p.recv lib m.time m.limits inner)

def refreshPeer (lib : Library H C M) (attestation : Attestation) (p : Peer H C) : Result H C M :=
  if p.internalCurrentState = .connected then p.send lib (.attestationUpdate attestation)
  else { peer := p, err := .ok }

/-- `RefreshAttestation`, with the new evidence or the error of the environment. -/
def refreshAttestation (lib : Library H C M) (m : PeerManager H C)
    (evidence : Except Error Attestation) : PeerManager H C × Reply M :=
  match evidence with
  | .error err => (m, { err := err })
  | .ok attestation =>
    ({ m with mostRecentAttestation := attestation
              peers := m.peers.mapVal fun _ p => (refreshPeer lib attestation p).peer },
      { err := .ok, out := m.peers.toList.flatMap fun e => (refreshPeer lib attestation e.2).out })

def setPeerAttestationTimestamp (m : PeerManager H C) (secs attestationTimeout : UInt64) :
    PeerManager H C × List PeerMessage :=
  if m.time = secs then (m, [])
  else
    ({ m with
        time := secs
        peers := m.peers.mapVal fun _ p =>
          (p.maybeDisconnectIfAttestationTooOld secs attestationTimeout).1 },
      m.peers.toList.flatMap fun e =>
        (e.2.maybeDisconnectIfAttestationTooOld secs attestationTimeout).2)

/-- What the loop of `MinimumsUpdated` does with a peer. -/
def enforce (limits : MinimumLimits) (p : Peer H C) : Peer H C × List PeerMessage :=
  if p.checkMinimums limits ≠ .ok then p.disconnect else (p, [])

def minimumsUpdated (m : PeerManager H C) : PeerManager H C × List PeerMessage :=
  ({ m with peers := m.peers.mapVal fun _ p => (enforce m.limits p).1 },
    m.peers.toList.flatMap fun e => (enforce m.limits e.2).2)

def updateLimits (m : PeerManager H C) (limits : MinimumLimits) :
    PeerManager H C × Error × List PeerMessage :=
  let (limits, err) := Minimums.updateLimits m.limits limits
  let (m, out) := { m with limits := limits }.minimumsUpdated
  (m, err, out)

end PeerManager

inductive Op (M : Type) where
  | connectToPeer (dest : PeerID)
  | maybeConnectToPeer (dest : PeerID)
  | resetPeer (dest : PeerID)
  | sendToPeer (dest : PeerID) (msg : Message M)
  | recvFromPeer (msg : PeerMessage)
  | refreshAttestation (evidence : Except Error Attestation)
  | setPeerAttestationTimestamp (secs : UInt64)
  | updateLimits (limits : MinimumLimits)

structure Call (H C M : Type) where
  lib : Library H C M
  op : Op M

/-- One call; the timeout for attestations is fixed. -/
def PeerManager.step (attestationTimeout : UInt64) (m : PeerManager H C) (c : Call H C M) :
    PeerManager H C :=
  match c.op with
  | .connectToPeer dest => (m.connectToPeer c.lib dest).1
  | .maybeConnectToPeer dest => (m.maybeConnectToPeer c.lib dest).1
  | .resetPeer dest => (m.resetPeer dest).1
  | .sendToPeer dest msg => (m.sendToPeer c.lib dest msg).1
  | .recvFromPeer msg => (m.recvFromPeer c.lib msg).1
  | .refreshAttestation evidence => (m.refreshAttestation c.lib evidence).1
  | .setPeerAttestationTimestamp secs => (m.setPeerAttestationTimestamp secs attestationTimeout).1
  | .updateLimits limits => (m.updateLimits limits).1

def PeerManager.run (attestationTimeout : UInt64) (m : PeerManager H C)
    (calls : List (Call H C M)) : PeerManager H C :=
  calls.foldl (step attestationTimeout) m

end SVR2.Peers
