import SVR2.Minimums
import SVR2.Peers.Noise

/-!
# The connection to one peer

`peers/peers.cc`, class `Peer`: the handshake, the two cipher states of an established session,
and what has been attested about the other side.  What the Noise library, the protobuf parsers and
the environment answer during a call is given with the call.
-/

namespace SVR2.Peers

open Lib Minimums

/-- `peerid::PeerID`: 32 bytes. -/
abbrev PeerID := { b : Bytes // b.length = 32 }

structure Attestation where
  evidence : Bytes := []
  endorsements : Bytes := []
deriving DecidableEq

structure AttestationData where
  publicKey : Bytes
  minimumValues : MinimumValues
deriving DecidableEq

structure ConnectRequest where
  attestation : Attestation
  handshake : Bytes
deriving DecidableEq

/-- `e2e::EnclaveToEnclaveMessage`: the two contents that a peer looks at, or another one. -/
inductive Message (M : Type) where
  | connected (connected : Bool)
  | attestationUpdate (a : Attestation)
  | other (m : M)
deriving DecidableEq

inductive Inner where
  | syn (syn : Bytes)
  | synack (synack : Bytes)
  | data (data : Bytes)
  | rst (rst : Bool)
  | notSet
deriving DecidableEq

structure PeerMessage where
  peerId : Bytes
  inner : Inner
deriving DecidableEq

inductive Role where
  | initiator
  | responder
deriving DecidableEq

/-- `noise_handshakestate_get_action`. -/
inductive Action where
  | none
  | writeMessage
  | readMessage
  | failed
  | split
  | complete
deriving DecidableEq

/-- The answers of the environment and of the libraries during one call. -/
structure Library (H C M : Type) where
  attest : UInt64 → Attestation → AttestationData × Error
  handshakeNew : Role → Option H
  dhCopy : H → Option H
  setPublicKey : H → PeerID → Option H
  start : H → Option H
  action : H → Action
  readMessage : H → Bytes → Option H
  writeMessage : H → Option (H × Bytes)
  split : H → Option (C × C)
  cipher : Noise.Cipher C
  parseConnect : Bytes → Option ConnectRequest
  serializeConnect : ConnectRequest → Option Bytes
  parse : Bytes → Option (Message M)
  serialize : Message M → Option Bytes

inductive PeerState where
  | disconnected
  | connecting
  | connected
deriving DecidableEq

structure Peer (H C : Type) where
  id : PeerID
  handshake : Option H := none
  tx : Option C := none
  txRekey : UInt8 := 0
  rx : Option C := none
  rxRekey : UInt8 := 0
  lastAttestation : UInt64 := 0
  minimums : MinimumValues := ∅

/-- What a call leaves: the peer, the error, what is sent to the host and what is decoded.
    `attested` is not in the source: the attestations that the environment has accepted, and when. -/
structure Result (H C M : Type) where
  peer : Peer H C
  err : Error
  out : List PeerMessage := []
  decoded : Option (Message M) := none
  attested : List (UInt64 × AttestationData) := []

variable {H C M : Type}

namespace Peer

def internalCurrentState (p : Peer H C) : PeerState :=
  if p.handshake.isSome then .connecting
  else if p.tx.isSome ∧ p.rx.isSome then .connected
  else .disconnected

def internalDisconnect (p : Peer H C) : Peer H C :=
  { p with handshake := none, tx := none, rx := none, txRekey := 0, rxRekey := 0
           lastAttestation := 0, minimums := ∅ }

def sendRst (id : PeerID) : List PeerMessage := [{ peerId := id, inner := .rst true }]

/-- `InternalDisconnect` and `SendRst`, after this error. -/
def fail (p : Peer H C) (err : Error) : Result H C M :=
  { peer := p.internalDisconnect, err := err, out := sendRst p.id }

/-- `Reset`.  The callers take the new handshake out of `handshake_` at once. -/
def reset (lib : Library H C M) (p : Peer H C) (role : Role) : Peer H C × Except Error H :=
  (p.internalDisconnect,
    match lib.handshakeNew role with
    | none => .error .peersHandshakeState
    | some h =>
      match lib.dhCopy h with
      | none => .error .peersCopyDHState
      | some h =>
        match lib.setPublicKey h p.id with
        | none => .error .peersSetRemotePublicKey
        | some h =>
          match lib.start h with
          | none => .error .peersHandshakeStart
          | some h => .ok h)

def internalConnect (lib : Library H C M) (p : Peer H C) (attestation : Attestation) :
    Result H C M :=
  match p.reset lib .initiator with
  | (p, .error err) => { peer := p, err := err }
  | (p, .ok h) =>
    if lib.action h ≠ .writeMessage then { peer := p, err := .peersHandshakeState }
    else match lib.writeMessage h with
      | none => { peer := p, err := .peersConnectWriteHandshake }
      | some (h, buf) =>
        match lib.serializeConnect { attestation := attestation, handshake := buf } with
        | none => { peer := p, err := .peersConnectSerializeHandshake }
        | some syn =>
          { peer := { p with handshake := some h }, err := .ok
            out := [{ peerId := p.id, inner := .syn syn }] }

def connect (lib : Library H C M) (p : Peer H C) (attestation : Attestation) : Result H C M :=
  p.internalConnect lib attestation

/-- `MaybeConnect`, without the flag that says whether there was something to do. -/
def maybeConnect (lib : Library H C M) (p : Peer H C) (attestation : Attestation) :
    Result H C M :=
  match p.internalCurrentState with
  | .connecting | .connected => { peer := p, err := .ok }
  | .disconnected => p.internalConnect lib attestation

def established (p : Peer H C) (tx rx : C) (ts : UInt64) (att : AttestationData)
    (out : List PeerMessage) : Result H C M :=
  { peer := { p with minimums := att.minimumValues, tx := some tx, rx := some rx
                     txRekey := 0, rxRekey := 0, lastAttestation := ts }
    err := .ok
    decoded := some (.connected true)
    out := out }

/-- `Accept`, once the environment has accepted the attestation of the other side. -/
def acceptAttested (lib : Library H C M) (p : Peer H C) (h : H) (ts : UInt64)
    (limits : MinimumLimits) (attestation : Attestation) (att : AttestationData)
    (handshake : Bytes) : Result H C M :=
  if att.publicKey ≠ p.id then { peer := p, err := .peersAcceptIDMismatch }
  else match checkValues limits att.minimumValues with
    | .ok =>
      match lib.readMessage h handshake with
      | none => { peer := p, err := .peersAcceptReadHandshake }
      | some h =>
        if lib.action h ≠ .writeMessage then { peer := p, err := .peersHandshakeState }
        else match lib.writeMessage h with
          | none => { peer := p, err := .peersAcceptWriteHandshake }
          | some (h, buf) =>
            match lib.serializeConnect { attestation := attestation, handshake := buf } with
            | none => { peer := p, err := .peersAcceptSerializeHandshake }
            | some synack =>
              if lib.action h ≠ .split then { peer := p, err := .peersHandshakeState }
              else match lib.split h with
                | none => { peer := p, err := .peersAcceptSplit }
                | some (tx, rx) =>
                  p.established tx rx ts att [{ peerId := p.id, inner := .synack synack }]
    | err => { peer := p, err := err }

def accept (lib : Library H C M) (p : Peer H C) (now : UInt64) (limits : MinimumLimits)
    (attestation : Attestation) (syn : Bytes) : Result H C M :=
  match p.reset lib .responder with
  | (p, .error err) => { peer := p, err := err }
  | (p, .ok h) =>
    if lib.action h ≠ .readMessage then { peer := p, err := .peersHandshakeState }
    else match lib.parseConnect syn with
      | none => { peer := p, err := .peersAcceptParseHandshake }
      | some conn =>
        match lib.attest now conn.attestation with
        | (att, .ok) =>
          { p.acceptAttested lib h now limits attestation att conn.handshake with
            attested := [(now, att)] }
        | (_, err) => { peer := p, err := err }

/-- `FinishConnection`, once the environment has accepted the attestation of the other side. -/
def finishAttested (lib : Library H C M) (p : Peer H C) (h : H) (ts : UInt64)
    (limits : MinimumLimits) (att : AttestationData) (handshake : Bytes) : Result H C M :=
  match stringToByteArray 32 att.publicKey with
  | .error err => { peer := p, err := err }
  | .ok key =>
    if key ≠ p.id then { peer := p, err := .peersFinishIDMismatch }
    else match checkValues limits att.minimumValues with
      | .ok =>
        match lib.readMessage h handshake with
        | none => { peer := p, err := .peersFinishReadHandshake }
        | some h =>
          if lib.action h ≠ .split then { peer := p, err := .peersHandshakeState }
          else match lib.split h with
            | none => { peer := p, err := .peersFinishSplit }
            | some (tx, rx) => p.established tx rx ts att []
      | err => { peer := p, err := err }

def finishConnection (lib : Library H C M) (p : Peer H C) (h : H) (now : UInt64)
    (limits : MinimumLimits) (synack : Bytes) : Result H C M :=
  if lib.action h ≠ .readMessage then { peer := p, err := .peersHandshakeState }
  else
    let p := { p with handshake := none }
    match lib.parseConnect synack with
    | none => { peer := p, err := .peersFinishParseHandshake }
    | some conn =>
      match lib.attest now conn.attestation with
      | (att, .ok) =>
        { p.finishAttested lib h now limits att conn.handshake with attested := [(now, att)] }
      | (_, err) => { peer := p, err := err }

/-- `CheckNextAttestation`.  The new values are not checked against the limits. -/
def checkNextAttestation (lib : Library H C M) (p : Peer H C) (now : UInt64) (a : Attestation) :
    Result H C M :=
  match lib.attest now a with
  | (att, .ok) =>
    if att.publicKey ≠ p.id then
      { peer := p, err := .peersAttestationKeyChanged, attested := [(now, att)] }
    else
      { peer := { p with lastAttestation := now, minimums := att.minimumValues }
        err := .ok
        attested := [(now, att)] }
  | (_, err) => { peer := p, err := err }

def sendSerialized (lib : Library H C M) (p : Peer H C) (tx : C) (serialized : Bytes) :
    Result H C M :=
  match Noise.encrypt lib.cipher tx serialized with
  | none => p.fail .peersEncrypt
  | some (tx, ciphertext) =>
    let txRekey := p.txRekey + 1
    let tx := if txRekey = 0 then lib.cipher.rekey tx else tx
    { peer := { p with tx := some tx, txRekey := txRekey }
      err := .ok
      out := [{ peerId := p.id, inner := .data ciphertext }] }

def send (lib : Library H C M) (p : Peer H C) (msg : Message M) : Result H C M :=
  match p.internalCurrentState, p.tx with
  | .connected, some tx =>
    match lib.serialize msg with
    | none => { peer := p, err := .peersEncryptSerialize }
    | some serialized => p.sendSerialized lib tx serialized
  | _, _ => { peer := p, err := .peersSendBeforeConnect }

def recvPlaintext (lib : Library H C M) (p : Peer H C) (now : UInt64) (plaintext : Bytes) :
    Result H C M :=
  match lib.parse plaintext with
  | none => { peer := p, err := .peersDecryptParse }
  | some (.attestationUpdate a) =>
    let r := p.checkNextAttestation lib now a
    match r.err with
    | .ok => r
    | err => { r.peer.fail err with attested := r.attested }
  | some msg => { peer := p, err := .ok, decoded := some msg }

def recvData (lib : Library H C M) (p : Peer H C) (rx : C) (now : UInt64) (data : Bytes) :
    Result H C M :=
  match Noise.decrypt lib.cipher rx data with
  | none => p.fail .peersDecrypt
  | some (rx, plaintext) =>
    let rxRekey := p.rxRekey + 1
    let rx := if rxRekey = 0 then lib.cipher.rekey rx else rx
    { p with rx := some rx, rxRekey := rxRekey }.recvPlaintext lib now plaintext

/-- `Recv`.  A SYN never comes here. -/
def recv (lib : Library H C M) (p : Peer H C) (now : UInt64) (limits : MinimumLimits)
    (msg : Inner) : Result H C M :=
  match msg with
  | .synack synack =>
    match p.internalCurrentState, p.handshake with
    | .connecting, some h =>
      let r := p.finishConnection lib h now limits synack
      match r.err with
      | .ok => r
      | err => { r.peer.fail err with attested := r.attested }
    | _, _ => p.fail .peersSynAckNotConnecting
  | .data data =>
    match p.internalCurrentState, p.rx with
    | .connected, some rx => p.recvData lib rx now data
    | _, _ => { peer := p, err := .peersDataNotConnected }
  | .rst _ => { peer := p.internalDisconnect, err := .ok }
  | .syn _ | .notSet => { peer := p, err := .peersInvalidMsg }

def disconnect (p : Peer H C) : Peer H C × List PeerMessage :=
  (p.internalDisconnect, sendRst p.id)

def maybeDisconnectIfAttestationTooOld (p : Peer H C) (now attestationTimeout : UInt64) :
    Peer H C × List PeerMessage :=
  if p.internalCurrentState = .disconnected ∨
      (now ≤ p.lastAttestation + attestationTimeout ∧
        now ≥ p.lastAttestation - attestationTimeout) ∨
      (p.internalCurrentState = .connecting ∧ p.lastAttestation = 0) then (p, [])
  else p.disconnect

def checkMinimums (p : Peer H C) (limits : MinimumLimits) : Error :=
  if p.internalCurrentState ≠ .connected then .ok else checkValues limits p.minimums

end Peer

end SVR2.Peers
