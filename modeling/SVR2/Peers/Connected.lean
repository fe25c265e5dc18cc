import SVR2.Peers.Manager

/-!
# Who is connected

A peer that is connected after a call was so before, with the same values and the same time of
attestation, or the environment has accepted an attestation of its key during the call.
-/

namespace SVR2.Peers

open Lib Minimums

variable {H C M : Type} {lib : Library H C M} {p : Peer H C} {r : Result H C M} {now : UInt64}
  {limits : MinimumLimits} {Q : AttestationData → Prop}

namespace Peer

/-- What a call may do to the connection of a peer; a new attestation satisfies `Q`. -/
structure Effect (p : Peer H C) (now : UInt64) (Q : AttestationData → Prop) (r : Result H C M) :
    Prop where
  id : r.peer.id = p.id
  connected : r.peer.internalCurrentState = .connected →
    (p.internalCurrentState = .connected ∧ r.peer.lastAttestation = p.lastAttestation ∧
      r.peer.minimums = p.minimums) ∨
    ∃ att, (now, att) ∈ r.attested ∧ stringToByteArray 32 att.publicKey = .ok p.id ∧ Q att ∧
      r.peer.lastAttestation = now ∧ r.peer.minimums = att.minimumValues

theorem Effect.of_ne (hid : r.peer.id = p.id) (h : r.peer.internalCurrentState ≠ .connected) :
    Effect p now Q r :=
  ⟨hid, fun hc => absurd hc h⟩

theorem Effect.refl (hpeer : r.peer = p) : Effect p now Q r :=
  ⟨congrArg Peer.id hpeer, fun hc => .inl ⟨hpeer ▸ hc, congrArg _ hpeer, congrArg _ hpeer⟩⟩

theorem Effect.mono {Q' : AttestationData → Prop} (h : Effect p now Q r)
    (hQ : ∀ att, Q att → Q' att) : Effect p now Q' r :=
  ⟨h.id, fun hc => (h.connected hc).imp_right fun ⟨att, hatt, hkey, hq, hrest⟩ =>
    ⟨att, hatt, hkey, hQ att hq, hrest⟩⟩

theorem effect_fail {q : Peer H C} (hid : q.id = p.id) (err : Error)
    (attested : List (UInt64 × AttestationData)) :
    Effect p now Q { (q.fail err : Result H C M) with attested := attested } :=
  .of_ne hid nofun

/-- After an error `Recv` drops the connection. -/
theorem effect_orFail (h : r.err ≠ .ok ∧ r.peer.id = p.id ∨ Effect p now Q r) :
    Effect p now Q (match r.err with
      | .ok => r
      | err => { (r.peer.fail err : Result H C M) with attested := r.attested }) := by
  have hid : r.peer.id = p.id := by
    rcases h with ⟨-, hid⟩ | h
    · exact hid
    · exact h.id
  split
  · rcases h with ⟨herr, -⟩ | h
    · contradiction
    · exact h
  · exact effect_fail hid _ _

theorem effect_internalConnect (attestation : Attestation) :
    Effect p now Q (p.internalConnect lib attestation) := by
  rw [internalConnect]
  rcases hreset : p.reset lib .initiator with ⟨q, err | h⟩ <;>
    obtain rfl : p.internalDisconnect = q := congrArg Prod.fst hreset
  · exact .of_ne rfl nofun
  · dsimp only
    split
    · exact .of_ne rfl nofun
    · split
      · exact .of_ne rfl nofun
      · split
        · exact .of_ne rfl nofun
        · exact .of_ne rfl nofun

theorem effect_maybeConnect (attestation : Attestation) :
    Effect p now Q (p.maybeConnect lib attestation) := by
  rw [maybeConnect]
  split
  · exact .refl rfl
  · exact .refl rfl
  · exact effect_internalConnect attestation

/-- A session with a peer whose key has been attested, and whose values satisfy `Q`. -/
theorem effect_established {q : Peer H C} {tx rx : C} {att : AttestationData}
    {out : List PeerMessage} (hid : q.id = p.id)
    (hkey : stringToByteArray 32 att.publicKey = .ok p.id) (hQ : Q att) :
    Effect p now Q { (q.established tx rx now att out : Result H C M) with
      attested := [(now, att)] } :=
  ⟨hid, fun _ => .inr ⟨att, List.mem_singleton_self _, hkey, hQ, rfl, rfl⟩⟩

/-- `Accept` fails and leaves the peer alone, or makes a session for the attested key. -/
theorem acceptAttested_cases (lib : Library H C M) (p : Peer H C) (h : H) (now : UInt64)
    (limits : MinimumLimits) (attestation : Attestation) (att : AttestationData)
    (handshake : Bytes) :
    (p.acceptAttested lib h now limits attestation att handshake).peer = p ∨
      att.publicKey = p.id ∧ checkValues limits att.minimumValues = .ok ∧ ∃ tx rx out,
        p.acceptAttested lib h now limits attestation att handshake =
          p.established tx rx now att out := by
  rw [acceptAttested]
  split_ifs with hkey
  · exact .inl rfl
  rw [not_not] at hkey
  split
  swap
  · exact .inl rfl
  rename_i hcheck
  split
  · exact .inl rfl
  split_ifs
  · exact .inl rfl
  split
  · exact .inl rfl
  split
  · exact .inl rfl
  split_ifs
  · exact .inl rfl
  split
  · exact .inl rfl
  · exact .inr ⟨hkey, hcheck, _, _, _, rfl⟩

theorem effect_accept (attestation : Attestation) (syn : Bytes) :
    Effect p now (fun att => (∃ a, lib.attest now a = (att, .ok)) ∧
      checkValues limits att.minimumValues = .ok) (p.accept lib now limits attestation syn) := by
  rw [accept]
  rcases hreset : p.reset lib .responder with ⟨q, err | h⟩ <;>
    obtain rfl : p.internalDisconnect = q := congrArg Prod.fst hreset
  · exact .of_ne rfl nofun
  dsimp only
  split
  · exact .of_ne rfl nofun
  split
  · exact .of_ne rfl nofun
  split
  swap
  · exact .of_ne rfl nofun
  rename_i conn _ _ att hatt
  rcases acceptAttested_cases lib p.internalDisconnect h now limits attestation att
    conn.handshake with hsame | ⟨hkey, hcheck, tx, rx, out, heq⟩
  · have hid := congrArg Peer.id hsame
    have hstate := congrArg internalCurrentState hsame
    exact .of_ne hid fun hc => absurd (hstate.symm.trans hc) nofun
  · rw [heq]
    refine effect_established rfl ?_ ⟨⟨_, hatt⟩, hcheck⟩
    rw [hkey]
    exact stringToByteArray_of_length p.id.2

theorem finishAttested_cases (lib : Library H C M) (p : Peer H C) (h : H) (now : UInt64)
    (limits : MinimumLimits) (att : AttestationData) (handshake : Bytes) :
    (p.finishAttested lib h now limits att handshake).err ≠ .ok ∧
        (p.finishAttested lib h now limits att handshake).peer = p ∨
      stringToByteArray 32 att.publicKey = .ok p.id ∧ checkValues limits att.minimumValues = .ok ∧
        ∃ tx rx, p.finishAttested lib h now limits att handshake =
          p.established tx rx now att [] := by
  rw [finishAttested]
  split
  · rename_i err hkey
    refine .inl ⟨?_, rfl⟩
    rw [stringToByteArray] at hkey
    split_ifs at hkey
    obtain rfl := Except.error.inj hkey
    rintro ⟨⟩
  rename_i key hkey
  split_ifs with hid
  · exact .inl ⟨by rintro ⟨⟩, rfl⟩
  rw [not_not] at hid
  split
  swap
  · rename_i hcheck
    exact .inl ⟨hcheck, rfl⟩
  rename_i hcheck
  split
  · exact .inl ⟨by rintro ⟨⟩, rfl⟩
  split_ifs
  · exact .inl ⟨by rintro ⟨⟩, rfl⟩
  split
  · exact .inl ⟨by rintro ⟨⟩, rfl⟩
  · exact .inr ⟨hid ▸ hkey, hcheck, _, _, rfl⟩

theorem finishConnection_cases (lib : Library H C M) (p : Peer H C) (h : H) (now : UInt64)
    (limits : MinimumLimits) (synack : Bytes) :
    (p.finishConnection lib h now limits synack).err ≠ .ok ∧
        (p.finishConnection lib h now limits synack).peer.id = p.id ∨
      Effect p now (fun att => (∃ a, lib.attest now a = (att, .ok)) ∧
        checkValues limits att.minimumValues = .ok)
        (p.finishConnection lib h now limits synack) := by
  rw [finishConnection]
  split_ifs
  · exact .inl ⟨nofun, rfl⟩
  dsimp only
  split
  · exact .inl ⟨nofun, rfl⟩
  split
  swap
  · rename_i herr _
    exact .inl ⟨herr, rfl⟩
  rename_i conn _ _ att hatt
  rcases finishAttested_cases lib { p with handshake := none } h now limits att conn.handshake
    with ⟨herr, hsame⟩ | ⟨hkey, hcheck, tx, rx, heq⟩
  · have hid := congrArg Peer.id hsame
    exact .inl ⟨herr, hid⟩
  · rw [heq]
    exact .inr (effect_established rfl hkey ⟨⟨_, hatt⟩, hcheck⟩)

theorem effect_synack (synack : Bytes) :
    Effect p now (fun att => (∃ a, lib.attest now a = (att, .ok)) ∧
      checkValues limits att.minimumValues = .ok) (p.recv lib now limits (.synack synack)) := by
  rw [recv]
  split
  swap
  · exact effect_fail rfl _ _
  rename_i h _ _
  exact effect_orFail (finishConnection_cases lib p h now limits synack)

/-- The attestation in data for a session: data that is decrypted and parsed to an attestation update
    that the environment accepts. -/
def updateIn (lib : Library H C M) (p : Peer H C) (now : UInt64) (data : Bytes) :
    Option AttestationData :=
  match p.internalCurrentState, p.rx with
  | .connected, some rx =>
    (Noise.decrypt lib.cipher rx data).bind fun decrypted =>
      match lib.parse decrypted.2 with
      | some (.attestationUpdate a) =>
        match lib.attest now a with
        | (att, .ok) => some att
        | _ => none
      | _ => none
  | _, _ => none

theorem checkNextAttestation_cases {q : Peer H C} (hid : q.id = p.id) (a : Attestation) :
    (q.checkNextAttestation lib now a).err ≠ .ok ∧
        (q.checkNextAttestation lib now a).peer.id = p.id ∨
      Effect p now (fun att => lib.attest now a = (att, .ok)) (q.checkNextAttestation lib now a) := by
  rw [checkNextAttestation]
  split
  swap
  · rename_i herr _
    exact .inl ⟨herr, hid⟩
  rename_i att hatt
  split_ifs with hkey
  · exact .inl ⟨nofun, hid⟩
  rw [not_not] at hkey
  refine .inr ⟨hid, fun _ => .inr ⟨att, List.mem_singleton_self _, ?_, hatt, rfl, rfl⟩⟩
  rw [hkey, hid]
  exact stringToByteArray_of_length p.id.2

theorem effect_recvPlaintext {q : Peer H C} (hid : q.id = p.id)
    (hconnected : p.internalCurrentState = .connected)
    (hlast : q.lastAttestation = p.lastAttestation) (hmins : q.minimums = p.minimums)
    (plaintext : Bytes) :
    Effect p now (fun att => ∃ a, lib.parse plaintext = some (.attestationUpdate a) ∧
      lib.attest now a = (att, .ok)) (q.recvPlaintext lib now plaintext) := by
  rw [recvPlaintext]
  split
  · exact ⟨hid, fun _ => .inl ⟨hconnected, hlast, hmins⟩⟩
  · rename_i a hparse
    exact (effect_orFail (checkNextAttestation_cases hid a)).mono fun att hatt => ⟨a, hparse, hatt⟩
  · exact ⟨hid, fun _ => .inl ⟨hconnected, hlast, hmins⟩⟩

theorem effect_data (data : Bytes) :
    Effect p now (fun att => (∃ a, lib.attest now a = (att, .ok)) ∧
      p.updateIn lib now data = some att) (p.recv lib now limits (.data data)) := by
  rw [recv]
  split
  swap
  · exact .refl rfl
  rename_i rx hstate hrx
  rw [recvData]
  split
  · exact effect_fail rfl _ _
  · rename_i rx' plaintext hdecrypt
    have hplaintext : ∀ q : Peer H C, q.id = p.id → q.lastAttestation = p.lastAttestation →
        q.minimums = p.minimums → Effect p now _ (q.recvPlaintext lib now plaintext) :=
      fun q hid hlast hmins => effect_recvPlaintext hid hstate hlast hmins plaintext
    refine (hplaintext _ ?_ ?_ ?_).mono fun att hatt => ?_
    · rfl
    · rfl
    · rfl
    obtain ⟨a, hparse, hatt⟩ := hatt
    refine ⟨⟨a, hatt⟩, ?_⟩
    rw [updateIn, hstate, hrx]
    dsimp only
    rw [hdecrypt, Option.bind_some, hparse]
    dsimp only
    rw [hatt]

/-- `Recv`; only an update in data can bring values that have not been checked. -/
theorem effect_recv (msg : Inner) :
    Effect p now (fun att => (∃ a, lib.attest now a = (att, .ok)) ∧
      ((∃ data, msg = .data data ∧ p.updateIn lib now data = some att) ∨
        checkValues limits att.minimumValues = .ok)) (p.recv lib now limits msg) := by
  cases msg with
  | syn syn => exact .refl rfl
  | synack synack => exact (effect_synack synack).mono fun _ h => ⟨h.1, .inr h.2⟩
  | data data => exact (effect_data data).mono fun _ h => ⟨h.1, .inl ⟨data, rfl, h.2⟩⟩
  | rst rst => exact .of_ne rfl nofun
  | notSet => exact .refl rfl

theorem effect_send (msg : Message M) : Effect p now Q (p.send lib msg) := by
  rw [send]
  split
  swap
  · exact .refl rfl
  rename_i tx hstate _
  split
  · exact .refl rfl
  rw [sendSerialized]
  split
  · exact effect_fail rfl _ _
  · exact ⟨rfl, fun _ => .inl ⟨hstate, rfl, rfl⟩⟩

end Peer

/-! ### What a call changes -/

namespace PeerManager

variable {m : PeerManager H C} {c : Call H C M} {T : UInt64}

/-- A peer of the manager, or a new one. -/
def Has (m : PeerManager H C) (id : PeerID) (p : Peer H C) : Prop :=
  m.peers.find? id = some p ∨ p = { id := id }

/-- The attestation in the data that a call hands over. -/
def updateIn (m : PeerManager H C) (c : Call H C M) : Option AttestationData :=
  match c.op with
  | .recvFromPeer { peerId, inner := .data data } => do
    let p ← m.peers.find? (← peerIDFromString peerId)
    p.updateIn c.lib m.time data
  | _ => none

/-- What a new attestation in this call is like: only in an update its values may be unchecked. -/
def Attests (m : PeerManager H C) (c : Call H C M) (att : AttestationData) : Prop :=
  (∃ a, c.lib.attest m.time a = (att, .ok)) ∧
    (m.updateIn c = some att ∨ checkValues m.limits att.minimumValues = .ok)

inductive Change (T : UInt64) (m : PeerManager H C) (c : Call H C M) : PeerManager H C → Prop
  | refused : Change T m c m
  | one {id : PeerID} {p : Peer H C} {r : Result H C M} (hp : m.Has id p)
      (h : p.Effect m.time (Attests m c) r) : Change T m c (m.store id r).1
  | all (a : Attestation) (f : Peer H C → Result H C M)
      (h : ∀ p : Peer H C, p.Effect m.time (fun _ => False) (f p)) :
      Change T m c { m with
        mostRecentAttestation := a, peers := m.peers.mapVal fun _ p => (f p).peer }
  | time (secs : UInt64) :
      Change T m c { m with
        time := secs
        peers := m.peers.mapVal fun _ p => (p.maybeDisconnectIfAttestationTooOld secs T).1 }
  | limits (s : MinimumLimits) :
      Change T m c { m with limits := s, peers := m.peers.mapVal fun _ p => (enforce s p).1 }

theorem has_createPeer (m : PeerManager H C) (id : PeerID) : m.Has id (m.createPeer id) := by
  rw [createPeer]
  split
  · rename_i h
    exact .inl h
  · exact .inr rfl

theorem change_step (T : UInt64) (m : PeerManager H C) (c : Call H C M) :
    Change T m c (m.step T c) := by
  obtain ⟨lib, op⟩ := c
  cases op with
  | connectToPeer dest =>
    dsimp only [step]
    rw [connectToPeer]
    split_ifs
    · exact .refused
    · exact .one (m.has_createPeer dest) (Peer.effect_internalConnect _)
  | maybeConnectToPeer dest =>
    dsimp only [step]
    rw [maybeConnectToPeer]
    split_ifs
    · exact .refused
    · exact .one (m.has_createPeer dest) (Peer.effect_maybeConnect _)
  | resetPeer dest =>
    dsimp only [step]
    rw [resetPeer]
    split_ifs
    · exact .refused
    split
    · exact .refused
    · rename_i p hp
      have h : Change T m (M := M) ⟨lib, .resetPeer dest⟩
          (m.store dest { peer := p.internalDisconnect, err := .ok }).1 :=
        .one (.inl hp) (.of_ne rfl nofun)
      rw [store, List.append_nil] at h
      exact h
  | sendToPeer dest msg =>
    dsimp only [step]
    unfold sendToPeer
    split_ifs
    · exact .refused
    split
    · exact .refused
    split
    · exact .refused
    · rename_i hp
      exact .one (.inl hp) (Peer.effect_send _)
  | recvFromPeer msg =>
    dsimp only [step]
    rw [recvFromPeer]
    split_ifs
    · exact .refused
    split
    · exact .refused
    rename_i hid
    split
    · exact .one (m.has_createPeer _) ((Peer.effect_accept _ _).mono fun att h => ⟨h.1, .inr h.2⟩)
    · split
      · exact .refused
      · rename_i hp
        refine .one (.inl hp) ((Peer.effect_recv _).mono fun att h => ⟨h.1, h.2.imp_left ?_⟩)
        rintro ⟨data, hdata, hupdate⟩
        obtain ⟨peerId, inner⟩ := msg
        obtain rfl : inner = .data data := hdata
        simp only [updateIn]
        rw [hid, Option.bind_eq_bind, Option.bind_some, hp, Option.bind_eq_bind, Option.bind_some]
        exact hupdate
  | refreshAttestation evidence =>
    dsimp only [step]
    unfold refreshAttestation
    split
    · exact .refused
    · rename_i attestation
      refine .all attestation (refreshPeer lib attestation) fun p => ?_
      rw [refreshPeer]
      split_ifs
      · exact Peer.effect_send _
      · exact .refl rfl
  | setPeerAttestationTimestamp secs =>
    dsimp only [step]
    rw [setPeerAttestationTimestamp]
    split_ifs
    · exact .refused
    · exact .time secs
  | updateLimits limits => exact .limits _

end PeerManager

/-! ### Fresh attestations -/

namespace PeerManager

variable {m m' : PeerManager H C} {c : Call H C M} {T : UInt64}

def start (mostRecentAttestation : Attestation) (limits : MinimumLimits) : PeerManager H C :=
  { mostRecentAttestation := mostRecentAttestation, limits := limits }

def Meets (m : PeerManager H C) : Prop :=
  ∀ id p, m.peers.find? id = some p → p.internalCurrentState = .connected →
    checkValues m.limits p.minimums = .ok

/-- An attestation update that the environment accepts has values that meet the limits. -/
def UpdatesPass (m : PeerManager H C) (c : Call H C M) : Prop :=
  ∀ att ∈ m.updateIn c, checkValues m.limits att.minimumValues = .ok

instance (m : PeerManager H C) (c : Call H C M) : Decidable (UpdatesPass m c) :=
  inferInstanceAs (Decidable (∀ att ∈ m.updateIn c, _))

theorem meets_of_change (h : Change T m c m') (hm : Meets m) (hpass : UpdatesPass m c) : Meets m' := by
  cases h with
  | refused => exact hm
  | @one id q r hq heffect =>
    intro id' p hp hc
    rw [store, OrdMap.find?_insert] at hp
    split_ifs at hp with hid
    · obtain rfl := Option.some.inj hp
      change checkValues m.limits r.peer.minimums = .ok
      rcases heffect.connected hc with ⟨hconn, -, hmins⟩ | ⟨att, hatt, -, ⟨-, hcheck⟩, -, hmins⟩
      · rw [hmins]
        rcases hq with hq | rfl
        · exact hm id q hq hconn
        · exact absurd hconn nofun
      · rw [hmins]
        exact hcheck.elim (hpass att) fun hcheck => hcheck
    · exact hm id' p hp hc
  | all a f heffect =>
    intro id p hp hc
    rw [OrdMap.find?_mapVal] at hp
    obtain ⟨q, hq, rfl⟩ := Option.map_eq_some_iff.mp hp
    rcases (heffect q).connected hc with ⟨hcq, -, hmins⟩ | ⟨-, -, -, hfalse, -⟩
    · rw [hmins]
      exact hm id q hq hcq
    · exact hfalse.elim
  | time secs =>
    intro id p hp hc
    rw [OrdMap.find?_mapVal] at hp
    obtain ⟨q, hq, rfl⟩ := Option.map_eq_some_iff.mp hp
    rw [Peer.maybeDisconnectIfAttestationTooOld] at hc ⊢
    split_ifs at hc ⊢
    · exact hm id q hq hc
    · exact absurd hc nofun
  | limits s =>
    intro id p hp hc
    rw [OrdMap.find?_mapVal] at hp
    obtain ⟨q, hq, rfl⟩ := Option.map_eq_some_iff.mp hp
    rw [enforce] at hc ⊢
    split_ifs at hc ⊢ with hfail
    · exact absurd hc nofun
    · rw [not_not, Peer.checkMinimums, if_neg (not_not.mpr hc)] at hfail
      exact hfail

/-- After every run in which the values of accepted attestation updates meet the limits, so do
    the values of every peer that is connected. -/
theorem connected_meets_limits (T : UInt64) (mostRecentAttestation : Attestation)
    (limits : MinimumLimits) (calls : List (Call H C M))
    (hpass : Along (step T) UpdatesPass (start mostRecentAttestation limits) calls)
    (id : PeerID) (p : Peer H C)
    (hp : ((start mostRecentAttestation limits).run T calls).peers.find? id = some p)
    (hconnected : p.internalCurrentState = .connected) :
    checkValues ((start mostRecentAttestation limits : PeerManager H C).run T calls).limits
      p.minimums = .ok := by
  have hstart : Meets (start mostRecentAttestation limits : PeerManager H C) := by
    intro id p hp
    rw [start, OrdMap.find?_empty] at hp
    cases hp
  exact hpass.invariant (P := Meets)
    (fun m c hm hc => meets_of_change (change_step T m c) hm hc) hstart id p hp hconnected

/-! ### A sample connection -/

theorem length_sampleId : (List.replicate 32 7 : Bytes).length = 32 := rfl

def sampleId : PeerID := ⟨List.replicate 32 7, length_sampleId⟩

/-- A handshake counts its messages, packets are their own ciphertext, and the evidence of an
    attestation is the one value of the other side. -/
def sampleLibrary : Library Nat Unit Unit where
  attest _ a := ({ publicKey := sampleId, minimumValues := OrdMap.insert ∅ "tcb" a.evidence }, .ok)
  handshakeNew _ := some 0
  dhCopy := some
  setPublicKey h _ := some h
  start := some
  action h := match h with
    | 0 => .readMessage
    | 1 => .writeMessage
    | _ => .split
  readMessage h _ := some (h + 1)
  writeMessage h := some (h + 1, [])
  split _ := some ((), ())
  cipher := { encrypt := fun _ b => some ((), b), decrypt := fun _ b => some ((), b), rekey := id }
  parseConnect b := some { attestation := { evidence := b }, handshake := [] }
  serializeConnect c := some c.attestation.evidence
  parse b := some (.attestationUpdate { evidence := b })
  serialize _ := some []

def sampleRecv (inner : Inner) : Call Nat Unit Unit :=
  { lib := sampleLibrary, op := .recvFromPeer { peerId := sampleId, inner := inner } }

/-- A limit, a connection that meets it, and an attestation update with this value. -/
def sampleCalls (value : Byte) : List (Call Nat Unit Unit) :=
  [{ lib := sampleLibrary, op := .updateLimits (OrdMap.insert ∅ "tcb" [5]) },
   { lib := sampleLibrary, op := .setPeerAttestationTimestamp 1000 },
   sampleRecv (.syn [6]),
   { lib := sampleLibrary, op := .setPeerAttestationTimestamp 1060 },
   sampleRecv (.data [value])]

def sampleRun (value : Byte) : PeerManager Nat Unit := (start {} ∅).run 100 (sampleCalls value)

def samplePeer (value : Byte) : Peer Nat Unit :=
  ((sampleRun value).peers.find? sampleId).getD { id := sampleId }

theorem find?_samplePeer {value : Byte} (h : ((sampleRun value).peers.find? sampleId).isSome) :
    (sampleRun value).peers.find? sampleId = some (samplePeer value) :=
  (Option.eq_some_of_isSome h).trans (congrArg some (Option.get_eq_getD ..))

theorem connected_meets_limits_samplePeer :
    (samplePeer 8).internalCurrentState = .connected ∧
      checkValues (sampleRun 8).limits (samplePeer 8).minimums = .ok :=
  ⟨by decide +kernel, connected_meets_limits 100 {} ∅ (sampleCalls 8) (by decide +kernel) sampleId
    (samplePeer 8) (find?_samplePeer (by decide +kernel)) (by decide +kernel)⟩

/-- After an update with a lower value the peer is still connected. -/
theorem connected_below_limit :
    (sampleRun 3).peers.find? sampleId = some (samplePeer 3) ∧
      (samplePeer 3).internalCurrentState = .connected ∧
      checkValues (sampleRun 3).limits (samplePeer 3).minimums = .minimumsValueTooLow :=
  ⟨(find?_samplePeer (by decide +kernel)), by decide +kernel, by decide +kernel⟩

end PeerManager

end SVR2.Peers
