import SVR2.Lib.Runs
import SVR2.Peers.Peer

/-!
# The channel between two enclaves

An established session, between which and the host only data messages pass.  The host may do what
it likes with them.  The cipher is ideal: a packet is decrypted in a state of the receiving side if
and only if the other side has made it in that state.
-/

namespace SVR2.Peers

open Lib Noise Function

variable {H M : Type}

inductive Side where
  | left
  | right
deriving DecidableEq

def Side.other : Side → Side
  | .left => .right
  | .right => .left

theorem Side.other_ne (d : Side) : d.other ≠ d := by cases d <;> nofun

theorem Side.other_other (d : Side) : d.other.other = d := by cases d <;> rfl

theorem Side.eq_or_eq_other (d e : Side) : e = d ∨ e = d.other := by
  cases d <;> cases e <;> decide

/-- A `NoiseCipherState`: the side that encrypts with its key, how often it has been rekeyed, and
    the nonce. -/
structure CipherState where
  key : Side
  rekeys : Nat
  n : Nat
deriving DecidableEq

namespace CipherState

def start (d : Side) : CipherState := { key := d, rekeys := 0, n := 0 }

def advance (cs : CipherState) (k : Nat) : CipherState := { cs with n := cs.n + k }

def rekey (cs : CipherState) : CipherState := { cs with rekeys := cs.rekeys + 1 }

theorem advance_advance (cs : CipherState) (j k : Nat) :
    (cs.advance j).advance k = cs.advance (j + k) := by
  rw [advance, advance, advance, Nat.add_assoc]

end CipherState

/-- What an encryption with a MAC does with the plaintext of a packet. -/
structure Aead where
  enc : CipherState → Bytes → Bytes
  length_enc : ∀ cs b, (enc cs b).length = b.length + macSize

/-- A packet, the state in which it was made and its plaintext. -/
structure Sealed where
  state : CipherState
  packet : Bytes
  plaintext : Bytes
deriving DecidableEq

def Aead.sealAll (aead : Aead) : CipherState → List Bytes → List Sealed
  | _, [] => []
  | cs, b :: bs => ⟨cs, aead.enc cs b, b⟩ :: aead.sealAll (cs.advance 1) bs

/-- The ideal cipher, when these packets have been made. -/
def Aead.cipher (aead : Aead) (log : List Sealed) : Cipher CipherState where
  encrypt cs b := some (cs.advance 1, aead.enc cs b)
  decrypt cs c :=
    (log.find? fun e => decide (e.state = cs ∧ e.packet = c)).map fun e =>
      (cs.advance 1, e.plaintext)
  rekey := CipherState.rekey

structure Codec (M : Type) where
  parse : Bytes → Option (Message M)
  serialize : Message M → Option Bytes
  parse_serialize : ∀ m b, serialize m = some b → parse b = some m

/-- A session: the two peers, the packets made so far, and for each side the messages that have been
    passed to its `Send` and those that its `Recv` has accepted. -/
structure Session (H M : Type) where
  peer : Side → Peer H CipherState
  sealed : List Sealed := []
  sent : Side → List (Message M) := fun _ => []
  accepted : Side → List (Message M) := fun _ => []

/-- What happens in a session.  A side that disconnects, for whatever reason, leaves it. -/
inductive SessionEvent (H M : Type) where
  | send (d : Side) (msg : Message M) (lib : Library H CipherState M)
  | recv (d : Side) (data : Bytes) (now : UInt64) (lib : Library H CipherState M)
  | disconnect (d : Side)

namespace Session

variable (aead : Aead) (codec : Codec M)

def library (s : Session H M) (lib : Library H CipherState M) : Library H CipherState M :=
  { lib with cipher := aead.cipher s.sealed, parse := codec.parse, serialize := codec.serialize }

def sealMessage (tx : CipherState) (msg : Message M) : List Sealed :=
  match codec.serialize msg with
  | none => []
  | some serialized => aead.sealAll tx (piecesOf serialized)

/-- The message that `Recv` accepts: it returns OK and hands it out, or applies it as an attestation
    update. -/
def acceptedMessage (lib : Library H CipherState M) (p : Peer H CipherState) (now : UInt64)
    (data : Bytes) : Option (Message M) :=
  match p.internalCurrentState, p.rx with
  | .connected, some rx =>
    match decrypt lib.cipher rx data with
    | some (_, plaintext) =>
      if (p.recvData lib rx now data).err = .ok then lib.parse plaintext else none
    | none => none
  | _, _ => none

def step (s : Session H M) : SessionEvent H M → Session H M
  | .send d msg lib =>
    match (s.peer d).internalCurrentState, (s.peer d).tx with
    | .connected, some tx =>
      { s with
        peer := update s.peer d ((s.peer d).send (s.library aead codec lib) msg).peer
        sealed := s.sealed ++ sealMessage aead codec tx msg
        sent := update s.sent d (s.sent d ++ [msg]) }
    | _, _ => s
  | .recv d data now lib =>
    let lib := s.library aead codec lib
    { s with
      peer := update s.peer d ((s.peer d).recv lib now ∅ (.data data)).peer
      accepted := update s.accepted d
        (s.accepted d ++ (acceptedMessage lib (s.peer d) now data).toList) }
  | .disconnect d => { s with peer := update s.peer d (s.peer d).internalDisconnect }

def start (id : Side → PeerID) (lastAttestation : Side → UInt64)
    (minimums : Side → MinimumValues) : Session H M where
  peer d :=
    { id := id d, tx := some (.start d), rx := some (.start d.other)
      lastAttestation := lastAttestation d, minimums := minimums d }

/-! ### Packets -/

variable {aead codec} {cs : CipherState} {log : List Sealed} {bs : List Bytes} {e : Sealed}

theorem packetLoop_encrypt (cs : CipherState) (bs : List Bytes) :
    packetLoop (aead.cipher log).encrypt cs bs =
      some (cs.advance bs.length, (aead.sealAll cs bs).flatMap Sealed.packet) := by
  induction bs generalizing cs with
  | nil => rfl
  | cons b bs ih =>
    refine packetLoop_cons.mpr ⟨_, _, _, rfl, ?_, List.flatMap_cons⟩
    rw [ih, CipherState.advance_advance, Nat.add_comm 1, List.length_cons]

/-- What the ideal cipher decrypts was made in the same state. -/
theorem mem_of_decrypt {cs' : CipherState} {c b : Bytes}
    (h : (aead.cipher log).decrypt cs c = some (cs', b)) :
    cs' = cs.advance 1 ∧ ⟨cs, c, b⟩ ∈ log := by
  obtain ⟨e, he, heq⟩ := Option.map_eq_some_iff.mp h
  obtain ⟨rfl, rfl⟩ := Prod.mk.inj heq
  have hmem := List.mem_of_find?_eq_some he
  have hsome := List.find?_some he
  obtain ⟨rfl, rfl⟩ := of_decide_eq_true hsome
  exact ⟨rfl, hmem⟩

theorem mem_sealAll (h : e ∈ aead.sealAll cs bs) :
    ∃ k b, bs[k]? = some b ∧ e = ⟨cs.advance k, aead.enc (cs.advance k) b, b⟩ := by
  induction bs generalizing cs with
  | nil => cases h
  | cons b bs ih =>
    rcases List.mem_cons.mp h with rfl | h
    · exact ⟨0, b, rfl, rfl⟩
    · obtain ⟨k, b', hb', rfl⟩ := ih h
      refine ⟨k + 1, b', hb', ?_⟩
      rw [CipherState.advance_advance, Nat.add_comm 1]

/-! ### The state after some messages -/

variable (codec) in
def packetCount (m : Message M) : Nat :=
  match codec.serialize m with
  | none => 0
  | some b => (piecesOf b).length

variable (codec) in
def nonces (ms : List (Message M)) : Nat := (ms.map (packetCount codec)).sum

variable (codec) in
/-- The cipher state of either side after these messages: every 256th is followed by a rekey. -/
def stateAfter (d : Side) (ms : List (Message M)) : CipherState :=
  { key := d, rekeys := ms.length / 256, n := nonces codec ms }

variable {d : Side} {m m' : Message M} {ms ms' rest rest' : List (Message M)} {b : Bytes}

theorem packetCount_eq (hb : codec.serialize m = some b) :
    packetCount codec m = (piecesOf b).length := by
  rw [packetCount, hb]

theorem nonces_append (ms ms' : List (Message M)) :
    nonces codec (ms ++ ms') = nonces codec ms + nonces codec ms' := by
  rw [nonces, List.map_append, List.sum_append, nonces, nonces]

variable (codec) in
/-- The counters of both sides wrap around after the same messages. -/
theorem stateAfter_concat (d : Side) (ms : List (Message M)) (m : Message M) :
    (if UInt8.ofNat ms.length + 1 = 0
      then ((stateAfter codec d ms).advance (packetCount codec m)).rekey
      else (stateAfter codec d ms).advance (packetCount codec m)) =
      stateAfter codec d (ms ++ [m]) := by
  have hwrap : UInt8.ofNat ms.length + 1 = 0 ↔ (ms.length + 1) % 256 = 0 := by
    rw [← UInt8.toNat_inj, UInt8.toNat_add, UInt8.toNat_ofNat']
    simp
  have hn : nonces codec (ms ++ [m]) = nonces codec ms + packetCount codec m := by
    rw [nonces_append]
    rfl
  have hlength : (ms ++ [m]).length = ms.length + 1 := List.length_append
  rw [stateAfter, stateAfter, hn, hlength]
  split_ifs with h
  · rw [hwrap] at h
    rw [show (ms.length + 1) / 256 = ms.length / 256 + 1 by omega]
    rfl
  · rw [hwrap] at h
    rw [show (ms.length + 1) / 256 = ms.length / 256 by omega]
    rfl

variable (codec) in
/-- Of two messages of a list, the packets of the earlier one come first. -/
theorem nonces_le (h : ms ++ m :: rest = ms' ++ m' :: rest') (hlt : ms.length < ms'.length) :
    nonces codec ms + packetCount codec m ≤ nonces codec ms' := by
  have hprefix : ms ++ [m] <+: ms' := by
    have hfirst : ms ++ [m] <+: ms' ++ m' :: rest' := by
      refine ⟨rest, ?_⟩
      rw [← h, List.append_assoc, List.singleton_append]
    refine List.prefix_of_prefix_length_le hfirst (List.prefix_append ..) ?_
    rw [List.length_append]
    exact hlt
  obtain ⟨ts, rfl⟩ := hprefix
  rw [nonces_append, nonces_append]
  exact Nat.le_add_right _ _

variable (aead codec) in
/-- Every packet of this side was made for one of its messages, in the state after the ones
    before. -/
def Logged (d : Side) (sent : List (Message M)) (log : List Sealed) : Prop :=
  ∀ e ∈ log, e.state.key = d → ∃ ms m rest b, sent = ms ++ m :: rest ∧
    codec.serialize m = some b ∧ e ∈ aead.sealAll (stateAfter codec d ms) (piecesOf b)

/-- A packet that is decrypted in a state that belongs to a message is one of this message. -/
theorem Logged.plaintext_eq (h : Logged aead codec d (ms ++ m :: rest) log)
    (hb : codec.serialize m = some b) {k : Nat} (hk : k < (piecesOf b).length)
    (he : e ∈ log) (hstate : e.state = (stateAfter codec d ms).advance k) :
    ∃ piece, (piecesOf b)[k]? = some piece ∧ e.packet = aead.enc e.state piece ∧
      e.plaintext = piece := by
  obtain ⟨ms', m', rest', b', hsent, hb', hmem⟩ := h e he (by rw [hstate]; rfl)
  obtain ⟨k', piece, hpiece, rfl⟩ := mem_sealAll hmem
  have hk' : k' < (piecesOf b').length := (List.getElem?_eq_some_iff.mp hpiece).1
  have hn : nonces codec ms' + k' = nonces codec ms + k := congrArg CipherState.n hstate
  -- the nonces of different messages do not overlap
  have hlength : ms.length = ms'.length := by
    rcases lt_trichotomy ms.length ms'.length with hlt | heq | hgt
    · have := nonces_le codec hsent hlt
      rw [packetCount_eq hb] at this
      omega
    · exact heq
    · have := nonces_le codec hsent.symm hgt
      rw [packetCount_eq hb'] at this
      omega
  obtain ⟨rfl, htail⟩ := List.append_inj hsent hlength
  obtain ⟨rfl, -⟩ := List.cons.inj htail
  obtain rfl := Option.some.inj (hb.symm.trans hb')
  obtain rfl : k' = k := Nat.add_left_cancel hn
  exact ⟨piece, hpiece, rfl, rfl⟩

/-- Nothing is decrypted in the state after all messages. -/
theorem Logged.not_mem (h : Logged aead codec d ms log) (he : e ∈ log) :
    e.state ≠ stateAfter codec d ms := by
  intro hstate
  obtain ⟨ms', m', rest', b', rfl, hb', hmem⟩ := h e he (by rw [hstate]; rfl)
  obtain ⟨k', piece, hpiece, rfl⟩ := mem_sealAll hmem
  have hk' : k' < (piecesOf b').length := (List.getElem?_eq_some_iff.mp hpiece).1
  have hn : nonces codec ms' + k' = nonces codec (ms' ++ m' :: rest') :=
    congrArg CipherState.n hstate
  have hcount : nonces codec (m' :: rest') = packetCount codec m' + nonces codec rest' :=
    List.sum_cons
  rw [nonces_append, hcount, packetCount_eq hb'] at hn
  omega

theorem Logged.packetLoop_eq (h : Logged aead codec d (ms ++ m :: rest) log)
    (hb : codec.serialize m = some b) {ds : List Bytes} {k : Nat} {cs' : CipherState} {out : Bytes}
    (hk : k + ds.length ≤ (piecesOf b).length)
    (hrun : packetLoop (aead.cipher log).decrypt ((stateAfter codec d ms).advance k) ds =
      some (cs', out)) :
    cs' = (stateAfter codec d ms).advance (k + ds.length) ∧
      out = (((piecesOf b).drop k).take ds.length).flatten := by
  induction ds generalizing k out with
  | nil =>
    obtain ⟨rfl, rfl⟩ := Prod.mk.inj (Option.some.inj hrun)
    exact ⟨rfl, rfl⟩
  | cons c ds ih =>
    obtain ⟨cs₁, first, last, hfirst, hlast, rfl⟩ := packetLoop_cons.mp hrun
    obtain ⟨rfl, hmem⟩ := mem_of_decrypt hfirst
    rw [List.length_cons] at hk
    obtain ⟨piece, hpiece, -, rfl⟩ := h.plaintext_eq hb (k := k) (by omega) hmem rfl
    rw [CipherState.advance_advance] at hlast
    obtain ⟨rfl, rfl⟩ := ih (by omega) hlast
    refine ⟨by rw [List.length_cons, Nat.add_assoc, Nat.add_comm 1], ?_⟩
    obtain ⟨hlt, hget⟩ := List.getElem?_eq_some_iff.mp hpiece
    rw [List.drop_eq_getElem_cons hlt, hget, List.length_cons, List.take_succ_cons,
      List.flatten_cons]

theorem Logged.decrypt_eq (h : Logged aead codec d (ms ++ m :: rest) log)
    (hb : codec.serialize m = some b) {data : Bytes} {cs' : CipherState} {out : Bytes}
    (hlength : (packetsOf data).length = (piecesOf b).length)
    (hrun : decrypt (aead.cipher log) (stateAfter codec d ms) data = some (cs', out)) :
    cs' = (stateAfter codec d ms).advance (packetCount codec m) ∧ out = b := by
  obtain ⟨rfl, rfl⟩ := h.packetLoop_eq hb (k := 0) (by rw [hlength, Nat.zero_add]) hrun
  rw [hlength, Nat.zero_add, packetCount_eq hb, List.drop_zero, List.take_length, flatten_piecesOf]
  exact ⟨rfl, rfl⟩

theorem Logged.first_packet (h : Logged aead codec d (ms ++ rest) log)
    (hserial : ∀ m ∈ rest, (codec.serialize m).isSome) {data : Bytes} {r : CipherState × Bytes}
    (hdata : data ≠ [])
    (hrun : decrypt (aead.cipher log) (stateAfter codec d ms) data = some r) :
    ∃ m rest' b, rest = m :: rest' ∧ codec.serialize m = some b ∧
      data.take maxMessageSize = aead.enc (stateAfter codec d ms) (b.take maxEncryptSize) := by
  obtain ⟨ps, hps, -⟩ := packetsOf_cons hdata
  obtain ⟨cs', out⟩ := r
  rw [decrypt, hps] at hrun
  obtain ⟨cs₁, first, last, hfirst, -, rfl⟩ := packetLoop_cons.mp hrun
  obtain ⟨-, hmem⟩ := mem_of_decrypt hfirst
  cases rest with
  | nil =>
    rw [List.append_nil] at h
    exact absurd rfl (h.not_mem hmem)
  | cons m rest' =>
    obtain ⟨b, hb⟩ := Option.isSome_iff_exists.mp (hserial m (List.mem_cons_self ..))
    obtain ⟨bs, hbs, -⟩ := piecesOf_cons b
    have hpos : 0 < (piecesOf b).length := by
      rw [hbs]
      exact Nat.succ_pos _
    obtain ⟨piece, hpiece, hpacket, -⟩ := h.plaintext_eq hb hpos hmem rfl
    rw [hbs] at hpiece
    obtain rfl := Option.some.inj hpiece
    exact ⟨m, rest', b, rfl, hb, hpacket⟩

theorem length_packetsOf_of_short {data : Bytes} (hdata : data ≠ [])
    (hshort : data.length < maxMessageSize)
    (hfirst : data.take maxMessageSize = aead.enc cs (b.take maxEncryptSize)) :
    (packetsOf data).length = (piecesOf b).length := by
  obtain ⟨ps, hps, hfull⟩ := packetsOf_cons hdata
  obtain ⟨bs, hbs, hfull'⟩ := piecesOf_cons b
  have hlength := congrArg List.length hfirst
  rw [List.take_of_length_le hshort.le, aead.length_enc] at hlength
  have hps' : ps = [] := by
    by_contra hne
    have := hfull hne
    rw [List.take_of_length_le hshort.le] at this
    omega
  have hbs' : bs = [] := by
    by_contra hne
    rw [hfull' hne, maxEncryptSize, maxMessageSize, macSize] at hlength
    rw [maxMessageSize] at hshort
    omega
  rw [hps, hbs, hps', hbs', List.length_singleton, List.length_singleton]

/-! ### The two peers -/

variable {p : Peer H CipherState} {lib : Library H CipherState M} {tx rx : CipherState}

theorem peer_send (lib : Library H CipherState M) {msg : Message M}
    (hconnected : p.internalCurrentState = .connected) (htx : p.tx = some tx)
    (hcipher : lib.cipher = aead.cipher log) (hb : lib.serialize msg = some b) :
    (p.send lib msg).peer =
      { p with
        tx := some (if p.txRekey + 1 = 0 then (tx.advance (piecesOf b).length).rekey
          else tx.advance (piecesOf b).length)
        txRekey := p.txRekey + 1 } := by
  rw [Peer.send, hconnected, htx]
  simp only [hb]
  rw [Peer.sendSerialized, encrypt, hcipher, packetLoop_encrypt]
  rfl

theorem peer_checkNextAttestation (now : UInt64) (a : Attestation) :
    (p.checkNextAttestation lib now a).err = .ok →
      ∃ t v, (p.checkNextAttestation lib now a).peer =
        { p with lastAttestation := t, minimums := v } := by
  rw [Peer.checkNextAttestation]
  intro h
  split at h
  · split_ifs at h ⊢
    exact ⟨_, _, rfl⟩
  · exact ⟨_, _, rfl⟩

/-- What `Recv` does with a message that parses: it accepts it, and the session goes on, or it
    disconnects. -/
theorem peer_recvPlaintext (lib : Library H CipherState M) (p : Peer H CipherState)
    {plaintext : Bytes} (now : UInt64) (hparse : lib.parse plaintext = some m) :
    (p.recvPlaintext lib now plaintext).err = .ok ∧
        (∃ t v, (p.recvPlaintext lib now plaintext).peer =
          { p with lastAttestation := t, minimums := v }) ∨
      (p.recvPlaintext lib now plaintext).err ≠ .ok ∧
        (p.recvPlaintext lib now plaintext).peer.internalCurrentState = .disconnected := by
  rw [Peer.recvPlaintext, hparse]
  cases m with
  | connected c => exact .inl ⟨rfl, _, _, rfl⟩
  | other m => exact .inl ⟨rfl, _, _, rfl⟩
  | attestationUpdate a =>
    dsimp only
    split
    · rename_i hok
      exact .inl ⟨hok, peer_checkNextAttestation now a hok⟩
    · rename_i herr
      exact .inr ⟨herr, rfl⟩

/-! ### The invariant -/

/-- The cipher state for one direction, and its counter. -/
def sending (p : Peer H CipherState) : Option CipherState × UInt8 := (p.tx, p.txRekey)

def receiving (p : Peer H CipherState) : Option CipherState × UInt8 := (p.rx, p.rxRekey)

variable (codec) in
def after (d : Side) (ms : List (Message M)) : Option CipherState × UInt8 :=
  (some (stateAfter codec d ms), UInt8.ofNat ms.length)

variable (aead codec) in
/-- What holds of the messages from one side to the other. -/
structure Channel (s : Session H M) (d : Side) : Prop where
  serial : ∀ m ∈ s.sent d, (codec.serialize m).isSome
  logged : Logged aead codec d (s.sent d) s.sealed
  isPrefix : s.accepted d.other <+: s.sent d
  sending : (s.peer d).internalCurrentState = .connected →
    sending (s.peer d) = after codec d (s.sent d)
  receiving : (s.peer d.other).internalCurrentState = .connected →
    receiving (s.peer d.other) = after codec d (s.accepted d.other)

variable (aead codec) in
/-- A message that is sent can be serialized.  Data that is received is not empty, and if it is long
    and begins with the first packet of the next message, it has as many packets as this one. -/
def Intact (s : Session H M) : SessionEvent H M → Prop
  | .send _ msg _ => (codec.serialize msg).isSome
  | .recv d data _ _ => data ≠ [] ∧ (maxMessageSize ≤ data.length →
      ∀ m ∈ (s.sent d.other)[(s.accepted d).length]?, ∀ b ∈ codec.serialize m,
        ∀ rx ∈ (s.peer d).rx,
          data.take maxMessageSize = aead.enc rx (b.take maxEncryptSize) →
            (packetsOf data).length = (piecesOf b).length)
  | .disconnect _ => True

variable {s : Session H M}

theorem ofNat_length_concat (ms : List (Message M)) (m : Message M) :
    UInt8.ofNat (ms ++ [m]).length = UInt8.ofNat ms.length + 1 := by
  rw [List.length_append, UInt8.ofNat_add]
  rfl

theorem Logged.append_other (h : Logged aead codec d ms log) (hcs : cs.key ≠ d) (bs : List Bytes) :
    Logged aead codec d ms (log ++ aead.sealAll cs bs) := by
  intro e he hkey
  rcases List.mem_append.mp he with he | he
  · exact h e he hkey
  · obtain ⟨k, b, -, rfl⟩ := mem_sealAll he
    exact absurd hkey hcs

theorem Logged.concat (h : Logged aead codec d ms log) (hb : codec.serialize m = some b) :
    Logged aead codec d (ms ++ [m])
      (log ++ aead.sealAll (stateAfter codec d ms) (piecesOf b)) := by
  intro e he hkey
  rcases List.mem_append.mp he with he | he
  · obtain ⟨ms', m', rest', b', rfl, hb', hmem⟩ := h e he hkey
    exact ⟨ms', m', rest' ++ [m], b', List.append_assoc .., hb', hmem⟩
  · exact ⟨ms, m, [], b, rfl, hb, he⟩

def Keeps {α : Type} (f : Peer H CipherState → α) (p p' : Peer H CipherState) : Prop :=
  p'.internalCurrentState = .connected → p.internalCurrentState = .connected ∧ f p' = f p

section Keeps

variable {α : Type} {f : Peer H CipherState → α} {p' : Peer H CipherState}

theorem Keeps.of_eq (h : p' = p) : Keeps f p p' := by
  rw [h]
  exact fun hconnected => ⟨hconnected, rfl⟩

theorem Keeps.of_disconnected (h : p'.internalCurrentState = .disconnected) : Keeps f p p' := by
  rw [Keeps, h]
  nofun

theorem Keeps.update {peer : Side → Peer H CipherState} {e : Side} (h : Keeps f (peer e) p')
    (d : Side) : Keeps f (peer d) (update peer e p' d) := by
  by_cases hd : d = e
  · rw [hd, update_self]
    exact h
  · exact .of_eq (update_of_ne hd ..)

end Keeps

theorem Channel.frame {s' : Session H M} (h : Channel aead codec s d)
    (hsent : s'.sent d = s.sent d) (haccepted : s'.accepted d.other = s.accepted d.other)
    (hlogged : Logged aead codec d (s.sent d) s'.sealed)
    (htx : Keeps Session.sending (s.peer d) (s'.peer d))
    (hrx : Keeps Session.receiving (s.peer d.other) (s'.peer d.other)) :
    Channel aead codec s' d where
  serial := by rw [hsent]; exact h.serial
  logged := by rw [hsent]; exact hlogged
  isPrefix := by rw [hsent, haccepted]; exact h.isPrefix
  sending hconnected := by
    obtain ⟨hconnected, htx⟩ := htx hconnected
    rw [htx, hsent]
    exact h.sending hconnected
  receiving hconnected := by
    obtain ⟨hconnected, hrx⟩ := hrx hconnected
    rw [hrx, haccepted]
    exact h.receiving hconnected

/-- What `Recv` does with data that the condition allows: it accepts the next message, or none. -/
theorem Channel.recv_cases (h : Channel aead codec s d) {data : Bytes} {now : UInt64}
    (hintact : Intact aead codec s (.recv d.other data now lib)) :
    acceptedMessage (s.library aead codec lib) (s.peer d.other) now data = none ∧
        (((s.peer d.other).recv (s.library aead codec lib) now ∅ (.data data)).peer =
            s.peer d.other ∨
          ((s.peer d.other).recv (s.library aead codec lib) now ∅
            (.data data)).peer.internalCurrentState = .disconnected) ∨
      ∃ m rest t v, s.sent d = s.accepted d.other ++ m :: rest ∧
        (s.peer d.other).internalCurrentState = .connected ∧
        acceptedMessage (s.library aead codec lib) (s.peer d.other) now data = some m ∧
        ((s.peer d.other).recv (s.library aead codec lib) now ∅ (.data data)).peer =
          { s.peer d.other with
            rx := some (stateAfter codec d (s.accepted d.other ++ [m]))
            rxRekey := UInt8.ofNat (s.accepted d.other ++ [m]).length
            lastAttestation := t, minimums := v } := by
  obtain ⟨hdata, hintact⟩ := hintact
  rw [Side.other_other] at hintact
  cases hstate : (s.peer d.other).internalCurrentState with
  | disconnected =>
    refine .inl ⟨?_, .inl ?_⟩
    · rw [acceptedMessage, hstate]
    · rw [Peer.recv, hstate]
  | connecting =>
    refine .inl ⟨?_, .inl ?_⟩
    · rw [acceptedMessage, hstate]
    · rw [Peer.recv, hstate]
  | connected =>
    obtain ⟨hrx, hrekey⟩ := Prod.mk.inj (h.receiving hstate)
    rw [acceptedMessage, Peer.recv, hstate, hrx]
    dsimp only
    cases hdecrypt : decrypt (s.library aead codec lib).cipher
      (stateAfter codec d (s.accepted d.other)) data with
    | none =>
      refine .inl ⟨rfl, .inr ?_⟩
      rw [Peer.recvData, hdecrypt]
      rfl
    | some r =>
      obtain ⟨rest, hsent⟩ := h.isPrefix
      have hlogged := h.logged
      have hserial := h.serial
      rw [← hsent] at hlogged hserial
      obtain ⟨m, rest, b, rfl, hb, hfirst⟩ := hlogged.first_packet
        (fun m hm => hserial m (List.mem_append_right _ hm)) hdata hdecrypt
      have hlength : (packetsOf data).length = (piecesOf b).length := by
        rcases Nat.lt_or_ge data.length maxMessageSize with hshort | hlong
        · exact length_packetsOf_of_short hdata hshort hfirst
        · refine hintact hlong m ?_ b hb _ hrx hfirst
          rw [← hsent, List.getElem?_append_right le_rfl, Nat.sub_self]
          rfl
      obtain ⟨cs', out⟩ := r
      obtain ⟨rfl, rfl⟩ := hlogged.decrypt_eq hb hlength hdecrypt
      have hnext := stateAfter_concat codec d (s.accepted d.other) m
      rw [← hrekey] at hnext
      obtain ⟨q, hq⟩ : ∃ q, q = { s.peer d.other with
          rx := some (stateAfter codec d (s.accepted d.other ++ [m]))
          rxRekey := UInt8.ofNat (s.accepted d.other ++ [m]).length } := ⟨_, rfl⟩
      have hrecv : (s.peer d.other).recvData (s.library aead codec lib)
          (stateAfter codec d (s.accepted d.other)) now data =
            q.recvPlaintext (s.library aead codec lib) now out := by
        rw [Peer.recvData, hdecrypt, hq, ← hnext, ofNat_length_concat, ← hrekey]
        rfl
      have hparse := codec.parse_serialize m out hb
      rw [hrecv]
      dsimp only
      rcases peer_recvPlaintext (s.library aead codec lib) q now hparse with
        ⟨hok, t, v, hpeer⟩ | ⟨herr, hpeer⟩
      · rw [if_pos hok, hpeer, hq]
        exact .inr ⟨m, rest, t, v, hsent.symm, rfl, hparse, rfl⟩
      · rw [if_neg herr]
        exact .inl ⟨rfl, .inr hpeer⟩

theorem Channel.send (h : Channel aead codec s d) {msg : Message M}
    (hstate : (s.peer d).internalCurrentState = .connected) (hb : codec.serialize msg = some b)
    (lib : Library H CipherState M) :
    ((s.peer d).send (s.library aead codec lib) msg).peer =
      { s.peer d with
        tx := some (stateAfter codec d (s.sent d ++ [msg]))
        txRekey := UInt8.ofNat (s.sent d ++ [msg]).length } := by
  obtain ⟨htx, hrekey⟩ := Prod.mk.inj (h.sending hstate)
  have hnext := stateAfter_concat codec d (s.sent d) msg
  rw [peer_send (s.library aead codec lib) hstate htx rfl hb, ← hnext, packetCount_eq hb,
    ofNat_length_concat, ← hrekey]

theorem channel_send (h : ∀ d, Channel aead codec s d) (e : Side) (msg : Message M)
    (lib : Library H CipherState M) (hserial : (codec.serialize msg).isSome) (d : Side) :
    Channel aead codec (s.step aead codec (.send e msg lib)) d := by
  rw [Session.step]
  split
  swap
  · exact h d
  rename_i tx hstate htx
  obtain ⟨b, hb⟩ := Option.isSome_iff_exists.mp hserial
  obtain rfl := Option.some.inj (htx.symm.trans (Prod.mk.inj ((h e).sending hstate)).1)
  rw [(h e).send hstate hb, sealMessage, hb]
  have hrx : Keeps receiving (s.peer e) { s.peer e with
      tx := some (stateAfter codec e (s.sent e ++ [msg]))
      txRekey := UInt8.ofNat (s.sent e ++ [msg]).length } := fun _ => ⟨hstate, rfl⟩
  rcases Side.eq_or_eq_other d e with rfl | rfl
  · refine ⟨?_, ?_, ?_, fun _ => ?_, ?_⟩ <;> dsimp only
    · intro m hm
      rw [update_self] at hm
      rcases List.mem_append.mp hm with hm | hm
      · exact (h e).serial m hm
      · rw [List.mem_singleton.mp hm]
        exact hserial
    · rw [update_self]
      exact (h e).logged.concat hb
    · rw [update_self]
      exact (h e).isPrefix.trans (List.prefix_append ..)
    · rw [update_self, update_self]
      rfl
    · rw [update_of_ne e.other_ne]
      exact (h e).receiving
  · exact (h d).frame (update_of_ne d.other_ne.symm ..) rfl
      ((h d).logged.append_other d.other_ne _) (.of_eq (update_of_ne d.other_ne.symm ..))
      (hrx.update d.other)

theorem channel_recv (h : ∀ d, Channel aead codec s d) (e : Side) (data : Bytes) (now : UInt64)
    (lib : Library H CipherState M) (hintact : Intact aead codec s (.recv e data now lib))
    (d : Side) : Channel aead codec (s.step aead codec (.recv e data now lib)) d := by
  rw [Session.step]
  rcases Side.eq_or_eq_other d e with rfl | rfl
  · have hcases := (h e.other).recv_cases (by rw [Side.other_other]; exact hintact)
    rw [Side.other_other] at hcases
    have htx : Keeps sending (s.peer e)
        ((s.peer e).recv (s.library aead codec lib) now ∅ (.data data)).peer := by
      rcases hcases with ⟨-, hpeer | hpeer⟩ | ⟨m, rest, t, v, -, hstate, -, hpeer⟩
      · exact .of_eq hpeer
      · exact .of_disconnected hpeer
      · rw [hpeer]
        exact fun _ => ⟨hstate, rfl⟩
    exact (h e).frame rfl (update_of_ne e.other_ne ..) (h e).logged (htx.update e)
      (.of_eq (update_of_ne e.other_ne ..))
  · have htx : (update s.peer d.other
        ((s.peer d.other).recv (s.library aead codec lib) now ∅ (.data data)).peer) d =
          s.peer d := update_of_ne d.other_ne.symm ..
    rcases (h d).recv_cases hintact with ⟨hnone, hpeer⟩ |
      ⟨m, rest, t, v, hsent, hstate, hsome, hpeer⟩
    · have hrx : Keeps receiving (s.peer d.other)
          ((s.peer d.other).recv (s.library aead codec lib) now ∅ (.data data)).peer :=
        hpeer.elim .of_eq .of_disconnected
      rw [hnone, Option.toList_none, List.append_nil, update_eq_self]
      exact (h d).frame rfl rfl (h d).logged (.of_eq htx) (hrx.update d.other)
    · refine ⟨(h d).serial, (h d).logged, ?_, ?_, fun _ => ?_⟩ <;> dsimp only
      · rw [hsome, update_self]
        refine ⟨rest, ?_⟩
        rw [hsent, List.append_assoc]
        rfl
      · rw [htx]
        exact (h d).sending
      · rw [hsome, update_self, update_self, hpeer]
        rfl

theorem channel_step (h : ∀ d, Channel aead codec s d) (e : SessionEvent H M)
    (hintact : Intact aead codec s e) (d : Side) : Channel aead codec (s.step aead codec e) d := by
  cases e with
  | send e msg lib => exact channel_send h e msg lib hintact d
  | recv e data now lib => exact channel_recv h e data now lib hintact d
  | disconnect e =>
    exact (h d).frame rfl rfl (h d).logged (Keeps.update (.of_disconnected rfl) d)
      (Keeps.update (.of_disconnected rfl) d.other)

theorem after_nil (d : Side) : after codec d [] = (some (.start d), 0) := by
  rw [after, stateAfter, nonces, List.map_nil, List.sum_nil, List.length_nil, Nat.zero_div]
  rfl

theorem channel_start (id : Side → PeerID) (lastAttestation : Side → UInt64)
    (minimums : Side → MinimumValues) (d : Side) :
    Channel aead codec (start id lastAttestation minimums : Session H M) d := by
  refine ⟨nofun, nofun, List.nil_prefix, fun _ => (after_nil d).symm, fun _ => ?_⟩
  have hkey : receiving ((start id lastAttestation minimums : Session H M).peer d.other) =
      (some (.start d.other.other), 0) := rfl
  rw [hkey, Side.other_other]
  exact (after_nil d).symm

/-- What `Recv` accepts is a beginning of what the other side has sent, and both sides are in the
    same state after the same messages; in particular both rekey after every 256th. -/
theorem accepted_prefix_sent (id : Side → PeerID) (lastAttestation : Side → UInt64)
    (minimums : Side → MinimumValues) (es : List (SessionEvent H M))
    (hintact : Along (step aead codec) (Intact aead codec) (start id lastAttestation minimums) es)
    (d : Side) :
    let s := es.foldl (step aead codec) (start id lastAttestation minimums)
    s.accepted d.other <+: s.sent d ∧
      ((s.peer d).internalCurrentState = .connected →
        (s.peer d).tx = some (stateAfter codec d (s.sent d))) ∧
      ((s.peer d.other).internalCurrentState = .connected →
        (s.peer d.other).rx = some (stateAfter codec d (s.accepted d.other))) := by
  intro s
  have hchannel : ∀ d, Channel aead codec s d :=
    hintact.invariant (P := fun s => ∀ d, Channel aead codec s d)
      (fun s e h he d => channel_step h e he d) (channel_start id lastAttestation minimums)
  refine ⟨(hchannel d).isPrefix, fun hconnected => ?_, fun hconnected => ?_⟩
  · exact (Prod.mk.inj ((hchannel d).sending hconnected)).1
  · exact (Prod.mk.inj ((hchannel d).receiving hconnected)).1

/-! ### An empty message from the host -/

def sampleAead : Aead where
  enc cs b := b ++ List.replicate macSize (Fin.ofNat 256 cs.n)
  length_enc cs b := by rw [List.length_append, List.length_replicate]

/-- The message without content is serialized to no bytes at all, as protobufs are. -/
def sampleCodec : Codec Unit where
  parse
    | [] => some (.other ())
    | [0] => some (.connected false)
    | [1] => some (.connected true)
    | _ => none
  serialize
    | .other () => some []
    | .connected false => some [0]
    | .connected true => some [1]
    | .attestationUpdate _ => none
  parse_serialize m b h := by
    cases m with
    | connected c => cases c <;> (cases h; rfl)
    | attestationUpdate a => cases h
    | other m =>
      cases h
      rfl

def sampleSessionLibrary : Library Unit CipherState Unit where
  attest _ _ := ({ publicKey := [], minimumValues := ∅ }, .ok)
  handshakeNew _ := none
  dhCopy := some
  setPublicKey h _ := some h
  start := some
  action _ := .none
  readMessage h _ := some h
  writeMessage h := some (h, [])
  split _ := none
  cipher := sampleAead.cipher []
  parseConnect _ := none
  serializeConnect _ := none
  parse := sampleCodec.parse
  serialize := sampleCodec.serialize

def sampleStart : Session Unit Unit :=
  start (fun _ => ⟨List.replicate 32 7, rfl⟩) (fun _ => 0) fun _ => ∅

def sampleSend (msg : Message Unit) : SessionEvent Unit Unit :=
  .send .left msg sampleSessionLibrary

def sampleRecv (data : Bytes) : SessionEvent Unit Unit := .recv .right data 0 sampleSessionLibrary

/-- The first of two messages arrives, and then once more. -/
def sampleReplay : List (SessionEvent Unit Unit) :=
  [sampleSend (.connected true), sampleSend (.other ()), sampleRecv (1 :: List.replicate 16 0),
    sampleRecv (1 :: List.replicate 16 0)]

theorem intact_sampleReplay :
    Along (step sampleAead sampleCodec) (Intact sampleAead sampleCodec) sampleStart
      sampleReplay :=
  ⟨rfl, rfl, ⟨by rintro ⟨⟩, fun h => absurd h (by decide)⟩,
    ⟨by rintro ⟨⟩, fun h => absurd h (by decide)⟩, trivial⟩

theorem accepted_prefix_sent_sampleReplay :
    (sampleReplay.foldl (step sampleAead sampleCodec) sampleStart).accepted .right =
        [.connected true] ∧
      (sampleReplay.foldl (step sampleAead sampleCodec) sampleStart).accepted .right <+:
        (sampleReplay.foldl (step sampleAead sampleCodec) sampleStart).sent .left :=
  ⟨by decide +kernel,
    (accepted_prefix_sent _ _ _ sampleReplay intact_sampleReplay .left).1⟩

/-- `Decrypt` of nothing succeeds, so `Recv` accepts a message that nobody has sent. -/
theorem accepted_empty_data :
    let s := [sampleRecv []].foldl (step sampleAead sampleCodec) sampleStart
    s.accepted .right = [.other ()] ∧ s.sent .left = [] ∧ ¬ s.accepted .right <+: s.sent .left := by
  decide +kernel

end Session

end SVR2.Peers
