import SVR2.Core.Handlers
import SVR2.DB.Wire
import SVR2.Raft.Safety

/-!
# Enclaves and the network between them

Between two enclaves, messages arrive in the order in which they were sent, and any of them may be
lost.  Data that comes twice, out of order or after a loss on the same connection does not decrypt.
What is not encrypted (the messages that set up or end a connection) and data that does not decrypt
can come at any time, since the hosts carry the messages.  A connection of an enclave with itself is
not modelled.  A run is the list of its events.
-/

namespace SVR2

variable {Hash DB : Type} [Database DB]

/-- The enclaves that were started, and for any two of them what is on its way from the first to the
    second, the oldest message first, and whether a message was lost since the connection was set up.
    An enclave whose process has ended stays as it was then. -/
structure Cluster (Hash DB : Type) [Database DB] where
  cores : PeerId → Option (Core Hash DB)
  links : PeerId → PeerId → List (PeerMessage Hash)
  broken : PeerId → PeerId → Bool

/-- What can happen.  `host` is a message of the host of an enclave; `deliver` hands the oldest
    message between two enclaves to the second; `lose` drops it. -/
inductive ClusterEvent (Hash DB : Type) [Database DB] where
  | start (p : PeerId) (groupConfig : RaftGroupConfig) (config : EnclaveConfig) (o : CoreOracle)
      (time : Nat)
  | host (p : PeerId) (o : CoreOracle) (msg : UntrustedMessage Hash DB)
  | deliver (src dst : PeerId) (o : CoreOracle)
  | lose (src dst : PeerId)

def ClusterEvent.groupConfig? : ClusterEvent Hash DB → Option RaftGroupConfig
  | .start _ groupConfig _ _ _ => some groupConfig
  | _ => none

def ClusterEvent.receiver : ClusterEvent Hash DB → Option PeerId
  | .start .. => none
  | .host p _ _ => some p
  | .deliver _ dst _ => some dst
  | .lose .. => none

/-- A message that a host can make up: it is encrypted for nobody. -/
def UntrustedMessage.fromHost (p : PeerId) : UntrustedMessage Hash DB → Bool
  | .peerMessage _ (.data _) => false
  | .peerMessage src _ => src ≠ p
  | _ => true

/-- What an enclave has sent to `dst` while it handled its latest message. -/
def Core.sentTo (c : Core Hash DB) (dst : PeerId) : List (PeerMessage Hash) :=
  c.out.filterMap fun
    | .peerMessage p msg => if p = dst then some msg else none
    | .h2eResponse _ _ => none

namespace Cluster

variable [DecidableEq Hash] [Platform Hash] [PushSize Hash]

def empty : Cluster Hash DB where
  cores _ := none
  links _ _ := []
  broken _ _ := false

def handle (s : Cluster Hash DB) (p : PeerId) (o : CoreOracle) (msg : UntrustedMessage Hash DB) :
    Cluster Hash DB :=
  match s.cores p with
  | none => s
  | some c =>
    if c.aborted then s
    else
      let c := (c.receive o msg).1
      { s with
        cores := Function.update s.cores p (some c)
        links := Function.update s.links p fun dst => s.links p dst ++ c.sentTo dst }

/-- Take the oldest message between two enclaves off its way, and note whether one was lost. -/
def dropHead (s : Cluster Hash DB) (src dst : PeerId) (lost : Bool) : Cluster Hash DB :=
  { s with
    links := Function.update s.links src (Function.update (s.links src) dst (s.links src dst).tail)
    broken := Function.update s.broken src (Function.update (s.broken src) dst lost) }

/-- What the oldest message between two enclaves is for the second, and whether later data decrypts
    there. -/
def arriving (s : Cluster Hash DB) (src dst : PeerId) : Option (PeerMessage Hash × Bool) :=
  (s.links src dst).head?.map fun
    | .syn => (.syn, false)
    | .synack => (.synack, false)
    | .data msg => (if s.broken src dst then .garbled else .data msg, s.broken src dst)
    | .rst => (.rst, s.broken src dst)
    | .garbled => (.garbled, s.broken src dst)

/-- One event. -/
def apply (s : Cluster Hash DB) : ClusterEvent Hash DB → Cluster Hash DB
  | .start p groupConfig config o time =>
    match s.cores p, Core.create p groupConfig config o time with
    | none, .ok c => { s with cores := Function.update s.cores p (some c) }
    | _, _ => s
  | .host p o msg => if msg.fromHost p then s.handle p o msg else s
  | .deliver src dst o =>
    if src = dst then s
    else match s.arriving src dst with
      | none => s
      | some (msg, lost) => (s.dropHead src dst lost).handle dst o (.peerMessage src msg)
  | .lose src dst => s.dropHead src dst true

def run (s : Cluster Hash DB) (es : List (ClusterEvent Hash DB)) : Cluster Hash DB :=
  es.foldl apply s

/-- The message that an event hands to an enclave that runs, with the enclave. -/
def handled (s : Cluster Hash DB) :
    ClusterEvent Hash DB → Option (Core Hash DB × CoreOracle × UntrustedMessage Hash DB)
  | .start .. => none
  | .host p o msg =>
    if msg.fromHost p then (s.cores p).bind fun c => if c.aborted then none else some (c, o, msg)
    else none
  | .deliver src dst o =>
    if src = dst then none
    else (s.arriving src dst).bind fun msg => (s.cores dst).bind fun c =>
      if c.aborted then none else some (c, o, .peerMessage src msg.1)
  | .lose .. => none

/-- In a run from `s`, every message that an enclave handles meets a condition. -/
def Along (H : Core Hash DB → CoreOracle → UntrustedMessage Hash DB → Prop) :
    Cluster Hash DB → List (ClusterEvent Hash DB) → Prop
  | _, [] => True
  | s, e :: es => (∀ x ∈ s.handled e, H x.1 x.2.1 x.2.2) ∧ Along H (s.apply e) es

instance (H : Core Hash DB → CoreOracle → UntrustedMessage Hash DB → Prop)
    [∀ c o m, Decidable (H c o m)] (s : Cluster Hash DB) (es : List (ClusterEvent Hash DB)) :
    Decidable (s.Along H es) := by
  induction es generalizing s with
  | nil => exact inferInstanceAs (Decidable True)
  | cons e es ih =>
    have := ih (s.apply e)
    exact inferInstanceAs (Decidable (_ ∧ _))

theorem along_of_forall {H : Core Hash DB → CoreOracle → UntrustedMessage Hash DB → Prop}
    (h : ∀ c o m, H c o m) (es : List (ClusterEvent Hash DB)) (s : Cluster Hash DB) :
    s.Along H es := by
  induction es generalizing s with
  | nil => trivial
  | cons e es ih => exact ⟨fun x _ => h x.1 x.2.1 x.2.2, ih (s.apply e)⟩

theorem cores_handle (s : Cluster Hash DB) (q : PeerId) (o : CoreOracle)
    (m : UntrustedMessage Hash DB) (p : PeerId) :
    (s.handle q o m).cores p = if q = p then
      (s.cores p).map fun c => if c.aborted then c else (c.receive o m).1 else s.cores p := by
  rw [handle]
  by_cases hq : q = p
  · subst hq
    rw [if_pos rfl]
    cases hc : s.cores q with
    | none => exact hc
    | some c =>
      dsimp only
      by_cases haborted : c.aborted = true
      · simp [haborted, hc]
      · simp [haborted]
  · rw [if_neg hq]
    split
    · rfl
    · split_ifs
      · rfl
      · exact Function.update_of_ne (Ne.symm hq) _ _

/-- An event hands the enclave a message, starts it, or leaves it as it was. -/
theorem cores_apply_eq (s : Cluster Hash DB) (e : ClusterEvent Hash DB) (p : PeerId) :
    (∃ c o m, e.receiver = some p ∧ s.handled e = some (c, o, m) ∧ s.cores p = some c ∧
        c.aborted = false ∧ (s.apply e).cores p = some (c.receive o m).1) ∨
      (e.receiver = some p → s.handled e = none) ∧ ((s.apply e).cores p = s.cores p ∨
        s.cores p = none ∧ ∃ groupConfig config o time c,
          Core.create p groupConfig config o time = .ok c ∧ (s.apply e).cores p = some c) := by
  -- a message for the enclave `q`, once it has been taken off its way
  have hhandle : ∀ (s' : Cluster Hash DB) (q : PeerId) (o : CoreOracle) (m : UntrustedMessage Hash DB),
      s'.cores = s.cores →
      (∃ c, q = p ∧ s.cores p = some c ∧ c.aborted = false ∧
        (s'.handle q o m).cores p = some (c.receive o m).1) ∨
      (q = p → ∀ c, s.cores p = some c → c.aborted = true) ∧ (s'.handle q o m).cores p = s.cores p := by
    intro s' q o m hcores
    rw [cores_handle, hcores]
    by_cases hq : q = p
    · rw [if_pos hq]
      cases hc : s.cores p with
      | none => exact .inr ⟨by simp, rfl⟩
      | some c =>
        cases haborted : c.aborted with
        | false => exact .inl ⟨c, hq, rfl, haborted, by simp [haborted]⟩
        | true => exact .inr ⟨by simp [haborted], by simp [haborted]⟩
    · exact .inr ⟨fun h => absurd h hq, if_neg hq⟩
  cases e with
  | start q groupConfig config o time =>
    refine .inr ⟨nofun, ?_⟩
    rw [apply]
    split
    · rename_i c hnone hcreate
      by_cases hq : p = q
      · subst hq
        exact .inr ⟨hnone, _, _, _, _, c, hcreate, Function.update_self ..⟩
      · exact .inl (Function.update_of_ne hq _ _)
    · exact .inl rfl
  | host q o m =>
    rw [apply, handled, ClusterEvent.receiver]
    split_ifs with hfrom
    · rcases hhandle s q o m rfl with ⟨c, rfl, hc, haborted, heq⟩ | ⟨hnone, heq⟩
      · exact .inl ⟨c, o, m, rfl, by simp [hc, haborted], hc, haborted, heq⟩
      · refine .inr ⟨fun hq => ?_, .inl heq⟩
        obtain rfl := Option.some.inj hq
        cases hc : s.cores q with
        | none => rfl
        | some c => simp [hnone rfl c hc]
    · exact .inr ⟨fun _ => rfl, .inl rfl⟩
  | deliver src dst o =>
    rw [apply, handled, ClusterEvent.receiver]
    split_ifs with hself
    · exact .inr ⟨fun _ => rfl, .inl rfl⟩
    · split
      · rename_i harrive
        exact .inr ⟨fun _ => by rw [harrive]; rfl, .inl rfl⟩
      · rename_i msg lost harrive
        rw [harrive]
        rcases hhandle (s.dropHead src dst lost) dst o (.peerMessage src msg) rfl with
          ⟨c, rfl, hc, haborted, heq⟩ | ⟨hnone, heq⟩
        · exact .inl ⟨c, o, _, rfl, by simp [hc, haborted], hc, haborted, heq⟩
        · refine .inr ⟨fun hq => ?_, .inl heq⟩
          obtain rfl := Option.some.inj hq
          cases hc : s.cores dst with
          | none => rfl
          | some c => simp [hnone rfl c hc]
  | lose src dst => exact .inr ⟨nofun, .inl rfl⟩

theorem cores_apply (s : Cluster Hash DB) (e : ClusterEvent Hash DB) {p : PeerId}
    {c : Core Hash DB} (hc : (s.apply e).cores p = some c) :
    s.cores p = some c ∨
      (∃ groupConfig config o time, Core.create p groupConfig config o time = .ok c) ∨
      ∃ c' o m, s.cores p = some c' ∧ c'.aborted = false ∧ s.handled e = some (c', o, m) ∧
        c = (c'.receive o m).1 := by
  rcases s.cores_apply_eq e p with ⟨c', o, m, -, hhandled, hc', halive, heq⟩ |
    ⟨-, heq | ⟨-, groupConfig, config, o, time, c', hcreate, heq⟩⟩
  · exact .inr (.inr ⟨c', o, m, hc', halive, hhandled, Option.some.inj (hc.symm.trans heq)⟩)
  · exact .inl (heq ▸ hc)
  · exact .inr (.inl ⟨groupConfig, config, o, time, Option.some.inj (heq.symm.trans hc) ▸ hcreate⟩)

omit [DecidableEq Hash] [Platform Hash] [PushSize Hash] in
theorem cores_of_handled {s : Cluster Hash DB} {e : ClusterEvent Hash DB} {c : Core Hash DB}
    {o : CoreOracle} {m : UntrustedMessage Hash DB} (h : s.handled e = some (c, o, m)) :
    ∃ p, s.cores p = some c ∧ c.aborted = false := by
  have hruns : ∀ {p o' m'}, ((s.cores p).bind fun c' => if c'.aborted then none else
      some (c', o', m')) = some (c, o, m) → ∃ p, s.cores p = some c ∧ c.aborted = false := by
    intro p o' m' h
    obtain ⟨c', hc', h⟩ := Option.bind_eq_some_iff.mp h
    split_ifs at h with haborted
    cases h
    exact ⟨p, hc', by simpa using haborted⟩
  cases e with
  | start => cases h
  | host p o' m' =>
    rw [handled] at h
    split_ifs at h
    exact hruns h
  | deliver src dst o' =>
    rw [handled] at h
    split_ifs at h
    obtain ⟨msg, -, h⟩ := Option.bind_eq_some_iff.mp h
    exact hruns h
  | lose => cases h

/-- What holds of every enclave when it starts and is kept by every message it handles holds of
    every enclave in every run. -/
theorem cores_run {H : Core Hash DB → CoreOracle → UntrustedMessage Hash DB → Prop}
    {P : Core Hash DB → Prop}
    (hcreate : ∀ {p groupConfig config o time c},
      Core.create p groupConfig config o time = .ok c → P c)
    (hreceive : ∀ c o m, c.aborted = false → P c → H c o m → P (c.receive o m).1)
    (es : List (ClusterEvent Hash DB)) (s : Cluster Hash DB) (hs : ∀ p c, s.cores p = some c → P c)
    (hH : s.Along H es) : ∀ p c, (s.run es).cores p = some c → P c := by
  induction es generalizing s with
  | nil => exact hs
  | cons e es ih =>
    refine ih (s.apply e) (fun p c hc => ?_) hH.2
    rcases s.cores_apply e hc with h | ⟨_, _, _, _, h⟩ | ⟨c', o, m, hc', halive, hhandled, rfl⟩
    · exact hs p c h
    · exact hcreate h
    · exact hreceive c' o m halive (hs p c' hc') (hH.1 _ hhandled)

theorem along_run {H H' : Core Hash DB → CoreOracle → UntrustedMessage Hash DB → Prop}
    {P : Core Hash DB → Prop}
    (hcreate : ∀ {p groupConfig config o time c},
      Core.create p groupConfig config o time = .ok c → P c)
    (hreceive : ∀ c o m, c.aborted = false → P c → H c o m → P (c.receive o m).1)
    (hhandles : ∀ c o m, c.aborted = false → P c → H c o m → H' c o m)
    (es : List (ClusterEvent Hash DB)) (s : Cluster Hash DB) (hs : ∀ p c, s.cores p = some c → P c)
    (hH : s.Along H es) : s.Along H' es := by
  induction es generalizing s with
  | nil => trivial
  | cons e es ih =>
    refine ⟨fun x hx => ?_, ih (s.apply e) ?_ hH.2⟩
    · obtain ⟨p, hc, halive⟩ := cores_of_handled hx
      exact hhandles _ _ _ halive (hs p _ hc) (hH.1 x hx)
    · exact cores_run hcreate hreceive [e] s hs ⟨hH.1, trivial⟩

/-- The messages that enclave `p` handles in a run. -/
def history (p : PeerId) :
    Cluster Hash DB → List (ClusterEvent Hash DB) → List (CoreOracle × UntrustedMessage Hash DB)
  | _, [] => []
  | s, e :: es =>
    match s.handled e with
    | some (c, o, msg) => if c.me = p then (o, msg) :: history p (s.apply e) es
      else history p (s.apply e) es
    | none => history p (s.apply e) es

end Cluster

/-! ### Samples -/

namespace Sample

def coreOracle (randomBytes : Nat) : CoreOracle where
  raft _ := oracle
  randomBytesErr := .ok
  randomBytes := randomBytes
  attest := .ok ∅
  connect _ := .ok
  peerEvidence := .ok
  clientEvidence := .ok
  clientInit := .ok
  finishHandshake := .ok
  encryptResponse _ := .ok
  newKey := []
  attestationTooOld _ := false
  lastAppliedVerifies _ := true
  shuffle l := l
  shuffle_perm := .refl

open Lib in
/-- `ReplicateStatePush::ByteSizeLong`, with a membership if it has replicas. -/
instance : PushSize IdealHash where
  pushByteSizeLong push :=
    let membership := Protobuf.messageSize (replicaGroupByteSize push.committedMembership)
    Protobuf.uintSize push.replicationId + Protobuf.uintSize push.replicationSequence +
      Protobuf.uintSize push.firstLogIdx +
      (push.entries.map fun e => Protobuf.messageSize (logEntryByteSize e)).sum +
      Protobuf.uintSize push.dbToEnd.toNat +
      (push.rows.map fun row => Protobuf.messageSize row.length).sum +
      if push.committedMembership = [] then 0 else membership

def groupConfig : RaftGroupConfig where
  minVotingReplicas := 1
  maxVotingReplicas := 3
  attestationTimeout := 1

def config : EnclaveConfig where
  e2eTxnTimeoutTicks := 3
  sendTimestampTicks := 100
  raft :=
    { electionTicks := 2
      heartbeatTicks := 1
      replicationChunkBytes := 1024
      replicaVotingTimeoutTicks := 50
      replicaMembershipTimeoutTicks := 100
      logMaxBytes := 2 ^ 20
      replicationPipeline := 2 }

def core (p : PeerId) : Core IdealHash DB2 := Core.init p groupConfig config (coreOracle 0) 0

theorem create_core (p : PeerId) :
    Core.create p groupConfig config (coreOracle 0) 0 = .ok (core p) :=
  rfl

def start (p : PeerId) : ClusterEvent IdealHash DB2 := .start p groupConfig config (coreOracle 0) 0

def ask (p : PeerId) (tx : TransactionID) (req : HostRequest DB2) : ClusterEvent IdealHash DB2 :=
  .host p (coreOracle 5) (.h2eRequest tx req)

/-- The oldest messages between two enclaves are delivered, one for each pair. -/
def carry (pairs : List (PeerId × PeerId)) : List (ClusterEvent IdealHash DB2) :=
  pairs.map fun (src, dst) => .deliver src dst (coreOracle 7)

/-- Enclave 1 creates a group, and enclave 2 joins it. -/
def joined : List (ClusterEvent IdealHash DB2) :=
  [start 1, start 2, ask 1 1 .createNewRaftGroup, ask 2 1 (.joinRaft (some 1))] ++
    carry [(2, 1), (1, 2), (1, 2), (2, 1), (1, 2), (2, 1), (1, 2), (2, 1), (2, 1), (1, 2),
      (2, 1), (1, 2), (2, 1), (1, 2), (1, 2), (2, 1), (1, 2), (2, 1), (1, 2), (2, 1)]

def voting : List (ClusterEvent IdealHash DB2) :=
  joined ++ ask 2 2 .requestVoting ::
    carry [(2, 1), (1, 2), (1, 2), (2, 1), (1, 2), (2, 1), (1, 2), (2, 1)]

end Sample

end SVR2
