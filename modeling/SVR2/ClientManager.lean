import Mathlib.Logic.Function.Basic
import SVR2.Lib.Runs
import SVR2.Peers.Peer

/-!
# Client keys and their attestation

`client/client.cc`, class `ClientManager`: the key that clients talk to and the evidence for it are
replaced by `RotateKeyAndRefreshAttestation` and `RefreshAttestation`, and `NewClient` gives both to
a new client.  The evidence is obtained outside the lock, so that the calls overlap; what they do
under the lock is one step here, and the steps interleave in any order.
-/

namespace SVR2.ClientManager

open Lib Peers

variable {Key Config : Type}

structure AttestedData (Config : Type) where
  publicKey : Bytes
  groupConfig : Config

/-- `noise_dhstate_get_public_key` for a key, and what the environment answers to the `n`-th request
    for evidence. -/
structure Environment (Key Config : Type) where
  publicKey : Key → Option Bytes
  evidence : Nat → AttestedData Config → Attestation × Error

structure HandshakeStart where
  testOnlyPubkey : Bytes := []
  evidence : Bytes := []
  endorsement : Bytes := []
deriving DecidableEq

/-- `Client`, with the key of its handshake state once there is one. -/
structure Client (Key : Type) where
  id : Nat
  authenticatedId : Bytes
  hs : Option Key := none
  hsStart : HandshakeStart := {}
deriving DecidableEq

inductive Refresh where
  | rotateKeyAndRefreshAttestation
  | refreshAttestation
deriving DecidableEq

/-- Where a call is: it has not begun; it is about to ask for evidence, to store it, or has returned;
    a client has been constructed, has got its arguments, has been initialised, or was returned. -/
inductive Call (Key Config : Type) where
  | waiting
  | attesting (refresh : Refresh) (dhstate : Option Key) (config : Config)
  | storing (refresh : Refresh) (dhstate : Option Key) (attestation : Attestation)
  | refreshed (refresh : Refresh) (err : Error)
  | constructed (client : Client Key)
  | initializing (client : Client Key) (dhstate : Option Key) (attestation : Attestation)
  | inserting (client : Client Key)
  | created (id : Option Nat) (err : Error)

/-- The manager and the calls that run in it, which are numbered. -/
structure State (Key Config : Type) where
  dhstate : Option Key
  attestation : Attestation := {}
  clients : Nat → Option (Client Key) := fun _ => none
  idGen : Nat := 1
  calls : Nat → Call Key Config := fun _ => .waiting
  aborted : Bool := false

structure InitAnswers where
  handshakeNew : Bool := true
  dhCopy : Bool := true
  start : Bool := true

/-- What may happen next: `RotateKeyAndRefreshAttestation` begins with the answer of `NewDHState`;
    `RefreshAttestation` begins, with whether memory for the clone is there; evidence is asked for;
    the result is stored; `NewClient` constructs a client, reads its arguments, initialises it and
    inserts it; a client is removed. -/
inductive Event (Key Config : Type) where
  | rotate (i : Nat) (config : Config) (dhstate : Option Key)
  | refresh (i : Nat) (config : Config) (memory : Bool)
  | getAttestation (i n : Nat)
  | store (i : Nat)
  | construct (i : Nat) (authenticatedId : Bytes)
  | clientArgs (i : Nat) (memory : Bool)
  | init (i : Nat) (answers : InitAnswers)
  | insert (i : Nat)
  | removeClient (id : Nat)

/-- `noise_dhstate_get_public_key`, which refuses a null pointer. -/
def Environment.publicKey? (env : Environment Key Config) (dhstate : Option Key) : Option Bytes :=
  dhstate.bind env.publicKey

def Environment.getAttestation (env : Environment Key Config) (n : Nat) (dhstate : Option Key)
    (config : Config) : Attestation × Error :=
  match env.publicKey? dhstate with
  | none => ({}, .peersNewKeyPublic)
  | some publicKey => env.evidence n { publicKey := publicKey, groupConfig := config }

def Client.init (env : Environment Key Config) (c : Client Key) (answers : InitAnswers)
    (dhstate : Option Key) (attestation : Attestation) : Client Key × Error :=
  if !answers.handshakeNew then (c, .clientHandshakeState)
  else match dhstate with
    | none => (c, .clientCopyDHState)
    | some key =>
      if !answers.dhCopy then (c, .clientCopyDHState)
      else if !answers.start then (c, .clientHandshakeStart)
      else match env.publicKey key with
        | none =>
          ({ c with hsStart.testOnlyPubkey := List.replicate 32 0 }, .clientExtractPublicKey)
        | some publicKey =>
          ({ c with
              hs := some key
              hsStart := { testOnlyPubkey := publicKey, evidence := attestation.evidence,
                           endorsement := attestation.endorsements } }, .ok)

namespace State

def setCall (s : State Key Config) (i : Nat) (call : Call Key Config) : State Key Config :=
  { s with calls := Function.update s.calls i call }

/-- `RotateKeyAndRefreshAttestation`, up to `GetAttestation`. -/
def rotate (s : State Key Config) (i : Nat) (config : Config) (dhstate : Option Key) :
    State Key Config :=
  match s.calls i with
  | .waiting => s.setCall i (.attesting .rotateKeyAndRefreshAttestation dhstate config)
  | _ => s

/-- `ClientArgs` continues with copies of the key and of the attestation; `CloneDHState` dies if
    there is no key or no memory. -/
def withClientArgs (s : State Key Config) (memory : Bool) (i : Nat)
    (next : Option Key → Attestation → Call Key Config) : State Key Config :=
  if s.dhstate.isNone || !memory then { s with aborted := true }
  else s.setCall i (next s.dhstate s.attestation)

/-- `RefreshAttestation`, up to `GetAttestation`. -/
def refresh (s : State Key Config) (i : Nat) (config : Config) (memory : Bool) : State Key Config :=
  match s.calls i with
  | .waiting => s.withClientArgs memory i fun dhstate _ =>
      .attesting .refreshAttestation dhstate config
  | _ => s

/-- The call asks for evidence, and returns if it gets none. -/
def getAttestation (env : Environment Key Config) (s : State Key Config) (i n : Nat) :
    State Key Config :=
  match s.calls i with
  | .attesting call dhstate config =>
    match env.getAttestation n dhstate config with
    | (attestation, .ok) => s.setCall i (.storing call dhstate attestation)
    | (_, err) => s.setCall i (.refreshed call err)
  | _ => s

/-- The locked section at the end of both calls, which sets the key as well as the attestation. -/
def store (s : State Key Config) (i : Nat) : State Key Config :=
  match s.calls i with
  | .storing call dhstate attestation =>
    { s with dhstate := dhstate, attestation := attestation }.setCall i (.refreshed call .ok)
  | _ => s

def construct (s : State Key Config) (i : Nat) (authenticatedId : Bytes) : State Key Config :=
  match s.calls i with
  | .waiting =>
    { s with idGen := s.idGen + 1 }.setCall i
      (.constructed { id := s.idGen, authenticatedId := authenticatedId })
  | _ => s

def clientArgs (s : State Key Config) (i : Nat) (memory : Bool) : State Key Config :=
  match s.calls i with
  | .constructed client => s.withClientArgs memory i (.initializing client)
  | _ => s

def init (env : Environment Key Config) (s : State Key Config) (i : Nat) (answers : InitAnswers) :
    State Key Config :=
  match s.calls i with
  | .initializing client dhstate attestation =>
    match client.init env answers dhstate attestation with
    | (client, .ok) => s.setCall i (.inserting client)
    | (_, err) => s.setCall i (.created none err)
  | _ => s

/-- The locked section at the end of `NewClient`. -/
def insert (s : State Key Config) (i : Nat) : State Key Config :=
  match s.calls i with
  | .inserting client =>
    { s with clients := Function.update s.clients client.id (some client) }.setCall i
      (.created (some client.id) .ok)
  | _ => s

def removeClient (s : State Key Config) (id : Nat) : State Key Config :=
  { s with clients := Function.update s.clients id none }

/-- One event; one that cannot happen changes nothing. -/
def act (env : Environment Key Config) (s : State Key Config) :
    Event Key Config → State Key Config
  | .rotate i config dhstate => s.rotate i config dhstate
  | .refresh i config memory => s.refresh i config memory
  | .getAttestation i n => s.getAttestation env i n
  | .store i => s.store i
  | .construct i authenticatedId => s.construct i authenticatedId
  | .clientArgs i memory => s.clientArgs i memory
  | .init i answers => s.init env i answers
  | .insert i => s.insert i
  | .removeClient id => s.removeClient id

/-- A failed `CHECK` ends the enclave. -/
def step (env : Environment Key Config) (s : State Key Config) (e : Event Key Config) :
    State Key Config :=
  if s.aborted then s else s.act env e

/-- The calls of a manager that was constructed with a key. -/
def run (env : Environment Key Config) (dhstate : Option Key) (events : List (Event Key Config)) :
    State Key Config :=
  events.foldl (step env) { dhstate := dhstate }

end State

/-! ### What one step can do -/

inductive CallStep (env : Environment Key Config) (s t : State Key Config) :
    Call Key Config → Call Key Config → Prop where
  | attesting (refresh : Refresh) (dhstate : Option Key) (config : Config) :
      CallStep env s t .waiting (.attesting refresh dhstate config)
  | storing {refresh : Refresh} {dhstate : Option Key} {config : Config} {attestation : Attestation}
      {n : Nat} (h : env.getAttestation n dhstate config = (attestation, .ok)) :
      CallStep env s t (.attesting refresh dhstate config) (.storing refresh dhstate attestation)
  | refused {refresh : Refresh} {dhstate : Option Key} {config : Config} {err : Error}
      (h : err ≠ .ok) :
      CallStep env s t (.attesting refresh dhstate config) (.refreshed refresh err)
  | refreshed (refresh : Refresh) :
      CallStep env s t (.storing refresh t.dhstate t.attestation) (.refreshed refresh .ok)
  | constructed (client : Client Key) : CallStep env s t .waiting (.constructed client)
  | initializing (client : Client Key) :
      CallStep env s t (.constructed client) (.initializing client s.dhstate s.attestation)
  | inserting {client client' : Client Key} {dhstate : Option Key} {attestation : Attestation}
      {answers : InitAnswers} (h : client.init env answers dhstate attestation = (client', .ok)) :
      CallStep env s t (.initializing client dhstate attestation) (.inserting client')
  | initFailed {client : Client Key} {dhstate : Option Key} {attestation : Attestation} (err : Error) :
      CallStep env s t (.initializing client dhstate attestation) (.created none err)
  | created (client : Client Key) :
      CallStep env s t (.inserting client) (.created (some client.id) .ok)

structure Change (env : Environment Key Config) (s t : State Key Config) : Prop where
  stored : (t.dhstate = s.dhstate ∧ t.attestation = s.attestation) ∨
    ∃ i refresh, s.calls i = .storing refresh t.dhstate t.attestation
  calls : ∀ i, t.calls i = s.calls i ∨ CallStep env s t (s.calls i) (t.calls i)
  clients : ∀ id client, t.clients id = some client →
    s.clients id = some client ∨ ∃ i, s.calls i = .inserting client

namespace Change

variable {env : Environment Key Config} {s t : State Key Config}

theorem refl : Change env s s := ⟨.inl ⟨rfl, rfl⟩, fun _ => .inl rfl, fun _ _ h => .inl h⟩

theorem calls_update {i : Nat} {next : Call Key Config}
    (ht : t.calls = Function.update s.calls i next) (hnext : CallStep env s t (s.calls i) next)
    (j : Nat) : t.calls j = s.calls j ∨ CallStep env s t (s.calls j) (t.calls j) := by
  by_cases hj : j = i
  · subst hj
    right
    rw [ht, Function.update_self]
    exact hnext
  · left
    rw [ht, Function.update_of_ne hj]

theorem setCall {i : Nat} {next : Call Key Config}
    (hnext : CallStep env s (s.setCall i next) (s.calls i) next) : Change env s (s.setCall i next) :=
  ⟨.inl ⟨rfl, rfl⟩, calls_update rfl hnext, fun _ _ h => .inl h⟩

theorem withClientArgs {i : Nat} {memory : Bool} {next : Option Key → Attestation → Call Key Config}
    (hnext : CallStep env s (s.setCall i (next s.dhstate s.attestation)) (s.calls i)
      (next s.dhstate s.attestation)) : Change env s (s.withClientArgs memory i next) := by
  rw [State.withClientArgs]
  split
  · exact ⟨.inl ⟨rfl, rfl⟩, fun _ => .inl rfl, fun _ _ h => .inl h⟩
  · exact setCall hnext

theorem rotate (i : Nat) (config : Config) (dhstate : Option Key) :
    Change env s (s.rotate i config dhstate) := by
  rw [State.rotate]
  split
  case h_2 => exact refl
  rename_i hcall
  exact setCall (hcall ▸ .attesting ..)

theorem refresh (i : Nat) (config : Config) (memory : Bool) :
    Change env s (s.refresh i config memory) := by
  rw [State.refresh]
  split
  case h_2 => exact refl
  rename_i hcall
  exact withClientArgs (hcall ▸ .attesting ..)

theorem getAttestation (i n : Nat) : Change env s (s.getAttestation env i n) := by
  rw [State.getAttestation]
  split
  case h_2 => exact refl
  rename_i call dhstate config hcall
  split
  · rename_i attestation hok
    exact setCall (hcall ▸ .storing hok)
  · rename_i attestation err herr _
    exact setCall (hcall ▸ .refused (fun h => herr (h ▸ rfl)))

theorem store (i : Nat) : Change env s (s.store i) := by
  rw [State.store]
  split
  case h_2 => exact refl
  rename_i call dhstate attestation hcall
  exact ⟨.inr ⟨i, call, hcall⟩, calls_update rfl (hcall ▸ .refreshed call), fun _ _ h => .inl h⟩

theorem construct (i : Nat) (authenticatedId : Bytes) :
    Change env s (s.construct i authenticatedId) := by
  rw [State.construct]
  split
  case h_2 => exact refl
  rename_i hcall
  exact ⟨.inl ⟨rfl, rfl⟩, calls_update rfl (hcall ▸ .constructed _), fun _ _ h => .inl h⟩

theorem clientArgs (i : Nat) (memory : Bool) : Change env s (s.clientArgs i memory) := by
  rw [State.clientArgs]
  split
  case h_2 => exact refl
  rename_i client hcall
  exact withClientArgs (hcall ▸ .initializing client)

theorem init (i : Nat) (answers : InitAnswers) : Change env s (s.init env i answers) := by
  rw [State.init]
  split
  case h_2 => exact refl
  rename_i client dhstate attestation hcall
  split
  · rename_i client' hok
    exact setCall (hcall ▸ .inserting hok)
  · exact setCall (hcall ▸ .initFailed _)

theorem insert (i : Nat) : Change env s (s.insert i) := by
  rw [State.insert]
  split
  case h_2 => exact refl
  rename_i client hcall
  refine ⟨.inl ⟨rfl, rfl⟩, calls_update rfl (hcall ▸ .created client), fun id client' h => ?_⟩
  replace h : Function.update s.clients client.id (some client) id = some client' := h
  by_cases hid : id = client.id
  · rw [hid, Function.update_self] at h
    exact .inr ⟨i, Option.some.inj h ▸ hcall⟩
  · rw [Function.update_of_ne hid] at h
    exact .inl h

theorem removeClient (id : Nat) : Change env s (s.removeClient id) := by
  refine ⟨.inl ⟨rfl, rfl⟩, fun _ => .inl rfl, fun id' client h => .inl ?_⟩
  replace h : Function.update s.clients id none id' = some client := h
  by_cases hid : id' = id
  · rw [hid, Function.update_self] at h
    nomatch h
  · rwa [Function.update_of_ne hid] at h

theorem step (e : Event Key Config) : Change env s (s.step env e) := by
  rw [State.step]
  split
  · exact refl
  · cases e with
    | rotate i config dhstate => exact rotate i config dhstate
    | refresh i config memory => exact refresh i config memory
    | getAttestation i n => exact getAttestation i n
    | store i => exact store i
    | construct i authenticatedId => exact construct i authenticatedId
    | clientArgs i memory => exact clientArgs i memory
    | init i answers => exact init i answers
    | insert i => exact insert i
    | removeClient id => exact removeClient id

end Change

/-! ### Which key an attestation is for -/

section

variable (env : Environment Key Config)

/-- The attestation is evidence for the public key of `dhstate`. -/
def Belongs (dhstate : Option Key) (attestation : Attestation) : Prop :=
  ∃ publicKey n config, env.publicKey? dhstate = some publicKey ∧
    env.evidence n { publicKey := publicKey, groupConfig := config } = (attestation, .ok)

def Client.attestation (c : Client Key) : Attestation := ⟨c.hsStart.evidence, c.hsStart.endorsement⟩

/-- The client was initialised with a key and an attestation that are in relation `P`. -/
def Client.Uses (P : Option Key → Attestation → Prop) (c : Client Key) : Prop :=
  env.publicKey? c.hs = some c.hsStart.testOnlyPubkey ∧ P c.hs c.attestation

/-- What a refresh is about to store belongs together. -/
def Pending : Call Key Config → Prop
  | .storing _ dhstate attestation => Belongs env dhstate attestation
  | _ => True

/-- What a client gets is in relation `P`. -/
def Given (P : Option Key → Attestation → Prop) : Call Key Config → Prop
  | .initializing _ dhstate attestation => P dhstate attestation
  | .inserting client => client.Uses env P
  | _ => True

/-- The stored key and attestation are in relation `P`, and so are those of the clients of the calls
    in `Q`. -/
structure Paired (P : Option Key → Attestation → Prop) (Q : Nat → Prop) (s : State Key Config) :
    Prop where
  stored : P s.dhstate s.attestation
  pending : ∀ i, Pending env (s.calls i)
  given : ∀ i, Q i → Given env P (s.calls i)
  clients : (∀ i, Q i) → ∀ id client, s.clients id = some client → client.Uses env P

end

theorem belongs_of_getAttestation {env : Environment Key Config} {n : Nat} {dhstate : Option Key}
    {config : Config} {attestation : Attestation}
    (h : env.getAttestation n dhstate config = (attestation, .ok)) :
    Belongs env dhstate attestation := by
  rw [Environment.getAttestation] at h
  split at h
  · exact absurd (congrArg Prod.snd h) nofun
  · rename_i publicKey hkey
    exact ⟨publicKey, n, config, hkey, h⟩

theorem Client.uses_of_init {env : Environment Key Config} {P : Option Key → Attestation → Prop}
    {c c' : Client Key} {answers : InitAnswers} {dhstate : Option Key} {attestation : Attestation}
    (hP : P dhstate attestation) (h : c.init env answers dhstate attestation = (c', .ok)) :
    c'.Uses env P := by
  unfold Client.init at h
  split at h
  · cases h
  split at h
  · cases h
  split at h
  · cases h
  split at h
  · cases h
  split at h
  · cases h
  · rename_i hkey
    obtain rfl := (congrArg Prod.fst h).symm
    exact ⟨hkey, hP⟩

namespace Paired

variable {env : Environment Key Config} {P : Option Key → Attestation → Prop} {Q : Nat → Prop}
  {s t : State Key Config}

theorem pending_step {c c' : Call Key Config} (h : CallStep env s t c c') (hc : Pending env c) :
    Pending env c' := by
  cases h with
  | storing h => exact belongs_of_getAttestation h
  | _ => trivial

theorem given_step {c c' : Call Key Config} (h : CallStep env s t c c')
    (hs : P s.dhstate s.attestation) (hc : Given env P c) : Given env P c' := by
  cases h with
  | initializing => exact hs
  | inserting h => exact Client.uses_of_init hc h
  | _ => trivial

theorem change (hP : ∀ dhstate attestation, Belongs env dhstate attestation → P dhstate attestation)
    (hs : Paired env P Q s) (h : Change env s t) : Paired env P Q t where
  stored := by
    obtain ⟨hkey, hattestation⟩ | ⟨i, refresh, hcall⟩ := h.stored
    · rw [hkey, hattestation]
      exact hs.stored
    · have hpending := hs.pending i
      rw [hcall] at hpending
      exact hP _ _ hpending
  pending i := by
    obtain hsame | hstep := h.calls i
    · rw [hsame]
      exact hs.pending i
    · exact pending_step hstep (hs.pending i)
  given i hi := by
    obtain hsame | hstep := h.calls i
    · rw [hsame]
      exact hs.given i hi
    · exact given_step hstep hs.stored (hs.given i hi)
  clients hall id client hclient := by
    obtain hold | ⟨i, hcall⟩ := h.clients id client hclient
    · exact hs.clients hall id client hold
    · have hgiven := hs.given i (hall i)
      rwa [hcall] at hgiven

theorem foldl (hP : ∀ dhstate attestation, Belongs env dhstate attestation → P dhstate attestation)
    (hs : Paired env P Q s) (events : List (Event Key Config)) :
    Paired env P Q (events.foldl (State.step env) s) :=
  foldl_invariant (fun _ e hs => hs.change hP (Change.step e)) hs events

end Paired

namespace State

variable {env : Environment Key Config} {dhstate : Option Key}

/-- Whatever the manager or a client has belongs together, or it is the key that the manager was
    constructed with and an empty attestation. -/
theorem run_paired (events : List (Event Key Config)) :
    Paired env (fun key attestation => Belongs env key attestation ∨
      key = dhstate ∧ attestation = {}) (fun _ => True) (run env dhstate events) := by
  refine Paired.foldl (fun _ _ h => .inl h) ⟨.inr ⟨rfl, rfl⟩, ?_, ?_, ?_⟩ events
  · exact fun _ => trivial
  · exact fun _ _ => trivial
  · exact fun _ _ _ h => absurd h.symm (Option.some_ne_none _)

def Attested (s : State Key Config) : Prop := ∃ i refresh, s.calls i = .refreshed refresh .ok

theorem belongs_change {s t : State Key Config} (h : Change env s t)
    (hpending : ∀ i, Pending env (s.calls i))
    (hs : s.Attested → Belongs env s.dhstate s.attestation) (ht : t.Attested) :
    Belongs env t.dhstate t.attestation := by
  obtain ⟨hkey, hattestation⟩ | ⟨i, refresh, hcall⟩ := h.stored
  · obtain ⟨i, refresh, hcall⟩ := ht
    obtain hsame | hstep := h.calls i
    · rw [hkey, hattestation]
      exact hs ⟨i, refresh, hsame.symm.trans hcall⟩
    · have hpending := hpending i
      rw [hcall] at hstep
      generalize s.calls i = call at hstep hpending
      cases hstep with
      | refused hne => exact absurd rfl hne
      | refreshed => exact hpending
  · have hpending := hpending i
    rw [hcall] at hpending
    exact hpending

/-- Once a refresh has succeeded, the stored attestation is for the stored key. -/
theorem belongs_of_attested (events : List (Event Key Config))
    (h : (run env dhstate events).Attested) :
    Belongs env (run env dhstate events).dhstate (run env dhstate events).attestation := by
  induction events using List.reverseRecOn with
  | nil => obtain ⟨_, _, h⟩ := h; nomatch h
  | append_singleton events e ih =>
    rw [run, List.foldl_concat, ← run] at h ⊢
    exact belongs_change (Change.step e) (run_paired events).pending ih h

/-- Once a rotation has succeeded, the stored attestation is and stays evidence for the public key of
    the stored key, and a client that reads its arguments from then on gets a key and an attestation
    that belong together.  Every other client has such a pair as well, or the key that the manager
    was constructed with and no attestation. -/
theorem attestation_matches_key (env : Environment Key Config) (dhstate : Option Key)
    (before after : List (Event Key Config)) (j : Nat)
    (hrotated : (run env dhstate before).calls j =
      .refreshed .rotateKeyAndRefreshAttestation .ok) :
    Belongs env (run env dhstate (before ++ after)).dhstate
        (run env dhstate (before ++ after)).attestation ∧
      (∀ i client, ((run env dhstate before).calls i = .waiting ∨
          ∃ constructed, (run env dhstate before).calls i = .constructed constructed) →
        (run env dhstate (before ++ after)).calls i = .inserting client →
          client.Uses env (Belongs env)) ∧
      ∀ client, ((∃ i, (run env dhstate (before ++ after)).calls i = .inserting client) ∨
          ∃ id, (run env dhstate (before ++ after)).clients id = some client) →
        client.Uses env fun key attestation => Belongs env key attestation ∨
          key = dhstate ∧ attestation = {} := by
  have hstored := belongs_of_attested before ⟨j, _, hrotated⟩
  have hpaired : Paired env (Belongs env)
      (fun i => (run env dhstate before).calls i = .waiting ∨
        ∃ constructed, (run env dhstate before).calls i = .constructed constructed)
      (run env dhstate before) := by
    refine ⟨hstored, (run_paired before).pending, ?_, fun hall => ?_⟩
    · rintro i (hi | ⟨_, hi⟩) <;>
      · rw [hi]
        trivial
    · -- not every call can be new: number `j` has returned
      obtain hj | ⟨_, hj⟩ := hall j <;> nomatch hj.symm.trans hrotated
  have hafter := hpaired.foldl (fun _ _ h => h) after
  have hall : Paired env _ _ (run env dhstate (before ++ after)) := run_paired (before ++ after)
  rw [run, List.foldl_append, ← run] at hall ⊢
  refine ⟨hafter.stored, fun i client hi hcall => ?_, ?_⟩
  · have hgiven := hafter.given i hi
    rwa [hcall] at hgiven
  · rintro client (⟨i, hcall⟩ | ⟨id, hclient⟩)
    · have hgiven := hall.given i trivial
      rwa [hcall] at hgiven
    · exact hall.clients (fun _ => trivial) id client hclient

def sampleEnvironment : Environment Byte Unit where
  publicKey key := some (List.replicate 32 key)
  evidence _ data := ({ evidence := 1 :: data.publicKey }, .ok)

def sampleRotation : List (Event Byte Unit) := [.rotate 0 () (some 2), .getAttestation 0 0, .store 0]

def sampleClient : List (Event Byte Unit) := [.construct 1 [], .clientArgs 1 true, .init 1 {}]

theorem attestation_matches_key_sampleRotation :
    Belongs sampleEnvironment (run sampleEnvironment (some 1) (sampleRotation ++ sampleClient)).dhstate
      (run sampleEnvironment (some 1) (sampleRotation ++ sampleClient)).attestation ∧
    ∃ client, (run sampleEnvironment (some 1) (sampleRotation ++ sampleClient)).calls 1 =
        .inserting client ∧ client.Uses sampleEnvironment (Belongs sampleEnvironment) :=
  have h := attestation_matches_key sampleEnvironment (some 1) sampleRotation sampleClient 0 rfl
  ⟨h.1, _, rfl, h.2.1 1 _ (.inl rfl) rfl⟩

/-- A client that read its arguments before the first rotation is initialised after it with an empty
    attestation. -/
theorem client_before_rotation_unattested :
    ∃ client, (run sampleEnvironment (some 1)
        ([.construct 1 [], .clientArgs 1 true] ++ sampleRotation)).calls 0 =
          .refreshed .rotateKeyAndRefreshAttestation .ok ∧
      (run sampleEnvironment (some 1)
        ([.construct 1 [], .clientArgs 1 true] ++ sampleRotation ++ [.init 1 {}, .insert 1])).clients 1 =
          some client ∧
      ¬ Belongs sampleEnvironment client.hs client.attestation := by
  refine ⟨_, rfl, rfl, ?_⟩
  rintro ⟨publicKey, n, config, -, hevidence⟩
  have hempty : (1 :: publicKey : Bytes) = [] :=
    congrArg (fun answer => answer.1.evidence) hevidence
  nomatch hempty

end State

end SVR2.ClientManager
