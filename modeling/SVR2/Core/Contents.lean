import SVR2.Core.Cluster
import SVR2.Core.Moves

/-!
# What is in the logs of a cluster

Log entries, memberships and configurations travel between enclaves in Raft messages, in pushes
and in responses, and enclaves ask for new ones.  If all that is asked for is of some kind, then all
that is in a log, that is loaded or that is on its way anywhere is of that kind.
-/

namespace SVR2

open Lib

/-- A kind of entries, memberships and configurations: what comes from one of the kind is of the
    kind too. -/
structure Contents where
  entry : Inner → Prop
  membership : Membership → Prop
  config : RaftGroupConfig → Prop
  notSet : entry .notSet
  first : ∀ me, membership (Membership.first me)
  change : ∀ {g m}, entry (.membershipChange g) → Membership.fromProto g = .ok m → membership m
  asProto : ∀ {m m'}, membership m → Membership.fromProto m.asProto = .ok m' → membership m'
  groupId : ∀ {cfg} n, config cfg → config { cfg with groupId := n }

namespace Contents

variable (K : Contents) {Hash DB : Type}

def group (g : ReplicaGroup) : Prop := ∀ m, Membership.fromProto g = .ok m → K.membership m

def inLog (log : Log Hash) : Prop := ∀ e ∈ log.entries, K.entry e.inner

def inRaftMessage (msg : RaftMessage Hash) : Prop := ∀ i e, msg.Carries i e → K.entry e.inner

def inMessage : E2EMessage Hash → Prop
  | .raftMessage msg => K.inRaftMessage msg
  | .transactionRequest _ (.replicateStatePush push) =>
    (∀ e ∈ push.entries, K.entry e.inner) ∧ K.group push.committedMembership
  | .transactionRequest _ (.raftWrite e) => K.entry e.inner
  | .transactionResponse _ (.getRaft cfg g) => K.config cfg ∧ K.group g
  | _ => True

/-- All entries of a replica's log, all its memberships and all entries that it sends. -/
structure InRaft (r : Raft Hash) : Prop where
  log : K.inLog r.log
  committed : K.membership r.committedMembership
  uncommitted : ∀ u ∈ r.uncommittedMemberships, K.membership u.2
  messages : ∀ m ∈ r.sendableMessages, K.inRaftMessage m.message

structure InLoading (l : Loading Hash DB) : Prop where
  log : ∀ log, l.log = some log → K.config l.groupConfig ∧ K.inLog log
  mem : ∀ mem, l.mem = some mem → K.membership mem

variable [Database DB]

/-- What the host or another enclave sends. -/
def inUntrusted : UntrustedMessage Hash DB → Prop
  | .peerMessage _ (.data msg) => K.inMessage msg
  | _ => True

/-- All that an enclave has, and all that it sends while it handles a message. -/
structure InCore (c : Core Hash DB) : Prop where
  template : K.config c.raftConfigTemplate
  loaded : ∀ r, c.raft.loaded.raft = some r → K.config c.raft.loaded.groupConfig ∧ K.InRaft r
  loading : K.InLoading c.raft.loading
  out : ∀ dst msg, .peerMessage dst (.data msg) ∈ c.out → K.inMessage msg

variable {K}

/-! ### Replicas -/

section Replica

omit [Database DB]

theorem inMessage_of_light {msg : E2EMessage Hash} (h : msg.Light) : K.inMessage msg := by
  cases msg with
  | raftMessage => exact h.elim
  | transactionRequest _ req =>
    cases req with
    | replicateStatePush => exact h.elim
    | raftWrite => exact h.elim
    | _ => trivial
  | transactionResponse _ resp =>
    cases resp with
    | status => trivial
    | _ => exact h.elim
  | _ => trivial

theorem InRaft.membership {r : Raft Hash} (h : K.InRaft r) : K.membership r.membership := by
  rw [Raft.membership]
  split
  · rename_i idx m hlast
    exact h.uncommitted (idx, m) (List.mem_of_getLast? hlast)
  · exact h.committed

theorem inLog_new (maxBytes : Nat) : K.inLog (Log.new maxBytes : Log Hash) := by
  intro e he
  cases he

theorem inLog_append [Platform Hash] {log : Log Hash} (h : K.inLog log) (e : LogEntry Hash)
    (n : Nat) (he : (log.append e n).2 = .ok → K.entry e.inner) : K.inLog (log.append e n).1 := by
  obtain ⟨k, -, -, hentries⟩ := Log.append_drop log e n
  intro e' he'
  rcases hentries with ⟨hentries, -⟩ | ⟨hentries, hok, -⟩
  · rw [hentries] at he'
    exact h e' (List.mem_of_mem_drop he')
  · rw [hentries] at he'
    rcases List.mem_append.mp he' with he' | he'
    · exact h e' (List.mem_of_mem_drop he')
    · rw [List.mem_singleton.mp he']
      exact he hok

theorem InRaft.change [Platform Hash] {r r' : Raft Hash} (h : K.InRaft r)
    (hchange : Raft.Change (fun _ inner => K.entry inner) r r') : K.InRaft r' := by
  cases hchange with
  | rest hkept =>
    simp only [Raft.kept, Prod.mk.injEq] at hkept
    obtain ⟨-, -, -, hlog, hcommitted, huncommitted, -, -, hmessages⟩ := hkept
    exact ⟨hlog ▸ h.log, hcommitted ▸ h.committed, huncommitted ▸ h.uncommitted,
      hmessages ▸ h.messages⟩
  | append e log us he hlog hus =>
    have hinLog := inLog_append h.log e r.lastApplied fun _ => he
    rw [hlog] at hinLog
    refine ⟨hinLog, h.committed, fun u hu => ?_, h.messages⟩
    rcases List.mem_append.mp hu with hu | hu
    · exact h.uncommitted u hu
    · cases hinner : e.inner with
      | membershipChange g =>
        rw [hinner] at hus he
        obtain ⟨m, hm, rfl⟩ := hus
        rw [List.mem_singleton.mp hu]
        exact K.change he hm
      | _ =>
        rw [hinner] at hus
        obtain rfl : us = [] := hus
        cases hu
  | trim e log err herr hlog =>
    have hinLog := inLog_append h.log e r.lastApplied fun hok => by
      rw [hlog] at hok
      exact absurd hok herr
    rw [hlog] at hinLog
    exact { h with log := hinLog }
  | cancel idx log hidx hlog =>
    rw [Log.cancelFrom] at hlog
    split_ifs at hlog with hlt
    · cases (Prod.mk.inj hlog).2
    obtain ⟨rfl, -⟩ := Prod.mk.inj hlog
    exact { h with log := fun e he => h.log e (List.mem_of_mem_take he) }
  | memberships m us hm hus =>
    refine { h with committed := ?_, uncommitted := fun u hu => h.uncommitted u (hus hu) }
    rcases hm with rfl | ⟨u, hu, rfl⟩
    · exact h.committed
    · exact h.uncommitted u hu
  | commit n hn => exact { h with }
  | send msg hmsg =>
    refine { h with messages := fun m hm => ?_ }
    rcases List.mem_append.mp hm with hm | hm
    · exact h.messages m hm
    · rw [List.mem_singleton.mp hm]
      exact fun i e he => h.log e (hmsg i e he).1

theorem InRaft.changes [Platform Hash] {r r' : Raft Hash} (h : K.InRaft r)
    (hchanges : Raft.Changes (fun _ inner => K.entry inner) r r') : K.InRaft r' := by
  induction hchanges with
  | refl => exact h
  | tail _ hchange ih => exact ih.change hchange

theorem inRaft_new [Platform Hash] (group : Nat) (me : PeerId) {mem : Membership}
    (hmem : K.membership mem) {log : Log Hash} (hlog : K.inLog log) (config : RaftConfig)
    (committedLog : Bool) (superMajority : Nat) (o : Oracle) :
    K.InRaft (Raft.new group me mem log config committedLog superMajority o) :=
  InRaft.changes (r := Raft.newFollower group me mem log config committedLog superMajority o)
    ⟨hlog, hmem, nofun, nofun⟩ (Raft.changes_new _ _ _ _ _ _ _ _ fun _ => K.notSet)

end Replica

/-! ### Loading -/

section Loading

variable {l : Loading Hash DB}

omit [Database DB] in
theorem inLoading_empty : K.InLoading ({} : Loading Hash DB) where
  log _ hlog := by cases hlog
  mem _ hmem := by cases hmem

theorem InLoading.maybeApplyLogToReplicatingDatabase (h : K.InLoading l) (e : LogEntry Hash) :
    K.InLoading (l.maybeApplyLogToReplicatingDatabase e).1 := by
  rw [Loading.maybeApplyLogToReplicatingDatabase]
  split
  · exact h
  dsimp only
  split_ifs
  · exact h
  split
  · exact h
  split_ifs
  · exact h
  split
  · exact { h with }
  · exact h

theorem InLoading.appendEntries [Platform Hash] (h : K.InLoading l) {es : List (LogEntry Hash)}
    (hes : ∀ e ∈ es, K.entry e.inner) : K.InLoading (l.appendEntries es).1 := by
  induction es generalizing l with
  | nil => exact h
  | cons e es ih =>
    rw [Loading.appendEntries]
    split
    · exact h
    rename_i log hlog
    obtain ⟨hconfig, hinLog⟩ := h.log log hlog
    have happend : K.InLoading { l with log := some (log.append e log.lastIdx).1 } :=
      { h with
        log := fun log' hlog' => by
          cases hlog'
          exact ⟨hconfig, inLog_append hinLog e _ fun _ => hes e List.mem_cons_self⟩ }
    split
    · rename_i log' heq
      rw [heq] at happend
      have happlied := happend.maybeApplyLogToReplicatingDatabase e
      split
      · rename_i l' heq'
        rw [heq'] at happlied
        exact ih happlied fun e he => hes e (List.mem_cons_of_mem _ he)
      · rename_i l' err _ heq'
        rw [heq'] at happlied
        exact happlied
    · rename_i log' err _ heq
      rw [heq] at happend
      exact happend

theorem InLoading.loadRows (h : K.InLoading l) (rows : List Bytes) :
    K.InLoading (l.loadRows rows).1 := by
  rw [Loading.loadRows]
  split
  · exact h
  rename_i db hdb
  rcases Database.loadRowsFromProtos db rows with ⟨db', last, err⟩
  dsimp only
  split_ifs
  · exact h
  · exact { h with }
  · exact { h with }

theorem InLoading.handleReplicateStatePush [Platform Hash] (h : K.InLoading l)
    {push : ReplicateStatePush Hash} (hes : ∀ e ∈ push.entries, K.entry e.inner)
    (hgroup : K.group push.committedMembership) :
    K.InLoading (l.handleReplicateStatePush push).1 := by
  rw [Loading.handleReplicateStatePush]
  split
  · exact h
  rename_i log hlog
  obtain ⟨hconfig, hinLog⟩ := h.log log hlog
  split
  · exact h
  split
  · exact h
  dsimp only
  split
  · exact { h with }
  split
  · exact { h with mem := nofun }
  rename_i mem hmem
  have hempty :
      K.inLog (if log.entries = [] then (log.setNextIdx push.firstLogIdx).1 else log) := by
    split_ifs with hnil
    · intro e he
      rw [Log.setNextIdx] at he
      split_ifs at he <;> rw [hnil] at he <;> cases he
    · exact hinLog
  have hstart : K.InLoading { l with
      replicationSequence := l.replicationSequence + 1
      mem := some mem
      log := some (if log.entries = [] then (log.setNextIdx push.firstLogIdx).1 else log) } :=
    { log := fun log' hlog' => by
        cases hlog'
        exact ⟨hconfig, hempty⟩
      mem := fun mem' hmem' => by
        cases hmem'
        exact hgroup mem hmem }
  have happended := hstart.appendEntries hes
  split
  · rename_i l' heq
    rw [heq] at happended
    have hloaded := happended.loadRows push.rows
    split
    · rename_i l'' heq'
      rw [heq'] at hloaded
      exact { hloaded with }
    · rename_i l'' err _ heq'
      rw [heq'] at hloaded
      exact hloaded
  · rename_i l' err _ heq
    rw [heq] at happended
    exact happended

end Loading

/-! ### One move of an enclave -/

section Core

variable {c c' : Core Hash DB}

/-- Messages that were sent: light ones, or such of which `P` holds. -/
theorem inMessage_out {P : PeerId → E2EMessage Hash → Prop}
    (hc : ∀ dst msg, .peerMessage dst (.data msg) ∈ c.out → K.inMessage msg)
    (hout : ∃ ms, c'.out = c.out ++ ms ∧ ∀ m ∈ ms, m.Carries P)
    (hP : ∀ dst msg, P dst msg → K.inMessage msg) (dst : PeerId) (msg : E2EMessage Hash)
    (hmsg : .peerMessage dst (.data msg) ∈ c'.out) : K.inMessage msg := by
  obtain ⟨ms, hms, hcarries⟩ := hout
  rw [hms] at hmsg
  rcases List.mem_append.mp hmsg with hmsg | hmsg
  · exact hc dst msg hmsg
  · rcases hcarries _ hmsg with hlight | hsent
    · exact inMessage_of_light hlight
    · exact hP dst msg hsent

theorem InCore.sends {P : PeerId → E2EMessage Hash → Prop} (h : K.InCore c) (hsends : Sends P c c')
    (hP : ∀ dst msg, P dst msg → K.inMessage msg) : K.InCore c' where
  template := hsends.template ▸ h.template
  loaded := hsends.raft ▸ h.loaded
  loading := hsends.raft ▸ h.loading
  out := inMessage_out h.out hsends.out hP

theorem InCore.quiet (h : K.InCore c) (hquiet : Quiet c c') : K.InCore c' :=
  h.sends hquiet fun _ _ => False.elim

theorem InCore.keeps (h : K.InCore c) (hkeeps : Keeps c c') : K.InCore c' where
  template := hkeeps.template ▸ h.template
  loaded := by
    rw [hkeeps.replica, hkeeps.groupConfig]
    exact h.loaded
  loading := hkeeps.loading ▸ h.loading
  out := inMessage_out h.out hkeeps.out fun _ _ => False.elim

theorem InCore.setRaft (h : K.InCore c) {r r' : Raft Hash} (hr : c.raft.loaded.raft = some r)
    (hr' : K.InRaft r') : K.InCore (c.setRaft r') :=
  { h with
    loaded := fun r'' hr'' => by
      cases hr''
      exact ⟨(h.loaded r hr).1, hr'⟩ }

theorem InCore.called (h : K.InCore c) {r r' : Raft Hash} (hr : c.raft.loaded.raft = some r)
    (hr' : K.InRaft r') (call : RaftCall Hash) : K.InCore (c.called call r') :=
  { h.setRaft hr hr' with }

theorem InCore.sendMessages (h : K.InCore c) : K.InCore c.raftSendMessages := by
  cases hr : c.raft.loaded.raft with
  | none =>
    rw [Core.raftSendMessages, hr]
    exact h.quiet c.calm_abort.toSends
  | some r =>
    have hraft := (h.loaded r hr).2
    have hsent : K.InCore (c.setRaft { r with sendableMessages := [] }) :=
      h.setRaft hr { hraft with messages := List.forall_mem_nil _ }
    refine hsent.sends (c.calm_raftSendMessages hr).toSends ?_
    rintro dst msg ⟨m, hm, rfl⟩
    exact hraft.messages m hm

theorem InCore.applyLog [DecidableEq Hash] (h : K.InCore c) {r : Raft Hash}
    (hr : c.raft.loaded.raft = some r) (o : CoreOracle) (idx : Nat) (e : LogEntry Hash) :
    K.InCore
      ((c.called (.takeCommittedLog r) r.takeCommittedLog.1).raftHandleCommittedLog o idx e) := by
  have hraft := (h.loaded r hr).2
  have htaken : K.InRaft r.takeCommittedLog.1 := by
    rw [Raft.takeCommittedLog]
    split_ifs
    · exact hraft
    · dsimp only
      split <;> exact { hraft with }
  have hcalled := h.called hr htaken (.takeCommittedLog r)
  exact InCore.keeps (c := (c.called _ _).updateLastAppliedLog idx) { hcalled with }
    (Core.keeps_raftHandleCommittedLog ..)

theorem InCore.pushOf (h : K.InCore c) {msg : E2EMessage Hash} (hmsg : c.PushOf msg) :
    K.inMessage msg := by
  obtain ⟨id, push, r, hr, hentries, hgroup, rfl⟩ := hmsg
  have hraft := (h.loaded r hr).2
  refine ⟨fun e he => hraft.log e (hentries e he), ?_⟩
  rw [hgroup]
  exact fun m => K.asProto hraft.committed

variable [DecidableEq Hash] [Platform Hash] [PushSize Hash]
  {s : Core Hash DB} {o : CoreOracle} {m : UntrustedMessage Hash DB}

/-- Every move keeps to the kind, if the message and all that is asked for do. -/
theorem InCore.move (h : K.InCore c) (hmove : CoreMove s o m c c') (hm : K.inUntrusted m)
    (hasked : ∀ {c r inner}, K.InCore c → c.raft.loaded.raft = some r → Asked s c o m r inner →
      K.entry inner) : K.InCore c' := by
  cases hmove with
  | quiet hquiet => exact h.quiet hquiet
  | call call hr hstate hwhy =>
    refine h.called hr ?_ call
    refine (h.loaded _ hr).2.changes
      (call.changes (fun _ => K.notSet) ?_ ?_ hwhy.ne_takeCommittedLog)
    · rintro r o' e rfl -
      exact hasked h hr hwhy.1
    · rintro r o' msg src rfl i e he
      obtain ⟨rfl, -⟩ := hwhy
      exact hm i e he
  | log r r' e loc cb hr hstate hask hok hcb =>
    have hchanges := r.changes_logRequest (P := fun _ inner => K.entry inner) (o.raft 0) e
      (fun _ => K.notSet) fun _ => hasked h hr hask
    rw [hok] at hchanges
    exact { h.called hr ((h.loaded r hr).2.changes hchanges) (.logRequest r (o.raft 0) e) with }
  | register loc cb hwhy => exact { h with }
  | sendMessages => exact h.sendMessages
  | applyLog r hr hidx => exact h.applyLog hr o _ _
  | push k => exact h.sends (c.sends_sendNextReplicationState o k) fun _ _ => h.pushOf
  | serve _ _ _ _ _ _ r hr => exact h.sends (c.sends_serve o hr ..) fun _ _ => h.pushOf
  | forward r hr dst entry hask cb hcb =>
    have hentry : K.inMessage (.transactionRequest (c.e2eTxnId + 1) (.raftWrite entry)) :=
      hasked h hr hask
    exact h.sends (c.sends_sendE2ETransaction o (.inr hentry) true _) fun _ _ hmsg => hmsg
  | tellGroup r hr hstate dst tx =>
    obtain ⟨hconfig, hraft⟩ := h.loaded r hr
    have hgroup : K.inMessage (.transactionResponse tx
        (.getRaft c.raft.loaded.groupConfig r.membership.asProto) : E2EMessage Hash) :=
      ⟨hconfig, fun m => K.asProto hraft.membership⟩
    exact h.sends (c.calm_sendToPeer (.inr hgroup)).toSends fun _ _ hmsg => hmsg
  | tellPlace r o' e loc hcall hok dst tx resp hid hresp =>
    have hplace : K.inMessage (.transactionResponse tx resp) := by
      rcases hresp with rfl | rfl | ⟨rfl, -⟩ <;> trivial
    exact h.sends (c.calm_sendToPeer (.inr hplace)).toSends fun _ _ hmsg => hmsg
  | load src id push hpush hstart hstate b =>
    subst hpush
    exact { h with loading := h.loading.handleReplicateStatePush hm.1 hm.2 }
  | replicate hstate => exact { h with loading := { h.loading with } }
  | wait tx peer hjoin hstart hstate =>
    refine { h with loaded := fun r hr => ?_, loading := inLoading_empty }
    cases hr
  | startLoading src id groupConfig replicaGroup mem peer tx hgot hstart hstate hconfig hmem =>
    subst hgot
    refine { h with
      loaded := fun r hr => ?_, loading := ⟨fun log hlog => ?_, fun mem' hmem' => ?_⟩ }
    · cases hr
    · cases hlog
      exact ⟨hm.1, inLog_new _⟩
    · cases hmem'
      exact hm.2 mem hmem
  | failPromotion => exact { h with }
  | promote src id resp hresp loadFrom tx hawaits hstart log mem hlog hmem =>
    obtain ⟨hconfig, hinLog⟩ := h.loading.log log hlog
    refine { h with loaded := fun r hr => ?_, loading := inLoading_empty }
    cases hr
    exact ⟨hconfig, inRaft_new _ _ (h.loading.mem mem hmem) hinLog _ _ _ _⟩
  | create tx hcreate hstart =>
    refine { h with loaded := fun r hr => ?_ }
    cases hr
    exact ⟨K.groupId _ h.template, inRaft_new _ _ (K.first _) (inLog_new _) _ _ _ _⟩
  | reconfigure config => exact { h with }

theorem InCore.moves (h : K.InCore c) (hmoves : CoreMoves s o m c c') (hm : K.inUntrusted m)
    (hasked : ∀ {c r inner}, K.InCore c → c.raft.loaded.raft = some r → Asked s c o m r inner →
      K.entry inner) : K.InCore c' := by
  induction hmoves with
  | refl => exact h
  | tail _ hmove ih => exact ih.move hmove hm hasked

theorem InCore.receive (h : K.InCore c) (hm : K.inUntrusted m)
    (hasked : ∀ {c' r inner}, K.InCore c' → c'.raft.loaded.raft = some r →
      Asked c.fresh c' o m r inner → K.entry inner) : K.InCore (c.receive o m).1 := by
  have hfresh : K.InCore c.fresh := { h with out := fun _ _ hmsg => by cases hmsg }
  exact hfresh.moves (c.moves_receive o m) hm hasked

end Core

/-! ### Every run of a cluster -/

section Cluster

/-- All that the enclaves have, and all that is on its way between them. -/
structure InCluster (K : Contents) (s : Cluster Hash DB) : Prop where
  cores : ∀ p c, s.cores p = some c → K.InCore c
  links : ∀ src dst msg, .data msg ∈ s.links src dst → K.inMessage msg

theorem inCluster_empty : K.InCluster (Cluster.empty : Cluster Hash DB) where
  cores _ _ hc := by cases hc
  links _ _ _ hmsg := by cases hmsg

theorem inCore_create {p : PeerId} {groupConfig : RaftGroupConfig} {config : EnclaveConfig}
    {o : CoreOracle} {time : Nat} {c : Core Hash DB} (hconfig : K.config groupConfig)
    (hcreate : Core.create p groupConfig config o time = .ok c) : K.InCore c := by
  rw [Core.create] at hcreate
  split at hcreate
  · obtain rfl := Except.ok.inj hcreate
    rw [Core.init]
    refine InCore.quiet ?_ (Core.quiet_sendTimestampToAll _ o)
    refine ⟨hconfig, fun r hr => ?_, inLoading_empty, fun dst msg hmsg => ?_⟩
    · cases hr
    · cases hmsg
  · simp at hcreate
  · simp at hcreate

variable {s : Cluster Hash DB}

theorem InCluster.dropHead (h : K.InCluster s) (src dst : PeerId) (lost : Bool) :
    K.InCluster (s.dropHead src dst lost) := by
  refine { h with links := fun src' dst' msg hmsg => ?_ }
  rw [Cluster.dropHead] at hmsg
  dsimp only at hmsg
  rw [Function.update_apply] at hmsg
  split_ifs at hmsg with hsrc
  · rw [Function.update_apply] at hmsg
    split_ifs at hmsg with hdst
    · exact h.links src dst msg (List.mem_of_mem_tail hmsg)
    · exact h.links src dst' msg hmsg
  · exact h.links src' dst' msg hmsg

variable [DecidableEq Hash] [Platform Hash] [PushSize Hash]

theorem InCluster.handle (h : K.InCluster s) {p : PeerId} {o : CoreOracle}
    {m : UntrustedMessage Hash DB} (hm : K.inUntrusted m)
    (hasked : ∀ c, s.cores p = some c → c.aborted = false → ∀ {c' r inner}, K.InCore c' →
      c'.raft.loaded.raft = some r → Asked c.fresh c' o m r inner → K.entry inner) :
    K.InCluster (s.handle p o m) := by
  rw [Cluster.handle]
  split
  · exact h
  rename_i c hc
  split_ifs with haborted
  · exact h
  have hcore := (h.cores p c hc).receive (o := o) hm
    (hasked c hc (by simpa using haborted))
  refine ⟨fun q c' hc' => ?_, fun src dst msg hmsg => ?_⟩
  · dsimp only at hc'
    rw [Function.update_apply] at hc'
    split_ifs at hc' with hq
    · cases hc'
      exact hcore
    · exact h.cores q c' hc'
  · dsimp only at hmsg
    rw [Function.update_apply] at hmsg
    split_ifs at hmsg with hsrc
    · rcases List.mem_append.mp hmsg with hmsg | hmsg
      · exact h.links p dst msg hmsg
      · rw [Core.sentTo, List.mem_filterMap] at hmsg
        obtain ⟨m', hm', heq⟩ := hmsg
        cases m' with
        | h2eResponse => cases heq
        | peerMessage q msg' =>
          simp only at heq
          split_ifs at heq with hq
          cases heq
          exact hcore.out q msg hm'
    · exact h.links src dst msg hmsg

/-- Every message that an enclave handles asks only for entries of the kind. -/
def Asks (K : Contents) (c : Core Hash DB) (o : CoreOracle) (m : UntrustedMessage Hash DB) : Prop :=
  ∀ {c' r inner}, K.InCore c' → K.inUntrusted m → c'.raft.loaded.raft = some r →
    Asked c.fresh c' o m r inner → K.entry inner

omit [DecidableEq Hash] [Platform Hash] [PushSize Hash] in
theorem inUntrusted_of_fromHost {p : PeerId} {m : UntrustedMessage Hash DB} (h : m.fromHost p) :
    K.inUntrusted m := by
  cases m with
  | peerMessage src msg =>
    cases msg with
    | data => cases h
    | _ => trivial
  | _ => trivial

omit [DecidableEq Hash] [Platform Hash] [PushSize Hash] in
theorem InCluster.inUntrusted_of_arriving (h : K.InCluster s) {src dst : PeerId}
    {msg : PeerMessage Hash} {lost : Bool} (harrive : s.arriving src dst = some (msg, lost)) :
    K.inUntrusted (.peerMessage src msg : UntrustedMessage Hash DB) := by
  rw [Cluster.arriving, Option.map_eq_some_iff] at harrive
  obtain ⟨msg', hhead, heq⟩ := harrive
  have hmem := List.mem_of_mem_head? hhead
  cases msg' with
  | data msg' =>
    simp only [Prod.mk.injEq] at heq
    obtain ⟨rfl, -⟩ := heq
    split_ifs
    · trivial
    · exact h.links src dst msg' hmem
  | _ =>
    cases heq
    trivial

omit [DecidableEq Hash] [Platform Hash] [PushSize Hash] in
theorem InCluster.inUntrusted_of_handled (h : K.InCluster s) {e : ClusterEvent Hash DB}
    {c : Core Hash DB} {o : CoreOracle} {m : UntrustedMessage Hash DB}
    (hhandled : s.handled e = some (c, o, m)) : K.inUntrusted m := by
  cases e with
  | start => cases hhandled
  | lose => cases hhandled
  | host p o' m' =>
    rw [Cluster.handled] at hhandled
    split_ifs at hhandled with hhost
    obtain ⟨c', -, hhandled⟩ := Option.bind_eq_some_iff.mp hhandled
    split_ifs at hhandled
    cases hhandled
    exact inUntrusted_of_fromHost hhost
  | deliver src dst o' =>
    rw [Cluster.handled] at hhandled
    split_ifs at hhandled
    obtain ⟨⟨msg, lost⟩, harrive, hhandled⟩ := Option.bind_eq_some_iff.mp hhandled
    obtain ⟨c', -, hhandled⟩ := Option.bind_eq_some_iff.mp hhandled
    split_ifs at hhandled
    cases hhandled
    exact h.inUntrusted_of_arriving harrive

theorem InCluster.apply (h : K.InCluster s) {e : ClusterEvent Hash DB}
    (hstart : ∀ cfg ∈ e.groupConfig?, K.config cfg)
    (hasks : ∀ x ∈ s.handled e, K.Asks x.1 x.2.1 x.2.2) : K.InCluster (s.apply e) := by
  cases e with
  | start p groupConfig config o time =>
    rw [Cluster.apply]
    split
    · rename_i c _ hcreate
      refine { h with cores := fun q c' hc' => ?_ }
      dsimp only at hc'
      rw [Function.update_apply] at hc'
      split_ifs at hc' with hq
      · cases hc'
        exact inCore_create (hstart groupConfig rfl) hcreate
      · exact h.cores q c' hc'
    · exact h
  | host p o m =>
    rw [Cluster.apply]
    split_ifs with hhost
    · have hm : K.inUntrusted m := inUntrusted_of_fromHost hhost
      refine h.handle hm fun c hc halive c' r inner hc' => ?_
      exact hasks (c, o, m) (by simp [Cluster.handled, hhost, hc, halive]) hc' hm
    · exact h
  | deliver src dst o =>
    rw [Cluster.apply]
    split_ifs with hself
    · exact h
    · split
      · exact h
      · rename_i msg lost harrive
        have hm := h.inUntrusted_of_arriving harrive
        refine (h.dropHead src dst lost).handle hm fun c hc halive c' r inner hc' => ?_
        have hcore : s.cores dst = some c := hc
        exact hasks (c, o, .peerMessage src msg)
          (by simp [Cluster.handled, hself, harrive, hcore, halive]) hc' hm
  | lose src dst => exact h.dropHead src dst true

/-- In every run in which enclaves are started with configurations of the kind and ask only for
    entries of the kind, all is of the kind. -/
theorem InCluster.run {H : Core Hash DB → CoreOracle → UntrustedMessage Hash DB → Prop}
    (hasks : ∀ c o m, H c o m → K.Asks c o m) (es : List (ClusterEvent Hash DB)) (s : Cluster Hash DB)
    (h : K.InCluster s) (hstart : ∀ e ∈ es, ∀ cfg ∈ e.groupConfig?, K.config cfg)
    (hH : s.Along H es) : K.InCluster (s.run es) := by
  induction es generalizing s with
  | nil => exact h
  | cons e es ih =>
    have he := h.apply (hstart e List.mem_cons_self) fun x hx => hasks _ _ _ (hH.1 x hx)
    exact ih (s.apply e) he (fun e' he' => hstart e' (List.mem_cons_of_mem _ he')) hH.2

theorem InCluster.along {H : Core Hash DB → CoreOracle → UntrustedMessage Hash DB → Prop}
    (hasks : ∀ c o m, H c o m → K.Asks c o m) (es : List (ClusterEvent Hash DB)) (s : Cluster Hash DB)
    (h : K.InCluster s) (hstart : ∀ e ∈ es, ∀ cfg ∈ e.groupConfig?, K.config cfg)
    (hH : s.Along H es) : s.Along (fun c o m => H c o m ∧ K.InCore c ∧ K.inUntrusted m) es := by
  induction es generalizing s with
  | nil => trivial
  | cons e es ih =>
    have he := h.apply (hstart e List.mem_cons_self) fun x hx => hasks _ _ _ (hH.1 x hx)
    refine ⟨fun x hx => ⟨hH.1 x hx, ?_, h.inUntrusted_of_handled hx⟩,
      ih (s.apply e) he (fun e' he' => hstart e' (List.mem_cons_of_mem _ he')) hH.2⟩
    obtain ⟨p, hc, -⟩ := Cluster.cores_of_handled hx
    exact h.cores p _ hc

end Cluster

end Contents

end SVR2
