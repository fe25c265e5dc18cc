import SVR2.Core.Contents
import SVR2.Core.Receiver

/-!
# Applying entries while a database is loaded

A replica that joins a group applies the entries that it is pushed with
`MaybeApplyLogToReplicatingDatabase`, while the replicas of the group apply them with
`RaftApplyLogToDatabase`.  The second ignores an entry that fails `ValidateClientLog`, the first
reports it.  `HandleExistingClient` lets no such entry into the log, but
`HandleHostDatabaseRequest` does not check.
-/

namespace SVR2

open Lib RowDatabase

variable {Hash DB : Type} [Database DB]

/-! ### Entries of a cluster -/

/-- All client logs that have been logged meet a condition. -/
def submitted (P : Database.ClientLog DB → Prop) : Contents where
  entry inner := ∀ d, inner = .data d → ∃ log, d = (@Database.wireLog DB _).serialize log ∧ P log
  membership _ := True
  config _ := True
  notSet := nofun
  first _ := trivial
  change _ _ := trivial
  asProto _ _ := trivial
  groupId _ _ := trivial

/-- The client log that a request of the host becomes, if it does, meets a condition. -/
def UntrustedMessage.HostLog (P : Database.ClientLog DB → Prop) (o : CoreOracle) :
    UntrustedMessage Hash DB → Prop
  | .h2eRequest _ (.databaseRequest authenticatedId (some request)) =>
    ∀ log ∈ (@Database.logPBFromRequest DB _ request authenticatedId o.newKey).toOption, P log
  | _ => True

instance (P : Database.ClientLog DB → Prop) [DecidablePred P] (o : CoreOracle)
    (m : UntrustedMessage Hash DB) : Decidable (m.HostLog P o) := by
  unfold UntrustedMessage.HostLog
  split <;> infer_instance

theorem submitted_asks {P : Database.ClientLog DB → Prop}
    (hclient : ∀ log, Database.validateClientLog log = .ok → P log) {c : Core Hash DB}
    {o : CoreOracle} {m : UntrustedMessage Hash DB} (hm : m.HostLog P o) :
    (submitted P).Asks c o m := by
  intro c' r inner _ hin _ hasked d hd
  cases hasked with
  | client tx clientId request hm client hclient' log hlog hvalid =>
    cases hd
    exact ⟨log, rfl, hclient log hvalid⟩
  | database tx authenticatedId request heq log hlog =>
    cases hd
    subst heq
    exact ⟨log, rfl, hm log (by rw [hlog]; rfl)⟩
  | write src id entry hwrite =>
    subst hwrite
    exact hin d hd
  | _ => cases hd

/-- An enclave has the entry in its log, or it is on its way in a push. -/
def Cluster.Holds (s : Cluster Hash DB) (e : LogEntry Hash) : Prop :=
  (∃ p c r, s.cores p = some c ∧ c.raft.loaded.raft = some r ∧ e ∈ r.log.entries) ∨
    ∃ src dst id push,
      .data (.transactionRequest id (.replicateStatePush push)) ∈ s.links src dst ∧ e ∈ push.entries

theorem Contents.InCluster.entry {K : Contents} {s : Cluster Hash DB} (h : K.InCluster s)
    {e : LogEntry Hash} (he : s.Holds e) : K.entry e.inner := by
  rcases he with ⟨p, c, r, hc, hr, he⟩ | ⟨src, dst, id, push, hpush, he⟩
  · exact ((h.cores p c hc).loaded r hr).2.log e he
  · exact (h.links src dst _ hpush).1 e he

/-! ### The two ways to apply an entry -/

/-- The database after a committed entry, which is handed to `RaftApplyLogToDatabase` if it is
    a client's. -/
def Core.dbAfter (c : Core Hash DB) : Inner → Option DB
  | .data d => (c.raftApplyLogToDatabase d).1.raft.loaded.db
  | _ => c.raft.loaded.db

theorem Core.dbAfter_eq {c : Core Hash DB} {db : DB} (hdb : c.raft.loaded.db = some db)
    (e : LogEntry Hash) : c.dbAfter e.inner = some (applyEntry db e) := by
  rw [applyEntry]
  cases e.inner with
  | data d =>
    cases hparse : (@Database.wireLog DB _).parse d with
    | none => simp only [dbAfter, raftApplyLogToDatabase, hparse, hdb]
    | some log =>
      simp only [dbAfter, raftApplyLogToDatabase, hparse, hdb]
      split
      · rename_i hok
        rw [if_pos hok]
      · rename_i hne
        rw [if_neg hne]
        exact hdb
  | _ => exact hdb

/-- The rows that have been loaded are those of a database up to the largest key loaded. -/
def Loading.LoadedFrom [RowDatabase DB] (l : Loading Hash DB) (c : Core Hash DB) : Prop :=
  ∃ part db, l.db = some part ∧ c.raft.loaded.db = some db ∧
    rows part = upTo db l.lexigraphicallyLargestRowLoadedIntoDb

/-- `MaybeApplyLogToReplicatingDatabase` takes the entry in, and does to the part of the database
    that has been loaded what `RaftApplyLogToDatabase` does to all of it. -/
def Loading.AppliesAlike [RowDatabase DB] (l : Loading Hash DB) (c : Core Hash DB)
    (e : LogEntry Hash) : Prop :=
  ∃ part' db', l.maybeApplyLogToReplicatingDatabase e = ({ l with db := some part' }, .ok) ∧
    c.dbAfter e.inner = some db' ∧
    rows part' = upTo db' l.lexigraphicallyLargestRowLoadedIntoDb

/-- The log of the entry is valid, or is for a key that has not been loaded. -/
def Loading.Passes (l : Loading Hash DB) (e : LogEntry Hash) : Prop :=
  ∀ d log, e.inner = .data d → (@Database.wireLog DB _).parse d = some log →
    Database.validateClientLog log = .ok ∨
      l.lexigraphicallyLargestRowLoadedIntoDb < Database.logKey log

/-- A valid log has a key, as has the log of a request, and the empty string is a log that has
    none. -/
structure KeyedLogs (DB : Type) [Database DB] : Prop where
  key_ne_nil : ∀ log : Database.ClientLog DB, Database.validateClientLog log = .ok →
    Database.logKey log ≠ []
  request_key_ne_nil : ∀ (request : Database.Request DB) (authenticatedId newKey : Bytes),
    ∀ log ∈ (Database.logPBFromRequest request authenticatedId newKey).toOption,
      Database.logKey log ≠ []
  parse_nil : ∀ log, (@Database.wireLog DB _).parse [] = some log → Database.logKey log = []

section

variable [RowDatabase DB] (hlogs : KeyedLogs DB)

include hlogs

theorem KeyedLogs.upTo_applyEntry (db : DB) (e : LogEntry Hash) :
    upTo (applyEntry db e) [] = upTo db [] := by
  rw [applyEntry]
  split
  · split
    · rename_i log _
      split_ifs with hok
      · obtain ⟨b, key, hkey⟩ := List.exists_cons_of_ne_nil (hlogs.key_ne_nil log hok)
        exact upTo_run_of_lt (hkey ▸ List.nil_lt_cons b key)
      · rfl
    · rfl
  · rfl

omit [RowDatabase DB] in
theorem KeyedLogs.applyEntry_nil (db : DB) {e : LogEntry Hash} (h : e.inner = .data []) :
    applyEntry db e = db := by
  simp only [applyEntry, h]
  split
  · rename_i log hparse
    exact if_neg fun hok => hlogs.key_ne_nil log hok (hlogs.parse_nil log hparse)
  · rfl

theorem Loading.appliesAlike_of_passes {l : Loading Hash DB} {c : Core Hash DB}
    {e : LogEntry Hash} (he : (submitted fun log : Database.ClientLog DB => Database.logKey log ≠ []).entry e.inner)
    (hl : l.LoadedFrom c) (hpass : l.Passes e) : l.AppliesAlike c e := by
  obtain ⟨part, db, hpart, hdb, hrows⟩ := hl
  have hdata : ∀ d, e.inner = .data d → d = [] ∧ applyEntry db e = db ∨ d ≠ [] ∧ ∃ log,
      (@Database.wireLog DB _).parse d = some log ∧ (Database.validateClientLog log = .ok ∨
        l.lexigraphicallyLargestRowLoadedIntoDb < Database.logKey log) := by
    intro d hd
    by_cases hnil : d = []
    · subst hnil
      exact .inl ⟨rfl, hlogs.applyEntry_nil db hd⟩
    · obtain ⟨log, rfl, -⟩ := he d hd
      have hparse := (@Database.wireLog DB _).parse_serialize log
      exact .inr ⟨hnil, log, hparse, hpass _ log hd hparse⟩
  obtain ⟨part', happly, hrows'⟩ :=
    l.maybeApplyLogToReplicatingDatabase_eq hpart hrows (hlogs.upTo_applyEntry db e) hdata
  exact ⟨part', applyEntry db e, happly, c.dbAfter_eq hdb e, hrows'⟩

/-- A log that is not valid and whose key has been loaded is an error. -/
theorem Loading.passes_of_appliesAlike {l : Loading Hash DB} {c : Core Hash DB}
    {e : LogEntry Hash} (he : (submitted fun log : Database.ClientLog DB => Database.logKey log ≠ []).entry e.inner)
    (hl : l.LoadedFrom c) (h : l.AppliesAlike c e) : l.Passes e := by
  obtain ⟨part, db, hpart, -⟩ := hl
  obtain ⟨part', db', happly, -⟩ := h
  intro d log hd hparse
  by_contra hneither
  obtain ⟨hinvalid, hloaded⟩ := not_or.mp hneither
  have hkey : Database.logKey log ≠ [] := by
    obtain ⟨log', rfl, hlog'⟩ := he d hd
    rw [(@Database.wireLog DB _).parse_serialize log', Option.some.injEq] at hparse
    exact hparse ▸ hlog'
  have hlargest : l.lexigraphicallyLargestRowLoadedIntoDb ≠ [] := by
    intro hnil
    obtain ⟨b, key, hcons⟩ := List.exists_cons_of_ne_nil hkey
    exact hloaded (hnil ▸ hcons ▸ List.nil_lt_cons b key)
  have hdata : d ≠ [] := fun hnil => hkey (hlogs.parse_nil log (hnil ▸ hparse))
  rw [maybeApplyLogToReplicatingDatabase, hpart, hd] at happly
  dsimp only at happly
  rw [if_neg (not_or.mpr ⟨hlargest, hdata⟩), hparse] at happly
  dsimp only at happly
  rw [if_neg hloaded] at happly
  split at happly
  · exact hinvalid ‹_›
  · exact hinvalid (congrArg Prod.snd happly)

variable [DecidableEq Hash] [Platform Hash] [PushSize Hash]

/-- Every entry of a cluster is taken in exactly if it passes, and every entry does if the host asks
    only for valid ones. -/
theorem KeyedLogs.appliesAlike (es : List (ClusterEvent Hash DB)) {e : LogEntry Hash}
    (he : (Cluster.empty.run es).Holds e) {l : Loading Hash DB} {c : Core Hash DB}
    (hl : l.LoadedFrom c) : (l.AppliesAlike c e ↔ l.Passes e) ∧
      (Cluster.empty.Along (fun _ o m => m.HostLog (Database.validateClientLog · = .ok) o) es →
        l.AppliesAlike c e) := by
  have hentry : ∀ {P : Database.ClientLog DB → Prop},
      (∀ log, Database.validateClientLog log = .ok → P log) →
      Cluster.empty.Along (fun _ o m => m.HostLog P o) es → (submitted P).entry e.inner :=
    fun hP hes => (Contents.InCluster.run (fun _ _ _ => submitted_asks hP) es _
      Contents.inCluster_empty (fun _ _ _ _ => trivial) hes).entry he
  have hkeys : (submitted fun log : Database.ClientLog DB => Database.logKey log ≠ []).entry e.inner := by
    refine hentry hlogs.key_ne_nil (Cluster.along_of_forall (fun _ o m => ?_) es _)
    unfold UntrustedMessage.HostLog
    split
    · exact hlogs.request_key_ne_nil _ _ _
    · trivial
  refine ⟨⟨l.passes_of_appliesAlike hlogs hkeys hl, l.appliesAlike_of_passes hlogs hkeys hl⟩, ?_⟩
  refine fun hhost => l.appliesAlike_of_passes hlogs hkeys hl fun d log hd hparse => .inl ?_
  obtain ⟨log', rfl, hok⟩ := hentry (fun _ h => h) hhost d hd
  rw [(@Database.wireLog DB _).parse_serialize log', Option.some.injEq] at hparse
  exact hparse ▸ hok

end

/-! ### Both versions -/

theorem DB2.keyedLogs [Wire Log2] [Wire DB2RowState]
    (h : ∀ log : Log2, Wire.parse [] = some log → log.backupId = []) : KeyedLogs DB2 where
  key_ne_nil log hok hnil := by
    change validateClientLog log = .ok at hok
    change log.backupId = [] at hnil
    simp [validateClientLog, hnil, BACKUP_ID_SIZE] at hok
  request_key_ne_nil request authenticatedId newKey log hlog hnil := by
    change log ∈ (logPBFromRequest request authenticatedId).toOption at hlog
    change log.backupId = [] at hnil
    rw [logPBFromRequest] at hlog
    split_ifs at hlog with hsize <;> cases hlog
    exact hsize (by rw [show authenticatedId = [] from hnil]; decide)
  parse_nil := h

theorem DB3.keyedLogs [Ristretto] [Wire Log3] [Wire DB3RowState]
    (h : ∀ log : Log3, Wire.parse [] = some log → log.backupId = []) : KeyedLogs DB3 where
  key_ne_nil log hok hnil := by
    change validateClientLog log = .ok at hok
    change log.backupId = [] at hnil
    simp [validateClientLog, hnil, BACKUP_ID_SIZE] at hok
  request_key_ne_nil request authenticatedId newKey log hlog hnil := by
    change log ∈ (logPBFromRequest request authenticatedId newKey).toOption at hlog
    change log.backupId = [] at hnil
    simp only [logPBFromRequest] at hlog
    split_ifs at hlog with hsize <;> cases hlog
    exact hsize (by rw [show authenticatedId = [] from hnil]; decide)
  parse_nil := h

/-- In every run of a cluster, an entry in a log or in a push is applied alike by a replica that
    joins and by one that is in the group, whatever has been loaded, exactly if its log is valid or its
    key has not been loaded; and all entries are, if each request of the host to the database is valid.
    The empty string has to be a log without a backup id. -/
theorem replicating_apply_agrees (Hash : Type) [DecidableEq Hash] [Platform Hash] [PushSize Hash]
    [Ristretto] [Wire DB2.Log2] [Wire DB2.DB2RowState] [Wire DB3.Log3] [Wire DB3.DB3RowState]
    (h2 : ∀ log : DB2.Log2, Wire.parse [] = some log → log.backupId = [])
    (h3 : ∀ log : DB3.Log3, Wire.parse [] = some log → log.backupId = []) :
    (∀ (es : List (ClusterEvent Hash DB2)) (e : LogEntry Hash), (Cluster.empty.run es).Holds e →
      ∀ (l : Loading Hash DB2) (c : Core Hash DB2), l.LoadedFrom c →
        (l.AppliesAlike c e ↔ l.Passes e) ∧
        (Cluster.empty.Along (fun _ o m => m.HostLog (Database.validateClientLog · = .ok) o) es →
          l.AppliesAlike c e)) ∧
    ∀ (es : List (ClusterEvent Hash DB3)) (e : LogEntry Hash), (Cluster.empty.run es).Holds e →
      ∀ (l : Loading Hash DB3) (c : Core Hash DB3), l.LoadedFrom c →
        (l.AppliesAlike c e ↔ l.Passes e) ∧
        (Cluster.empty.Along (fun _ o m => m.HostLog (Database.validateClientLog · = .ok) o) es →
          l.AppliesAlike c e) :=
  ⟨fun es _ he _ _ => (DB2.keyedLogs h2).appliesAlike es he,
    fun es _ he _ _ => (DB3.keyedLogs h3).appliesAlike es he⟩

namespace Sample

def hostRequest (key : Byte) (request : DB2.Request) : ClusterEvent IdealHash DB2 :=
  ask 1 2 (.databaseRequest (.replicate 16 key) (some request))

def validBackup : DB2.Request := .backup (.replicate 16 7) (.replicate 32 1) 3

/-- Enclave 1 creates a group, and its host stores some backups. -/
def stored (keys : List Byte) : List (ClusterEvent IdealHash DB2) :=
  let start (p : PeerId) := .start p groupConfig
    { config with raft := { config.raft with replicationPipeline := 1 } } (coreOracle 0) 0
  [start 1, start 2, ask 1 1 .createNewRaftGroup] ++ keys.map (hostRequest · validBackup)

def entryAt (es : List (ClusterEvent IdealHash DB2)) (p : PeerId) (idx : Nat) :
    Option (LogEntry IdealHash) :=
  ((Cluster.empty.run es).cores p).bind fun c => c.raft.loaded.raft.bind fun r => r.log.at? idx

theorem holds_entryAt {es : List (ClusterEvent IdealHash DB2)} {p : PeerId} {idx : Nat}
    {e : LogEntry IdealHash} (h : entryAt es p idx = some e) : (Cluster.empty.run es).Holds e := by
  obtain ⟨c, hc, h⟩ := Option.bind_eq_some_iff.mp h
  obtain ⟨r, hr, h⟩ := Option.bind_eq_some_iff.mp h
  rw [Log.at?] at h
  split_ifs at h
  exact .inl ⟨p, c, r, hc, hr, List.mem_of_getElem? h⟩

/-- Before the only backup is committed: both have no row with its key. -/
def loadedUpTo (key : Byte) : Loading IdealHash DB2 where
  db := some Database.newDB
  lexigraphicallyLargestRowLoadedIntoDb := .replicate 16 key

def emptyCore : Core IdealHash DB2 :=
  { core 1 with raft := { loaded := { db := some Database.newDB } } }

theorem replicating_apply_agrees_backup : ∃ e, entryAt (stored [5]) 1 2 = some e ∧
    ∃ part' db', (loadedUpTo 5).maybeApplyLogToReplicatingDatabase e =
        ({ loadedUpTo 5 with db := some part' }, .ok) ∧ emptyCore.dbAfter e.inner = some db' ∧
      rows part' = upTo db' (.replicate 16 5) := by
  have := DB3.sampleRistretto
  have hentry : (entryAt (stored [5]) 1 2).isSome := by decide +kernel
  obtain ⟨e, he⟩ := Option.isSome_iff_exists.mp hentry
  have hvalid : Cluster.empty.Along (fun _ o m => m.HostLog
      (fun log : Database.ClientLog DB2 => Database.validateClientLog log = .ok) o) (stored [5]) := by
    decide +kernel
  have halike := (replicating_apply_agrees IdealHash (by decide) (by decide)).1 (stored [5]) e
    (holds_entryAt he) (loadedUpTo 5) emptyCore ⟨Database.newDB, Database.newDB, rfl, rfl, rfl⟩
  exact ⟨e, he, halike.2 hvalid⟩

/-- Enclave 2 joins and has loaded nine backups, but does not know yet that these are all. -/
def joining : List (ClusterEvent IdealHash DB2) :=
  stored [1, 2, 3, 4, 5, 6, 7, 8, 9] ++ ask 2 1 (.joinRaft (some 1)) ::
    carry [(2, 1), (1, 2), (1, 2), (2, 1), (1, 2), (2, 1), (1, 2), (2, 1), (2, 1), (1, 2), (2, 1),
      (1, 2)]

/-- Then the host asks for a restore with a PIN of no bytes, and the next push is delivered. -/
def spoiled : List (ClusterEvent IdealHash DB2) :=
  joining ++ hostRequest 5 (.restore []) :: carry [(2, 1), (1, 2)]

/-- Enclave 1 has applied the entry and its database is as before; enclave 2 has failed to load it. -/
theorem invalid_entry_stops_loading :
    (entryAt spoiled 1 11).map (·.inner) =
      some (.data (Wire.serialize (⟨.replicate 16 5, .restore []⟩ : DB2.Log2))) ∧
    ((Cluster.empty.run spoiled).cores 1).map (fun c =>
      (c.aborted, c.raft.loaded.dbLastAppliedLog, c.raft.loaded.db)) =
      ((Cluster.empty.run joining).cores 1).map (fun c => (false, 11, c.raft.loaded.db)) ∧
    ((Cluster.empty.run joining).cores 2).map (fun c =>
      c.raft.loading.lexigraphicallyLargestRowLoadedIntoDb) = some (.replicate 16 9) ∧
    ((Cluster.empty.run spoiled).links 2 1).map (fun m => match m with
      | .data (.transactionResponse _ resp) => some resp.statusOf
      | _ => none) = [some .db2ClientPinSize] := by
  decide +kernel

end Sample

end SVR2
