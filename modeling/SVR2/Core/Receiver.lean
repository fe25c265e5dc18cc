import SVR2.Core.Cluster
import SVR2.DB.Rows
import SVR2.Lib.Runs
import SVR2.Raft.LogSpec

/-!
# Taking in the state of another replica

A replica that joins a group takes in pushes of log entries and database rows.  The rows come in
the order of their keys while the entries go on changing the sender's database.  What has been
loaded is at any time the sender's database up to the largest key that was sent: entries for keys
up to it are applied, all others are left to the rows that are still to come.
-/

namespace SVR2

open Lib

variable {Hash DB : Type}

/-! ### What the sender pushes -/

section Sender

variable [Database DB]

def applyEntry (db : DB) (e : LogEntry Hash) : DB :=
  match e.inner with
  | .data d =>
    match (@Database.wireLog DB _).parse d with
    | some log => if Database.validateClientLog log = .ok then (Database.run db log).1 else db
    | none => db
  | _ => db

def applyEntries (db : DB) (entries : List (LogEntry Hash)) : DB := entries.foldl applyEntry db

/-- A committed entry of a group's log: no client's log, or a valid one. -/
structure CommittedEntry [Platform Hash] (DB : Type) [Database DB] (e : LogEntry Hash) : Prop where
  term : e.term ≠ 0
  hashChain : e.hashChain ≠ none
  size : Platform.byteSizeLong e ≤ INT_MAX
  data : ∀ d, e.inner = .data d → d ≠ [] ∧
    ∃ log, (@Database.wireLog DB _).parse d = some log ∧ Database.validateClientLog log = .ok

/-- The part of the sender's state that one push carries: entries, and rows up to the key `last`. -/
structure Portion (Hash : Type) where
  entries : List (LogEntry Hash)
  last : Bytes
  dbToEnd : Bool
  committedMembership : ReplicaGroup

/-- How far a replication has come at its sender: the database after the last entry that was
    sent, the largest key that was sent, and the index and the number of the next push. -/
structure Progress (DB : Type) where
  db : DB
  largest : Bytes
  logIdx : Nat
  sequence : Nat

variable [RowDatabase DB]

namespace Progress

def next (s : Progress DB) (p : Portion Hash) : Progress DB where
  db := applyEntries s.db p.entries
  largest := p.last
  logIdx := s.logIdx + p.entries.length
  sequence := s.sequence + 1

/-- The rows that go with a portion: those after the largest key sent so far, up to its last, as
    the entries of the portion leave them. -/
def rowsOf (s : Progress DB) (p : Portion Hash) : OrdMap Bytes (RowDatabase.Row DB) :=
  RowDatabase.between (s.next p).db s.largest p.last

/-- The push of a portion, in the replication with the given id. -/
def push (id : Nat) (s : Progress DB) (p : Portion Hash) : ReplicateStatePush Hash where
  replicationId := id
  replicationSequence := s.sequence
  firstLogIdx := s.logIdx
  entries := p.entries
  dbToEnd := p.dbToEnd
  rows := (s.rowsOf p).toList.map fun e => RowDatabase.rowAsProto e.1 e.2
  committedMembership := p.committedMembership

/-- A portion that may come next: it ends with a row, or has no rows, and the database ends with
    it if it says so. -/
structure Permits [Platform Hash] (s : Progress DB) (p : Portion Hash) : Prop where
  entries : ∀ e ∈ p.entries, CommittedEntry DB e
  last : p.last = s.largest ∨ s.largest < p.last ∧ p.last ∈ RowDatabase.rows (s.next p).db
  dbToEnd : p.dbToEnd → ∀ k ∈ RowDatabase.rows (s.next p).db, k ≤ p.last
  committedMembership : ∃ m, Membership.fromProto p.committedMembership = .ok m

/-- A replication starts at some index of the log, in which there were entries before. -/
def start (earlier : List (LogEntry Hash)) (logIdx : Nat) : Progress DB where
  db := applyEntries Database.newDB earlier
  largest := []
  logIdx := logIdx
  sequence := 0

def pushes (id : Nat) : Progress DB → List (Portion Hash) → List (ReplicateStatePush Hash)
  | _, [] => []
  | s, p :: ps => s.push id p :: pushes id (s.next p) ps

end Progress

end Sender

/-! ### One entry -/

namespace RowDatabase

variable [Database DB] [RowDatabase DB]

theorem Valid.applyEntry {db : DB} (h : Valid db) (e : LogEntry Hash) :
    Valid (applyEntry db e) := by
  rw [SVR2.applyEntry]
  split
  · split
    · split_ifs with hvalid
      · exact h.run hvalid
      · exact h
    · exact h
  · exact h

theorem Valid.applyEntries {db : DB} (h : Valid db) (entries : List (LogEntry Hash)) :
    Valid (applyEntries db entries) :=
  foldl_invariant (fun _ e hdb => hdb.applyEntry e) h entries

end RowDatabase

namespace Log

theorem append_committed [Platform Hash] [Database DB] (log : Log Hash) {e : LogEntry Hash}
    (he : CommittedEntry DB e) (n : Nat) :
    (log.append e n).2 = .ok ∨ (log.append e n).2 = .raftLogOutOfSpace := by
  rw [append, if_neg he.term, if_neg he.hashChain]
  dsimp only
  rcases makeRoom (logentryBytesInLog e) n log.entries.length log with ⟨log', room⟩
  cases room with
  | false => exact .inr rfl
  | true =>
    dsimp only
    rw [if_neg (not_lt.mpr he.size)]
    exact .inl rfl

/-- The entry that comes next has the given index. -/
def EndsBefore (log : Log Hash) (idx : Nat) : Prop :=
  log.oldestStoredIdx + log.entries.length = idx

theorem EndsBefore.append [Platform Hash] {log log' : Log Hash} {idx : Nat} {e : LogEntry Hash}
    (h : log.EndsBefore idx) (hlog : log.append e log.lastIdx = (log', .ok)) :
    log'.EndsBefore (idx + 1) := by
  obtain ⟨k, hk, holdest, hentries⟩ := log.append_drop e log.lastIdx
  rw [hlog] at holdest hentries
  obtain ⟨-, hne⟩ | ⟨hentries, -, -⟩ := hentries
  · exact absurd rfl hne
  dsimp only at holdest hentries
  rw [EndsBefore] at h ⊢
  rw [holdest, hentries, List.length_append, List.length_drop, List.length_singleton]
  rw [lastIdx] at hk
  split_ifs at hk with hnil
  · simp only [hnil, List.length_nil] at h ⊢
    omega
  · have := List.length_pos_iff.mpr hnil
    omega

end Log

namespace Loading

open RowDatabase

variable [Database DB] [RowDatabase DB]

/-- An entry whose log is valid, or is for a key that has not been loaded, is taken in, and does to
    the part that has been loaded what it does to the whole. -/
theorem maybeApplyLogToReplicatingDatabase_eq {l : Loading Hash DB} {part db : DB}
    {e : LogEntry Hash} (hdb : l.db = some part)
    (hpart : rows part = upTo db l.lexigraphicallyLargestRowLoadedIntoDb)
    (hempty : upTo (applyEntry db e) [] = upTo db [])
    (hdata : ∀ d, e.inner = .data d → d = [] ∧ applyEntry db e = db ∨
      d ≠ [] ∧ ∃ log, (@Database.wireLog DB _).parse d = some log ∧
        (Database.validateClientLog log = .ok ∨
          l.lexigraphicallyLargestRowLoadedIntoDb < Database.logKey log)) :
    ∃ part', l.maybeApplyLogToReplicatingDatabase e = ({ l with db := some part' }, .ok) ∧
      rows part' = upTo (applyEntry db e) l.lexigraphicallyLargestRowLoadedIntoDb := by
  have hsame : ({ l with db := some part } : Loading Hash DB) = l := by
    rw [← hdb]
  rw [maybeApplyLogToReplicatingDatabase, hdb]
  dsimp only
  cases hinner : e.inner with
  | data d =>
    dsimp only
    obtain ⟨rfl, happly⟩ | ⟨hd, log, hparse, hlog⟩ := hdata d hinner
    · exact ⟨part, by rw [if_pos (.inr rfl), hsame], by rw [hpart, happly]⟩
    have happly : applyEntry db e =
        if Database.validateClientLog log = .ok then (Database.run db log).1 else db := by
      simp only [applyEntry, hinner, hparse]
    by_cases hnil : l.lexigraphicallyLargestRowLoadedIntoDb = []
    · -- no row has been loaded, so that none is up to date
      refine ⟨part, by rw [if_pos (.inl hnil), hsame], ?_⟩
      rw [hpart, hnil, hempty]
    · rw [if_neg (not_or.mpr ⟨hnil, hd⟩), hparse, happly]
      dsimp only
      by_cases hkey : l.lexigraphicallyLargestRowLoadedIntoDb < Database.logKey log
      · refine ⟨part, by rw [if_pos hkey, hsame], ?_⟩
        split_ifs
        · rw [hpart, upTo_run_of_lt hkey]
        · exact hpart
      · have hok := hlog.resolve_right hkey
        rw [if_neg hkey, hok, if_pos rfl]
        exact ⟨(Database.run part log).1, rfl, upTo_run_of_le hpart (not_lt.mp hkey)⟩
  | membershipChange g =>
    refine ⟨part, by rw [if_pos (.inr rfl), hsame], ?_⟩
    simp only [applyEntry, hinner, hpart]
  | minimums m =>
    refine ⟨part, by rw [if_pos (.inr rfl), hsame], ?_⟩
    simp only [applyEntry, hinner, hpart]
  | notSet =>
    refine ⟨part, by rw [if_pos (.inr rfl), hsame], ?_⟩
    simp only [applyEntry, hinner, hpart]

theorem appendEntries_eq [Platform Hash] {entries : List (LogEntry Hash)} {l : Loading Hash DB}
    {log : Log Hash} {part db : DB} {idx : Nat} (hlog : l.log = some log)
    (hidx : log.EndsBefore idx) (hdb : l.db = some part)
    (hpart : rows part = upTo db l.lexigraphicallyLargestRowLoadedIntoDb) (hvalid : Valid db)
    (hentries : ∀ e ∈ entries, CommittedEntry DB e) :
    (l.appendEntries entries).2 = .raftLogOutOfSpace ∨
    ∃ log' part', l.appendEntries entries = ({ l with log := some log', db := some part' }, .ok) ∧
      log'.EndsBefore (idx + entries.length) ∧
      rows part' = upTo (applyEntries db entries) l.lexigraphicallyLargestRowLoadedIntoDb := by
  induction entries generalizing l log part db idx with
  | nil =>
    refine .inr ⟨log, part, ?_, hidx, hpart⟩
    rw [appendEntries, ← hlog, ← hdb]
  | cons e entries ih =>
    have he := hentries e List.mem_cons_self
    rw [appendEntries, hlog]
    dsimp only
    rcases happend : log.append e log.lastIdx with ⟨log', err⟩
    have herr := log.append_committed he log.lastIdx
    rw [happend] at herr
    rcases herr with rfl | rfl
    · have hdata : ∀ d, e.inner = .data d → d = [] ∧ applyEntry db e = db ∨ d ≠ [] ∧ ∃ log,
          (@Database.wireLog DB _).parse d = some log ∧ (Database.validateClientLog log = .ok ∨
            l.lexigraphicallyLargestRowLoadedIntoDb < Database.logKey log) := by
        intro d hd
        obtain ⟨hne, log, hparse, hok⟩ := he.data d hd
        exact .inr ⟨hne, log, hparse, .inl hok⟩
      have hempty : upTo (applyEntry db e) [] = upTo db [] := by
        rw [upTo_nil hvalid, upTo_nil (hvalid.applyEntry e)]
      obtain ⟨part', happly, hpart'⟩ := maybeApplyLogToReplicatingDatabase_eq
        (l := { l with log := some log' }) hdb hpart hempty hdata
      dsimp only
      rw [happly]
      have hrest := ih (l := { l with log := some log', db := some part' }) rfl
        (hidx.append happend) rfl hpart' (hvalid.applyEntry e)
        fun e' he' => hentries e' (List.mem_cons_of_mem e he')
      rw [List.length_cons, Nat.add_comm entries.length 1, ← Nat.add_assoc]
      exact hrest
    · exact .inl rfl

theorem loadRows_eq {l : Loading Hash DB} {part db : DB} (last : Bytes) (hdb : l.db = some part)
    (hpart : rows part = upTo db l.lexigraphicallyLargestRowLoadedIntoDb) (hvalid : Valid db)
    (hlast : last = l.lexigraphicallyLargestRowLoadedIntoDb ∨
      l.lexigraphicallyLargestRowLoadedIntoDb < last ∧ last ∈ rows db) :
    ∃ part', l.loadRows (((between db l.lexigraphicallyLargestRowLoadedIntoDb last).toList.map
        fun e => rowAsProto e.1 e.2)) =
        ({ l with db := some part', lexigraphicallyLargestRowLoadedIntoDb := last }, .ok) ∧
      rows part' = upTo db last := by
  rw [loadRows, hdb]
  dsimp only
  rcases hlast with hlast | ⟨hlt, hmem⟩
  · refine ⟨part, ?_, ?_⟩
    · rw [hlast, between_self, List.map_nil, if_pos rfl, ← hdb]
    · rw [hpart, hlast]
  · have hlastKey := getLast?_between hlt hmem
    have hrows : (between db l.lexigraphicallyLargestRowLoadedIntoDb last).toList ≠ [] := by
      intro hnil
      rw [hnil] at hlastKey
      cases hlastKey
    obtain ⟨part', hload, htoList⟩ := loadRowsFromProtos_rowAsProto hrows part (OrdMap.sorted _)
      (fun e he => hvalid _ _ (find?_of_mem_between he))
      (fun k hk e he => lt_of_upTo_between (hpart ▸ hk) he)
    refine ⟨part', ?_, ?_⟩
    · rw [if_neg (mt List.map_eq_nil_iff.mp hrows), hload, hlastKey]
      dsimp only [Option.getD_some]
      rw [if_neg (not_le.mpr hlt)]
    · refine OrdMap.ext_perm ?_
      rw [htoList, hpart]
      exact upTo_append_between db hlt.le

/-! ### Pushes -/

/-- The log into which the entries of a push go: an empty one starts where the push does. -/
def logFor (log : Log Hash) (firstLogIdx : Nat) : Log Hash :=
  if log.entries = [] then (log.setNextIdx firstLogIdx).1 else log

omit [RowDatabase DB] in
theorem handleReplicateStatePush_eq [Platform Hash] {l : Loading Hash DB} {log : Log Hash}
    (repl : ReplicateStatePush Hash) {mem : Membership} (hlog : l.log = some log)
    (hfirst : ¬(1 < log.nextIdx ∧ repl.firstLogIdx ≠ log.nextIdx))
    (hid : repl.replicationId = l.replicationId)
    (hsequence : repl.replicationSequence = l.replicationSequence)
    (hmem : Membership.fromProto repl.committedMembership = .ok mem) :
    l.handleReplicateStatePush repl =
      match ({ l with
          replicationSequence := l.replicationSequence + 1
          mem := some mem
          log := some (logFor log repl.firstLogIdx) } : Loading Hash DB).appendEntries repl.entries with
      | (l, .ok) =>
        match l.loadRows repl.rows with
        | (l, .ok) => ({ l with pushes := l.pushes ++ [repl] }, .ok)
        | (l, err) => (l, err)
      | (l, err) => (l, err) := by
  rw [handleReplicateStatePush, hlog]
  dsimp only
  rw [if_neg hfirst, if_neg (not_not.mpr hid), if_neg (not_not.mpr hsequence), hmem]
  rfl

/-- What a loading replica has taken in, at a point of the replication. -/
structure Received (id : Nat) (s : Progress DB) (l : Loading Hash DB) : Prop where
  valid : Valid s.db
  log : ∃ log, l.log = some log ∧ (log.entries = [] ∨ log.EndsBefore s.logIdx)
  db : ∃ part, l.db = some part ∧ rows part = upTo s.db s.largest
  largest : l.lexigraphicallyLargestRowLoadedIntoDb = s.largest
  sequence : l.replicationSequence = s.sequence
  id : l.replicationId = id

/-- The push that comes next is taken in, unless the log is full. -/
theorem Received.handle [Platform Hash] {id : Nat} {s : Progress DB} {l : Loading Hash DB}
    {p : Portion Hash} (h : Received id s l) (hp : s.Permits p) :
    (l.handleReplicateStatePush (s.push id p)).2 = .raftLogOutOfSpace ∨
      ∃ l', l.handleReplicateStatePush (s.push id p) = (l', .ok) ∧ Received id (s.next p) l' := by
  obtain ⟨log, hlog, hidx⟩ := h.log
  obtain ⟨part, hdb, hpart⟩ := h.db
  obtain ⟨mem, hmem⟩ := hp.committedMembership
  have hfirst : ¬(1 < log.nextIdx ∧ s.logIdx ≠ log.nextIdx) := by
    rintro ⟨hlt, hne⟩
    rw [Log.nextIdx, Log.lastIdx] at hlt hne
    split_ifs at hlt hne with hnil
    · exact absurd hlt (by decide)
    · have hends := hidx.resolve_left hnil
      have hpos := List.length_pos_iff.mpr hnil
      rw [Log.EndsBefore] at hends
      omega
  have hends : (logFor log s.logIdx).EndsBefore s.logIdx := by
    rw [logFor]
    split_ifs with hnil
    · rw [Log.setNextIdx, if_neg (not_not.mpr hnil), Log.EndsBefore, hnil]
      rfl
    · exact hidx.resolve_left hnil
  rw [handleReplicateStatePush_eq (s.push id p) hlog hfirst h.id.symm h.sequence.symm hmem]
  obtain ⟨l₁, hl₁⟩ : ∃ l₁ : Loading Hash DB, l₁ =
      { l with
        replicationSequence := l.replicationSequence + 1
        mem := some mem
        log := some (logFor log (s.push id p).firstLogIdx) } := ⟨_, rfl⟩
  have hlog₁ : l₁.log = some (logFor log s.logIdx) := by rw [hl₁]; rfl
  have hdb₁ : l₁.db = some part := by rw [hl₁]; exact hdb
  have hlargest₁ : l₁.lexigraphicallyLargestRowLoadedIntoDb = s.largest := by
    rw [hl₁]; exact h.largest
  have hsequence₁ : l₁.replicationSequence = s.sequence + 1 := by rw [hl₁, ← h.sequence]
  have hid₁ : l₁.replicationId = id := by rw [hl₁]; exact h.id
  rw [← hl₁]
  clear hl₁
  rcases appendEntries_eq hlog₁ hends hdb₁ (hlargest₁.symm ▸ hpart) h.valid hp.entries with
    hfull | ⟨log', part', happend, hends', hpart'⟩
  · left
    change (match l₁.appendEntries p.entries with
      | (l, .ok) => _
      | (l, err) => (l, err)).2 = _
    rcases hres : l₁.appendEntries p.entries with ⟨l₂, err⟩
    rw [hres] at hfull
    cases hfull
    rfl
  · right
    obtain ⟨part'', hload, hrows⟩ := loadRows_eq
      (l := { l₁ with log := some log', db := some part' }) p.last rfl hpart'
      (h.valid.applyEntries p.entries) (hlargest₁.symm ▸ hp.last)
    have hpush : (s.push id p).rows = (between (applyEntries s.db p.entries)
        l₁.lexigraphicallyLargestRowLoadedIntoDb p.last).toList.map
          fun e => rowAsProto e.1 e.2 := by
      rw [hlargest₁]; rfl
    have hentries : (s.push id p).entries = p.entries := rfl
    rw [hentries, happend]
    dsimp only
    rw [hpush, hload]
    refine ⟨_, rfl, ?_⟩
    exact
      { valid := h.valid.applyEntries p.entries
        log := ⟨log', rfl, .inr hends'⟩
        db := ⟨part'', rfl, hrows⟩
        largest := rfl
        sequence := hsequence₁
        id := hid₁ }

end Loading

namespace Progress

variable [Database DB] [RowDatabase DB]

omit [RowDatabase DB] in
theorem db_foldl_next (ps : List (Portion Hash)) (s : Progress DB) :
    (ps.foldl next s).db = applyEntries s.db (ps.flatMap (·.entries)) := by
  induction ps generalizing s with
  | nil => rfl
  | cons p ps ih =>
    rw [List.foldl_cons, ih, List.flatMap_cons, applyEntries, applyEntries, List.foldl_append]
    rfl

end Progress

def Core.takePush [Platform Hash] [Database DB] (c : Core Hash DB)
    (repl : ReplicateStatePush Hash) : Core Hash DB :=
  (c.handleReplicateStatePush repl).1

/-- The log of a loading replica has room for a push. -/
def Core.HasRoom [Platform Hash] [Database DB] (c : Core Hash DB)
    (repl : ReplicateStatePush Hash) : Prop :=
  (c.handleReplicateStatePush repl).2 ≠ .raftLogOutOfSpace

instance [Platform Hash] [Database DB] (c : Core Hash DB) (repl : ReplicateStatePush Hash) :
    Decidable (c.HasRoom repl) :=
  inferInstanceAs (Decidable (_ ≠ _))

/-- A replica that has not taken in anything of a replication. -/
structure Core.Joining [Database DB] (c : Core Hash DB) (id : Nat) : Prop where
  state : c.raft.state = .loading
  log : ∃ maxBytes, c.raft.loading.log = some (Log.new maxBytes)
  db : c.raft.loading.db = some Database.newDB
  largest : c.raft.loading.lexigraphicallyLargestRowLoadedIntoDb = []
  sequence : c.raft.loading.replicationSequence = 0
  id : c.raft.loading.replicationId = id

namespace Core

variable [Platform Hash] [Database DB] [RowDatabase DB] {c : Core Hash DB} {id : Nat}
  {s : Progress DB} {p : Portion Hash} {ps : List (Portion Hash)}

/-- A loading core, at a point of the replication. -/
structure Receives (id : Nat) (s : Progress DB) (c : Core Hash DB) : Prop where
  state : c.raft.state = .loading
  loading : c.raft.loading.Received id s

omit [Platform Hash] in
theorem Joining.receives (h : c.Joining id) (earlier : List (LogEntry Hash)) (logIdx : Nat) :
    c.Receives id (Progress.start earlier logIdx) := by
  obtain ⟨maxBytes, hlog⟩ := h.log
  have hvalid : RowDatabase.Valid (applyEntries (Database.newDB : DB) earlier) :=
    RowDatabase.valid_newDB.applyEntries earlier
  exact
    { state := h.state
      loading :=
        { valid := hvalid
          log := ⟨_, hlog, .inl rfl⟩
          db := ⟨_, h.db, RowDatabase.rows_newDB.trans (RowDatabase.upTo_nil hvalid).symm⟩
          largest := h.largest
          sequence := h.sequence
          id := h.id } }

theorem Receives.handle (h : c.Receives id s) (hp : s.Permits p) (hroom : c.HasRoom (s.push id p)) :
    (c.handleReplicateStatePush (s.push id p)).2 = .ok ∧
      (c.takePush (s.push id p)).Receives id (s.next p) := by
  have hhandle : c.handleReplicateStatePush (s.push id p) =
      ((c.setLoading (c.raft.loading.handleReplicateStatePush (s.push id p)).1).check
        ((c.raft.loading.handleReplicateStatePush (s.push id p)).2 ≠ .checkFailed),
      (c.raft.loading.handleReplicateStatePush (s.push id p)).2) := by
    rw [handleReplicateStatePush, if_neg (not_not.mpr h.state)]
  rcases h.loading.handle hp with hfull | ⟨l, hl, hnext⟩
  · rw [HasRoom, hhandle] at hroom
    exact absurd hfull hroom
  · rw [takePush, hhandle, hl]
    exact ⟨rfl, h.state, hnext⟩

theorem Receives.pushes_ok (h : c.Receives id s)
    (hps : Along Progress.next Progress.Permits s ps)
    (hroom : Along takePush HasRoom c (s.pushes id ps)) :
    Along takePush (fun c repl => (c.handleReplicateStatePush repl).2 = .ok) c (s.pushes id ps) := by
  induction ps generalizing c s with
  | nil => trivial
  | cons p ps ih =>
    obtain ⟨hok, hnext⟩ := h.handle hps.1 hroom.1
    exact ⟨hok, ih hnext hps.2 hroom.2⟩

theorem Receives.pushes (h : c.Receives id s) (hps : Along Progress.next Progress.Permits s ps)
    (hroom : Along takePush HasRoom c (s.pushes id ps)) :
    ((s.pushes id ps).foldl takePush c).Receives id (ps.foldl Progress.next s) := by
  induction ps generalizing c s with
  | nil => exact h
  | cons p ps ih => exact ih (h.handle hps.1 hroom.1).2 hps.2 hroom.2

end Core

/-- Whatever the pushes are into which a replication is cut, each is taken in, and after it the
    replica that joins has the sender's database up to the largest key it was sent. -/
def ReceivesReplication (Hash DB : Type) [Platform Hash] [Database DB] [RowDatabase DB] : Prop :=
  ∀ (c : Core Hash DB) (id : Nat) (s : Progress DB) (earlier : List (LogEntry Hash)) (logIdx : Nat)
    (ps : List (Portion Hash)) (p : Portion Hash),
    c.Joining id → s = Progress.start earlier logIdx →
    Along Progress.next Progress.Permits s (ps ++ [p]) →
    Along Core.takePush Core.HasRoom c (s.pushes id (ps ++ [p])) →
    Along Core.takePush (fun c repl => (c.handleReplicateStatePush repl).2 = .ok) c
        (s.pushes id (ps ++ [p])) ∧
      let c' := (s.pushes id (ps ++ [p])).foldl Core.takePush c
      let db := applyEntries Database.newDB (earlier ++ (ps ++ [p]).flatMap (·.entries))
      (∃ part, c'.raft.loading.db = some part ∧ RowDatabase.rows part =
        RowDatabase.upTo db c'.raft.loading.lexigraphicallyLargestRowLoadedIntoDb) ∧
      c'.raft.loading.lexigraphicallyLargestRowLoadedIntoDb = p.last ∧
      (p.dbToEnd → c'.raft.loading.db = some db)

theorem receivesReplication [Platform Hash] [Database DB] [RowDatabase DB] :
    ReceivesReplication Hash DB := by
  rintro c id s earlier logIdx ps p hjoining rfl hps hroom
  have hstart := hjoining.receives earlier logIdx
  have hend := hstart.pushes hps hroom
  have hdb : ((ps ++ [p]).foldl Progress.next (Progress.start earlier logIdx : Progress DB)).db =
      applyEntries Database.newDB (earlier ++ (ps ++ [p]).flatMap (·.entries)) := by
    rw [Progress.db_foldl_next, Progress.start, applyEntries, applyEntries, applyEntries,
      List.foldl_append]
  have hlast :
      ((ps ++ [p]).foldl Progress.next (Progress.start earlier logIdx : Progress DB)).largest =
        p.last := by
    rw [List.foldl_append]
    rfl
  obtain ⟨part, hpart, hrows⟩ := hend.loading.db
  rw [hdb, ← hend.loading.largest] at hrows
  refine ⟨hstart.pushes_ok hps hroom, ⟨part, hpart, hrows⟩, hend.loading.largest.trans hlast, ?_⟩
  intro htoEnd
  have hall : ∀ k ∈ RowDatabase.rows
      (applyEntries (Database.newDB : DB) (earlier ++ (ps ++ [p]).flatMap (·.entries))),
        k ≤ p.last := by
    rw [← hdb, List.foldl_append]
    exact (Along.append_iff.mp hps).2.1.dbToEnd htoEnd
  rw [hpart, ← RowDatabase.rows_injective
    ((hrows.trans (by rw [hend.loading.largest, hlast])).trans (RowDatabase.upTo_of_forall_le hall))]

theorem replication_received [Platform Hash] [Ristretto] [Wire DB2.Log2] [Wire DB2.DB2RowState]
    [Wire DB3.Log3] [Wire DB3.DB3RowState] :
    ReceivesReplication Hash DB2 ∧ ReceivesReplication Hash DB3 :=
  ⟨receivesReplication, receivesReplication⟩

namespace Sample

def loadingCore : Core IdealHash DB2 :=
  { core 2 with raft :=
    { state := .loading
      loading :=
        { log := some (Log.new (2 ^ 20))
          db := some Database.newDB
          replicationId := 7 } } }

def backupEntry (key : Byte) : LogEntry IdealHash where
  inner := .data ((@Database.wireLog DB2 _).serialize
    { backupId := List.replicate 16 key
      req := .backup (List.replicate 16 1) (List.replicate 32 2) 3 })
  term := 1
  hashChain := some Platform.zeroHash

/-- Two pushes: a backup with its row, then one with a smaller key and one with a larger, of which
    only the latter has still to come as a row. -/
def portions : List (Portion IdealHash) :=
  [{ entries := [backupEntry 5]
     last := List.replicate 16 5
     dbToEnd := false
     committedMembership := [{ peerId := some 1, voting := true }] }]

def lastPortion : Portion IdealHash where
  entries := [backupEntry 4, backupEntry 6]
  last := List.replicate 16 6
  dbToEnd := true
  committedMembership := [{ peerId := some 1, voting := true }]

theorem backupEntry_committed (key : Byte) : CommittedEntry DB2 (backupEntry key) where
  term := Nat.one_ne_zero
  hashChain := Option.some_ne_none _
  size := Nat.le_of_ble_eq_true rfl
  data := by
    rintro d hd
    cases hd
    refine ⟨?_, _, (@Database.wireLog DB2 _).parse_serialize _, rfl⟩
    exact DB2.Log2.serialize_ne_nil _

def progress : Progress DB2 := Progress.start [backupEntry 3] 2

theorem permits_portions :
    Along Progress.next Progress.Permits progress (portions ++ [lastPortion]) := by
  refine ⟨⟨?_, ?_, ?_, ?_⟩, ⟨?_, ?_, ?_, ?_⟩, trivial⟩
  · exact List.forall_mem_singleton.mpr (backupEntry_committed 5)
  · exact .inr (by decide +kernel)
  · exact fun h => absurd h Bool.false_ne_true
  · exact ⟨_, rfl⟩
  · exact List.forall_mem_cons.mpr
      ⟨backupEntry_committed 4, List.forall_mem_singleton.mpr (backupEntry_committed 6)⟩
  · exact .inr (by decide +kernel)
  · intro _ k hk
    have hkeys : ∀ k ∈ (RowDatabase.rows (applyEntries progress.db
        [backupEntry 5, backupEntry 4, backupEntry 6])).keys, k ≤ lastPortion.last := by
      decide +kernel
    exact hkeys k (OrdMap.mem_keys.mpr hk)
  · exact ⟨_, rfl⟩

/-- The replica that joins ends with the sender's four rows. -/
theorem replication_received_two_pushes :
    ((progress.pushes 7 (portions ++ [lastPortion])).foldl Core.takePush
        loadingCore).raft.loading.db =
      some (applyEntries Database.newDB
        [backupEntry 3, backupEntry 5, backupEntry 4, backupEntry 6]) := by
  have := DB3.sampleRistretto
  refine (replication_received.1 loadingCore 7 progress [backupEntry 3] 2 portions lastPortion
    ⟨rfl, ⟨_, rfl⟩, rfl, rfl, rfl, rfl⟩ rfl permits_portions ?_).2.2.2 rfl
  exact ⟨by decide +kernel, by decide +kernel, trivial⟩

end Sample

end SVR2
