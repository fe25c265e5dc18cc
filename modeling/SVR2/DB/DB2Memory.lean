import SVR2.DB.Hash
import SVR2.DB.RowBounds

/-!
# Rows of version 2 in memory

`DB2::Row` keeps the data of a backup in an array of the largest size, with the number of bytes that
are in use.  What an earlier and longer backup has left in the array must not be seen by anyone.
Here the operations work on the arrays, and what they do to the bytes in use is what `DB2` does.
-/

namespace SVR2

open Lib

namespace DB2

/-- `std::copy` of a string to the start of an array that is not shorter. -/
def copyInto (array s : Bytes) : Bytes := s ++ array.drop s.length

/-- `DB2::Row`, without the Merkle leaf. -/
structure MemoryRow where
  state : RowState := .uninitiated
  tries : UInt8 := 0
  dataSize : UInt8 := 0
  data : Bytes := .replicate MAX_DATA_SIZE 0
  pin : Bytes := .replicate PIN_SIZE 0
deriving DecidableEq

def MemoryRow.clear (row : MemoryRow) (s : RowState) : MemoryRow where
  data := .replicate row.data.length 0
  pin := .replicate row.pin.length 0
  tries := 0
  dataSize := 0
  state := s

def MemoryRow.used (row : MemoryRow) : Row where
  state := row.state
  tries := row.tries
  data := row.data.take row.dataSize.toNat
  pin := row.pin

structure MemoryRow.Fits (row : MemoryRow) : Prop where
  data : row.data.length = MAX_DATA_SIZE
  pin : row.pin.length = PIN_SIZE
  dataSize : row.dataSize.toNat ≤ MAX_DATA_SIZE

end DB2

structure MemoryDB2 where
  rows : OrdMap Bytes DB2.MemoryRow
deriving DecidableEq

namespace MemoryDB2

open DB2

def newDB : MemoryDB2 := ⟨∅⟩

/-- `Backup`: a new row, or an old one that is cleared. -/
def backup (db : MemoryDB2) (id data pin : Bytes) (maxTries : Nat) : MemoryDB2 × Response :=
  let row := ((db.rows.find? id).getD {}).clear .populated
  (⟨db.rows.insert id
    { row with
      data := copyInto row.data data
      dataSize := UInt8.ofNat data.length
      tries := UInt8.ofNat maxTries
      pin := copyInto row.pin pin }⟩, .backup)

def restore (db : MemoryDB2) (verifies : Bool) (id pin : Bytes) : MemoryDB2 × Response :=
  match db.rows.find? id with
  | none => (db, .restore .missing [] 0)
  | some row =>
    if row.state ≠ .available then (db, .restore .missing [] 0)
    else if verifies = false then (db, .restore .error [] 0)
    else if pin = row.pin then
      (db, .restore .ok (row.data.take row.dataSize.toNat) row.tries.toNat)
    else
      let row := { row with tries := row.tries - 1 }
      if row.tries = 0 then (⟨db.rows.erase id⟩, .restore .missing [] 0)
      else (⟨db.rows.insert id row⟩, .restore .pinMismatch [] row.tries.toNat)

def delete (db : MemoryDB2) (id : Bytes) : MemoryDB2 × Response := (⟨db.rows.erase id⟩, .delete)

/-- `ConstantTimeEqualsPrefix`. -/
def equalsPrefix (a b : Bytes) (prefixSize : Nat) : Bool :=
  if a.length < prefixSize ∨ b.length < prefixSize then false
  else a.take prefixSize = b.take prefixSize

def expose (db : MemoryDB2) (verifies : Bool) (id data : Bytes) : MemoryDB2 × Response :=
  match db.rows.find? id with
  | none => (db, .expose .error)
  | some row =>
    if verifies = false then (db, .expose .error)
    else if ¬equalsPrefix row.data data row.dataSize.toNat then (db, .expose .error)
    else if row.state = .populated ∨ row.state = .available then
      (⟨db.rows.insert id { row with state := .available }⟩, .expose .ok)
    else (db, .expose .error)

def triesLeft (db : MemoryDB2) (id : Bytes) : Response :=
  match db.rows.find? id with
  | none => .tries .missing 0 false
  | some row => .tries .ok row.tries.toNat (row.state = .available)

def run (db : MemoryDB2) (verifies : Bool) (log : Log2) : MemoryDB2 × Response :=
  match log.req with
  | .backup data pin maxTries => db.backup log.backupId data pin maxTries
  | .restore pin => db.restore verifies log.backupId pin
  | .delete => db.delete log.backupId
  | .expose data => db.expose verifies log.backupId data
  | .tries => (db, db.triesLeft log.backupId)
  | .notSet => (db, .notSet)

/-- The bytes that `HashRow` gathers: of the data, those in use. -/
def scratch (id : Bytes) (row : MemoryRow) : Bytes :=
  id ++ bigEndian32Bytes row.state.number ++ bigEndian32Bytes row.tries.toNat ++
    bigEndian32Bytes row.dataSize.toNat ++
    copyInto (.replicate MAX_DATA_SIZE 0) (row.data.take row.dataSize.toNat) ++ row.pin

def hash [Digests] (db : MemoryDB2) : Bytes :=
  Digests.sha256 (hashInput (fun id row => Digests.hash16 (scratch id row)) db.rows)

section Load

variable [Wire DB2RowState]

/-- One turn of the loop of `LoadRowsFromProtos`, which starts from a row of zeros. -/
def loadRow (db : MemoryDB2) (bytes : Bytes) : Except Error (MemoryDB2 × Bytes) :=
  match Wire.parse bytes with
  | none => .error .db2ReplicationInvalidRow
  | some (row : DB2RowState) =>
    if MAX_ALLOWED_MAX_TRIES < row.tries ∨ row.pin.length ≠ PIN_SIZE ∨
        row.data.length < MIN_DATA_SIZE ∨ MAX_DATA_SIZE < row.data.length then
      .error .db2ReplicationInvalidRow
    else if row.backupId.length ≠ BACKUP_ID_SIZE then .error .db2BackupIDSize
    else if db.rows.toList.getLast?.any fun r => row.backupId ≤ r.1 then
      .error .db2ReplicationOutOfOrder
    else
      let r : MemoryRow := {}
      .ok (⟨db.rows.insert row.backupId
        { r with
          state := row.state
          pin := copyInto r.pin row.pin
          data := copyInto r.data row.data
          dataSize := UInt8.ofNat row.data.length
          tries := UInt8.ofNat row.tries }⟩, row.backupId)

def loadRowsFromProtos (db : MemoryDB2) (rows : List Bytes) : MemoryDB2 × Bytes × Error :=
  let (db', last, err) := loadAll loadRow db [] rows
  if rows = [] then (db, [], .checkFailed)
  else if err ≠ .ok then (db', last, err)
  else if db'.rows.size ≠ db.rows.size + rows.length then (db', [], .db2LoadedRowsAlreadyInDB)
  else (db', last, .ok)

end Load

/-! ### What is in use -/

def used (db : MemoryDB2) : DB2 := ⟨db.rows.mapVal fun _ row => row.used⟩

def Fits (db : MemoryDB2) : Prop := ∀ id row, db.rows.find? id = some row → row.Fits

theorem find?_used (db : MemoryDB2) (id : Bytes) :
    db.used.rows.find? id = (db.rows.find? id).map MemoryRow.used :=
  OrdMap.find?_mapVal _ _ _

theorem used_insert (db : MemoryDB2) (id : Bytes) (row : MemoryRow) :
    used ⟨db.rows.insert id row⟩ = ⟨db.used.rows.insert id row.used⟩ := by
  refine congrArg DB2.mk (OrdMap.ext_find? fun k => ?_)
  rw [OrdMap.find?_mapVal, OrdMap.find?_insert, OrdMap.find?_insert, find?_used]
  split_ifs <;> rfl

theorem used_erase (db : MemoryDB2) (id : Bytes) :
    used ⟨db.rows.erase id⟩ = ⟨db.used.rows.erase id⟩ := by
  refine congrArg DB2.mk (OrdMap.ext_find? fun k => ?_)
  rw [OrdMap.find?_mapVal, OrdMap.find?_erase, OrdMap.find?_erase, find?_used]
  split_ifs <;> rfl

theorem Fits.insert {db : MemoryDB2} (h : db.Fits) {id : Bytes} {row : MemoryRow} (hrow : row.Fits) :
    Fits ⟨db.rows.insert id row⟩ := by
  intro k r hr
  rw [OrdMap.find?_insert] at hr
  split_ifs at hr
  · obtain rfl := Option.some.inj hr
    exact hrow
  · exact h k r hr

theorem Fits.erase {db : MemoryDB2} (h : db.Fits) {id : Bytes} : Fits ⟨db.rows.erase id⟩ := by
  intro k r hr
  rw [OrdMap.find?_erase] at hr
  split_ifs at hr
  exact h k r hr

/-- The row that data and a PIN of valid sizes make of an array of zeros. -/
theorem fits_and_used (row : MemoryRow) {data pin : Bytes}
    (hdata : row.data = copyInto (.replicate MAX_DATA_SIZE 0) data)
    (hsize : row.dataSize = UInt8.ofNat data.length)
    (hpin : row.pin = copyInto (.replicate PIN_SIZE 0) pin) (hmax : data.length ≤ MAX_DATA_SIZE)
    (hpinSize : pin.length = PIN_SIZE) :
    row.Fits ∧ row.used = { state := row.state, tries := row.tries, data := data, pin := pin } := by
  have hmax48 : data.length ≤ 48 := hmax
  have hlen : row.dataSize.toNat = data.length := by
    rw [hsize]
    exact UInt8.toNat_ofNat_of_lt' (show data.length < 256 by omega)
  have hpin' : row.pin = pin := by
    rw [hpin, copyInto, hpinSize, List.drop_of_length_le List.length_replicate.le, List.append_nil]
  refine ⟨⟨?_, ?_, hlen.trans_le hmax⟩, ?_⟩
  · rw [hdata, copyInto, List.length_append, List.length_drop, List.length_replicate]
    omega
  · rw [hpin', hpinSize]
  · rw [MemoryRow.used, hlen, hpin', hdata, copyInto, List.take_left]

/-- A backup leaves nothing of what the array held before. -/
theorem backup_refines {db : MemoryDB2} (h : db.Fits) (id : Bytes) {data pin : Bytes} (maxTries : Nat)
    (hmax : data.length ≤ MAX_DATA_SIZE) (hpin : pin.length = PIN_SIZE) :
    (db.backup id data pin maxTries).1.Fits ∧
      (db.backup id data pin maxTries).1.used = (db.used.backup id data pin maxTries).1 := by
  have hold : ((db.rows.find? id).getD {}).Fits := by
    cases hrow : db.rows.find? id with
    | none => exact ⟨List.length_replicate, List.length_replicate, Nat.zero_le _⟩
    | some row => exact h id row hrow
  rw [backup, DB2.backup]
  dsimp only
  rw [used_insert]
  obtain ⟨hfits, hused⟩ := fits_and_used
    { ((db.rows.find? id).getD {}).clear .populated with
      data := copyInto (((db.rows.find? id).getD {}).clear .populated).data data
      dataSize := UInt8.ofNat data.length
      tries := UInt8.ofNat maxTries
      pin := copyInto (((db.rows.find? id).getD {}).clear .populated).pin pin }
    (by rw [MemoryRow.clear, hold.data]) rfl (by rw [MemoryRow.clear, hold.pin]) hmax hpin
  exact ⟨h.insert hfits, congrArg (fun row => DB2.mk (db.used.rows.insert id row)) hused⟩

/-- `Expose` compares the bytes in use. -/
theorem equalsPrefix_iff {row : MemoryRow} (h : row.Fits) (data : Bytes) :
    equalsPrefix row.data data row.dataSize.toNat = true ↔ row.used.data <+: data := by
  have hsize := h.dataSize
  rw [← h.data] at hsize
  have hlen : row.used.data.length = row.dataSize.toNat := List.length_take_of_le hsize
  rw [List.prefix_iff_eq_take, hlen, equalsPrefix]
  split_ifs with hshort
  · refine iff_of_false nofun fun heq => ?_
    have hle := congrArg List.length heq
    rw [hlen, List.length_take] at hle
    omega
  · exact decide_eq_true_iff

/-- Every log that has been validated does to the bytes in use what `DB2` does. -/
theorem run_refines {db : MemoryDB2} (h : db.Fits) {log : Log2} (hlog : validateClientLog log = .ok)
    (verifies : Bool) :
    (db.run verifies log).1.Fits ∧ (db.run verifies log).1.used = (db.used.run verifies log).1 ∧
      (db.run verifies log).2 = (db.used.run verifies log).2 := by
  obtain ⟨id, req⟩ := log
  cases req with
  | backup data pin maxTries =>
    simp only [validateClientLog] at hlog
    split_ifs at hlog with hid hpin hmax
    obtain ⟨hfits, hused⟩ := backup_refines h id maxTries (not_lt.mp hmax) (not_not.mp hpin)
    exact ⟨hfits, hused, rfl⟩
  | restore pin =>
    simp only [run, DB2.run, restore, DB2.restore, find?_used]
    cases hrow : db.rows.find? id with
    | none => exact ⟨h, rfl, rfl⟩
    | some row =>
      have hfits := h id row hrow
      simp only [Option.map_some, MemoryRow.used]
      split_ifs
      any_goals exact ⟨h, rfl, rfl⟩
      · exact ⟨h.erase, used_erase db id, rfl⟩
      · exact ⟨h.insert ⟨hfits.data, hfits.pin, hfits.dataSize⟩, used_insert db id _, rfl⟩
  | delete => exact ⟨h.erase, used_erase db id, rfl⟩
  | expose data =>
    simp only [run, DB2.run, expose, DB2.expose, find?_used]
    cases hrow : db.rows.find? id with
    | none => exact ⟨h, rfl, rfl⟩
    | some row =>
      have hfits := h id row hrow
      have hstate : row.used.state = row.state := rfl
      simp only [Option.map_some, equalsPrefix_iff hfits, hstate]
      by_cases hverifies : verifies = false
      · rw [if_pos hverifies, if_pos hverifies]
        exact ⟨h, rfl, rfl⟩
      rw [if_neg hverifies, if_neg hverifies]
      by_cases hmatch : row.used.data <+: data
      · rw [if_neg (not_not.mpr hmatch), if_neg (not_not.mpr hmatch)]
        split_ifs
        · exact ⟨h.insert ⟨hfits.data, hfits.pin, hfits.dataSize⟩, used_insert db id _, rfl⟩
        · exact ⟨h, rfl, rfl⟩
      · rw [if_pos hmatch, if_pos hmatch]
        exact ⟨h, rfl, rfl⟩
  | tries =>
    refine ⟨h, rfl, ?_⟩
    simp only [run, DB2.run, triesLeft, DB2.triesLeft, find?_used]
    cases db.rows.find? id <;> rfl
  | notSet => exact ⟨h, rfl, rfl⟩

/-! ### Hashes -/

theorem size_used (db : MemoryDB2) : db.used.rows.size = db.rows.size := List.length_map _

theorem scratch_used {id : Bytes} {row : MemoryRow} (h : row.Fits) :
    scratch id row = DB2.scratch id row.used := by
  have hsize := h.dataSize
  rw [← h.data] at hsize
  have hlen : (row.data.take row.dataSize.toNat).length = row.dataSize.toNat :=
    List.length_take_of_le hsize
  rw [scratch, DB2.scratch, copyInto, List.drop_replicate]
  dsimp only [MemoryRow.used]
  rw [hlen]

theorem hash_used [Digests] {db : MemoryDB2} (h : db.Fits) : db.hash = db.used.hash := by
  have hrows : db.rows.toList.flatMap (fun e => Digests.hash16 (scratch e.1 e.2)) =
      db.used.rows.toList.flatMap fun e => DB2.hashRow e.1 e.2 := by
    rw [used, OrdMap.mapVal, List.flatMap_map]
    refine List.flatMap_congr fun e he => ?_
    rw [DB2.hashRow, scratch_used (h e.1 e.2 (OrdMap.mem_toList.mp he))]
  rw [hash, DB2.hash, hashInput, hashInput, hrows, size_used]

/-! ### Loading -/

theorem getLast?_used (db : MemoryDB2) (p : Bytes → Bool) :
    (db.used.rows.toList.getLast?.any fun e => p e.1) = db.rows.toList.getLast?.any fun e => p e.1 := by
  rw [used, OrdMap.mapVal, List.getLast?_map]
  cases db.rows.toList.getLast? <;> rfl

variable [Wire DB2RowState]

theorem loadRow_refines {db : MemoryDB2} (h : db.Fits) (b : Bytes) :
    match db.loadRow b with
    | .error err => db.used.loadRow b = .error err
    | .ok (db', key) => db'.Fits ∧ db.used.loadRow b = .ok (db'.used, key) := by
  rw [loadRow, DB2.loadRow]
  cases hm : (Wire.parse b : Option DB2RowState) with
  | none => rfl
  | some m =>
    dsimp only
    rw [getLast?_used db fun k => m.backupId ≤ k]
    split_ifs with hfields hid horder
    · rfl
    · rfl
    · rfl
    · simp only [not_or, not_lt, not_not] at hfields
      obtain ⟨hfits, hused⟩ := fits_and_used
        { ({} : MemoryRow) with
          state := m.state
          pin := copyInto ({} : MemoryRow).pin m.pin
          data := copyInto ({} : MemoryRow).data m.data
          dataSize := UInt8.ofNat m.data.length
          tries := UInt8.ofNat m.tries } rfl rfl rfl hfields.2.2.2 hfields.2.1
      refine ⟨h.insert hfits, ?_⟩
      rw [used_insert, hused]

theorem loadAll_refines {db : MemoryDB2} (h : db.Fits) (start : Bytes) (rows : List Bytes) :
    (loadAll loadRow db start rows).1.Fits ∧
      loadAll DB2.loadRow db.used start rows =
        ((loadAll loadRow db start rows).1.used, (loadAll loadRow db start rows).2) := by
  induction rows generalizing db start with
  | nil => exact ⟨h, rfl⟩
  | cons b rows ih =>
    have hrow := loadRow_refines h b
    rw [loadAll, loadAll]
    cases hload : db.loadRow b with
    | error err =>
      rw [hload] at hrow
      rw [hrow]
      exact ⟨h, rfl⟩
    | ok loaded =>
      rw [hload] at hrow
      rw [hrow.2]
      exact ih hrow.1 loaded.2

theorem loadRowsFromProtos_eq (db : DB2) (rows : List Bytes) :
    db.loadRowsFromProtos rows =
      let (db', last, err) := loadAll DB2.loadRow db [] rows
      if rows = [] then (db, [], .checkFailed)
      else if err ≠ .ok then (db', last, err)
      else if db'.rows.size ≠ db.rows.size + rows.length then (db', [], .db2LoadedRowsAlreadyInDB)
      else (db', last, .ok) := by
  rw [DB2.loadRowsFromProtos, DB2.loadRows_eq]
  by_cases hrows : rows = []
  · rw [if_pos hrows]
    exact (if_pos hrows).symm
  simp only [if_neg hrows]
  split
  · rename_i heq
    rw [heq]
    rfl
  · rename_i hne
    have herr : (loadAll DB2.loadRow db [] rows).2.2 ≠ .ok :=
      fun herr => hne _ _ (Prod.ext rfl (Prod.ext rfl herr))
    exact (if_pos herr).symm

theorem loadRowsFromProtos_refines {db : MemoryDB2} (h : db.Fits) (rows : List Bytes) :
    (db.loadRowsFromProtos rows).1.Fits ∧
      db.used.loadRowsFromProtos rows =
        ((db.loadRowsFromProtos rows).1.used, (db.loadRowsFromProtos rows).2) := by
  obtain ⟨hfits, hall⟩ := loadAll_refines h [] rows
  rw [loadRowsFromProtos_eq, hall, loadRowsFromProtos]
  dsimp only
  rw [size_used, size_used]
  split_ifs
  · exact ⟨h, rfl⟩
  · exact ⟨hfits, rfl⟩
  · exact ⟨hfits, rfl⟩
  · exact ⟨hfits, rfl⟩

/-! ### Runs -/

def call (db : MemoryDB2) : RowCall Op → MemoryDB2
  | .run op => (db.run op.verifies op.log).1
  | .load rows => (db.loadRowsFromProtos rows).1

/-- A call that succeeds: a valid log, or rows that `LoadRowsFromProtos` accepts. -/
def Succeeds (db : MemoryDB2) : RowCall Op → Prop
  | .run op => op.Valid
  | .load rows => (db.loadRowsFromProtos rows).2.2 = .ok

instance (db : MemoryDB2) : ∀ c, Decidable (db.Succeeds c)
  | .run op => inferInstanceAs (Decidable op.Valid)
  | .load rows => inferInstanceAs (Decidable ((db.loadRowsFromProtos rows).2.2 = .ok))

/-- In every run the bytes in use are those of `DB2`. -/
theorem used_after {calls : List (RowCall Op)} (h : Along call Succeeds newDB calls) :
    Along DB2.call DB2.Succeeds DB2.newDB calls ∧ (calls.foldl call newDB).Fits ∧
      (calls.foldl call newDB).used = calls.foldl DB2.call DB2.newDB := by
  refine h.simulates (R := fun m db => m.Fits ∧ m.used = db) ?_ ⟨fun _ _ h => (by cases h), rfl⟩
  rintro m db (op | rows) ⟨hfits, rfl⟩ hc
  · obtain ⟨hfits', hused, -⟩ := run_refines hfits (show validateClientLog op.log = .ok from hc) op.verifies
    exact ⟨hc, hfits', hused⟩
  · obtain ⟨hfits', hload⟩ := loadRowsFromProtos_refines hfits rows
    refine ⟨?_, hfits', ?_⟩
    · rw [DB2.Succeeds, hload]
      exact hc
    · rw [DB2.call, hload]
      rfl

end MemoryDB2

end SVR2
