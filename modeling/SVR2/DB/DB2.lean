import SVR2.DB.Database

/-!
# Database version 2

`db/db2.cc`: every backup id has at most one row with a secret, a PIN and the number of tries that
are left.  A backup can be restored only after its owner has exposed it.
-/

namespace SVR2

open Lib

namespace DB2

def BACKUP_ID_SIZE : Nat := 16
def MIN_DATA_SIZE : Nat := 16
def MAX_DATA_SIZE : Nat := 48
def PIN_SIZE : Nat := 32
def MAX_ALLOWED_MAX_TRIES : Nat := 255
def MIN_ALLOWED_MAX_TRIES : Nat := 1

inductive Request where
  | backup (data pin : Bytes) (maxTries : Nat)
  | restore (pin : Bytes)
  | expose (data : Bytes)
  | delete
  | tries
  | notSet
deriving DecidableEq

structure Log2 where
  backupId : Bytes
  req : Request
deriving DecidableEq

inductive RestoreStatus where
  | ok
  | missing
  | pinMismatch
  | error
deriving DecidableEq

inductive ExposeStatus where
  | ok
  | error
deriving DecidableEq

inductive TriesStatus where
  | ok
  | missing
deriving DecidableEq

inductive Response where
  | backup
  | restore (status : RestoreStatus) (data : Bytes) (tries : Nat)
  | delete
  | expose (status : ExposeStatus)
  | tries (status : TriesStatus) (tries : Nat) (exposed : Bool)
  | notSet
deriving DecidableEq

/-- `e2e::DB2RowState::State`.  A protobuf enumeration may also hold a number without a name, here
    as the `uint32_t` of the same bits. -/
inductive RowState where
  | uninitiated
  | populated
  | available
  | unknown (n : { n : Nat // 3 ≤ n ∧ n < 2 ^ 32 })
deriving DecidableEq

def RowState.number : RowState → Nat
  | .uninitiated => 0
  | .populated => 1
  | .available => 2
  | .unknown n => n.val

def RowState.ofNumber (n : Nat) : RowState :=
  if h : 3 ≤ n % 2 ^ 32 then .unknown ⟨n % 2 ^ 32, h, Nat.mod_lt n (by decide)⟩
  else match n % 2 ^ 32 with
    | 0 => .uninitiated
    | 1 => .populated
    | _ => .available

theorem RowState.number_lt (state : RowState) : state.number < 2 ^ 32 := by
  cases state with
  | unknown n => exact n.property.2
  | _ => decide

theorem RowState.ofNumber_number (state : RowState) : ofNumber state.number = state := by
  cases state with
  | unknown n =>
    have hmod : n.val % 2 ^ 32 = n.val := Nat.mod_eq_of_lt n.property.2
    simp only [number, ofNumber, hmod]
    exact dif_pos n.property.1
  | _ => rfl

theorem RowState.number_injective : Function.Injective RowState.number :=
  Function.LeftInverse.injective ofNumber_number

/-- `DB2::Row`: `data` holds the `data_size` bytes that are used of the array.  The Merkle leaf is
    left out. -/
structure Row where
  state : RowState
  tries : UInt8
  data : Bytes
  pin : Bytes
deriving DecidableEq

structure DB2RowState where
  backupId : Bytes
  tries : Nat
  data : Bytes
  pin : Bytes
  state : RowState
deriving DecidableEq

def logPBFromRequest (request : Request) (authenticatedId : Bytes) : Except Error Log2 :=
  if authenticatedId.length ≠ BACKUP_ID_SIZE then .error .db2ClientBackupIDSize
  else .ok { backupId := authenticatedId, req := request }

def validateClientLog (log : Log2) : Error :=
  if log.backupId.length ≠ BACKUP_ID_SIZE then .db2ClientBackupIDSize
  else match log.req with
    | .backup data pin maxTries =>
      if pin.length ≠ PIN_SIZE then .db2ClientPinSize
      else if MAX_DATA_SIZE < data.length then .db2ClientDataSize
      else if data.length < MIN_DATA_SIZE then .db2ClientDataSize
      else if MAX_ALLOWED_MAX_TRIES < maxTries then .db2ClientTriesTooHigh
      else if maxTries < MIN_ALLOWED_MAX_TRIES then .db2ClientTriesZero
      else .ok
    | .restore pin => if pin.length ≠ PIN_SIZE then .db2ClientPinSize else .ok
    | .expose data =>
      if MAX_DATA_SIZE < data.length then .db2ClientDataSize
      else if data.length < MIN_DATA_SIZE then .db2ClientDataSize
      else .ok
    | .tries => .ok
    | .delete => .ok
    | .notSet => .db2ClientRequestCase

def maxRowSerializedSize : Nat :=
  BACKUP_ID_SIZE + 2 + MAX_DATA_SIZE + 2 + PIN_SIZE + 2 + 3

end DB2

structure DB2 where
  rows : OrdMap Bytes DB2.Row
deriving DecidableEq

namespace DB2

def newDB : DB2 := ⟨∅⟩

def backup (db : DB2) (id data pin : Bytes) (maxTries : Nat) : DB2 × Response :=
  (⟨db.rows.insert id
    { state := .populated, tries := UInt8.ofNat maxTries, data := data, pin := pin }⟩, .backup)

/-- `Restore`; `verifies` tells whether the row's Merkle leaf verifies. -/
def restore (db : DB2) (verifies : Bool) (id pin : Bytes) : DB2 × Response :=
  match db.rows.find? id with
  | none => (db, .restore .missing [] 0)
  | some row =>
    if row.state ≠ .available then (db, .restore .missing [] 0)
    else if verifies = false then (db, .restore .error [] 0)
    else if pin = row.pin then (db, .restore .ok row.data row.tries.toNat)
    else
      let row := { row with tries := row.tries - 1 }
      if row.tries = 0 then (⟨db.rows.erase id⟩, .restore .missing [] 0)
      else (⟨db.rows.insert id row⟩, .restore .pinMismatch [] row.tries.toNat)

def delete (db : DB2) (id : Bytes) : DB2 × Response := (⟨db.rows.erase id⟩, .delete)

def expose (db : DB2) (verifies : Bool) (id data : Bytes) : DB2 × Response :=
  match db.rows.find? id with
  | none => (db, .expose .error)
  | some row =>
    if verifies = false then (db, .expose .error)
    else if ¬row.data <+: data then (db, .expose .error)
    else if row.state = .populated ∨ row.state = .available then
      (⟨db.rows.insert id { row with state := .available }⟩, .expose .ok)
    else (db, .expose .error)

def triesLeft (db : DB2) (id : Bytes) : Response :=
  match db.rows.find? id with
  | none => .tries .missing 0 false
  | some row => .tries .ok row.tries.toNat (row.state = .available)

/-- `Run`, on a log that both callers have validated. -/
def run (db : DB2) (verifies : Bool) (log : Log2) : DB2 × Response :=
  match log.req with
  | .backup data pin maxTries => db.backup log.backupId data pin maxTries
  | .restore pin => db.restore verifies log.backupId pin
  | .delete => db.delete log.backupId
  | .expose data => db.expose verifies log.backupId data
  | .tries => (db, db.triesLeft log.backupId)
  | .notSet => (db, .notSet)

variable [Wire DB2RowState]

def rowAsProto (id : Bytes) (row : Row) : DB2RowState :=
  { backupId := id, tries := row.tries.toNat, data := row.data, pin := row.pin, state := row.state }

def rowsAsProtos (db : DB2) (exclusiveStart : Bytes) (size : Nat) :
    Except Error (List Bytes × Bytes) :=
  if exclusiveStart ≠ [] ∧ exclusiveStart.length ≠ BACKUP_ID_SIZE then .error .db2BackupIDSize
  else
    let rest := if exclusiveStart = [] then db.rows.toList
      else db.rows.toList.filter fun r => exclusiveStart < r.1
    let rows := rest.take size
    .ok (rows.map fun r => Wire.serialize (rowAsProto r.1 r.2), (rows.getLast?.map (·.1)).getD [])

/-- One turn of the loop of `LoadRowsFromProtos`; also returns the key of the row. -/
def loadRow (db : DB2) (bytes : Bytes) : Except Error (DB2 × Bytes) :=
  match Wire.parse bytes with
  | none => .error .db2ReplicationInvalidRow
  | some (row : DB2RowState) =>
    if MAX_ALLOWED_MAX_TRIES < row.tries ∨ row.pin.length ≠ PIN_SIZE ∨
        row.data.length < MIN_DATA_SIZE ∨ MAX_DATA_SIZE < row.data.length then
      .error .db2ReplicationInvalidRow
    else if row.backupId.length ≠ BACKUP_ID_SIZE then .error .db2BackupIDSize
    else if db.rows.toList.getLast?.any fun r => row.backupId ≤ r.1 then
      .error .db2ReplicationOutOfOrder
    else .ok (⟨db.rows.insert row.backupId
      { state := row.state, tries := UInt8.ofNat row.tries, data := row.data, pin := row.pin }⟩,
        row.backupId)

/-- The loop of `LoadRowsFromProtos`, with the key of the row loaded before. -/
def loadRows : DB2 → Bytes → List Bytes → DB2 × Bytes × Error
  | db, last, [] => (db, last, .ok)
  | db, _, bytes :: rest =>
    match db.loadRow bytes with
    | .error err => (db, [], err)
    | .ok (db, key) => loadRows db key rest

/-- `LoadRowsFromProtos`, which checks that there are rows; version 3 does not. -/
def loadRowsFromProtos (db : DB2) (rows : List Bytes) : DB2 × Bytes × Error :=
  if rows = [] then (db, [], .checkFailed)
  else match db.loadRows [] rows with
    | (db', last, .ok) =>
      if db'.rows.size ≠ db.rows.size + rows.length then (db', [], .db2LoadedRowsAlreadyInDB)
      else (db', last, .ok)
    | failed => failed

instance [wire : Wire Log2] : Database DB2 where
  Request := Request
  ClientLog := Log2
  Response := Response
  newDB := newDB
  wireLog := wire
  logPBFromRequest request id _ := logPBFromRequest request id
  logKey log := log.backupId
  validateClientLog := validateClientLog
  maxRowSerializedSize := maxRowSerializedSize
  run db log := db.run true log
  rowsAsProtos := rowsAsProtos
  loadRowsFromProtos := loadRowsFromProtos

end DB2

end SVR2
