import SVR2.DB.Database

/-!
# Database version 3

`db/db3.cc`: every backup id has at most one row with a private key and the number of evaluations
that are left.  The database evaluates blinded elements under the key and never shows it.
-/

namespace SVR2

open Lib

/-- `crypto_scalarmult_ristretto255`: the product of a scalar and an element, if there is one. -/
class Ristretto where
  scalarmult : Bytes → Bytes → Option Bytes

namespace DB3

def BACKUP_ID_SIZE : Nat := 16
def SCALAR_SIZE : Nat := 32
def ELEMENT_SIZE : Nat := 32
def MAX_ALLOWED_MAX_TRIES : Nat := 255
def MIN_ALLOWED_MAX_TRIES : Nat := 1

/-- The `oneof inner` of a `client::Request3`. -/
inductive Request where
  | create (maxTries : Nat) (blindedElement : Bytes)
  | evaluate (blindedElement : Bytes)
  | remove
  | query
  | notSet
deriving DecidableEq

structure Log3 where
  backupId : Bytes
  req : Request
  createPrivkey : Bytes
deriving DecidableEq

inductive CreateStatus where
  | ok
  | invalidRequest
  | error
deriving DecidableEq

inductive EvaluateStatus where
  | ok
  | missing
  | invalidRequest
  | error
deriving DecidableEq

inductive QueryStatus where
  | ok
  | missing
deriving DecidableEq

/-- The `oneof inner` of a `client::Response3`. -/
inductive Response where
  | create (status : CreateStatus) (evaluatedElement : Bytes)
  | evaluate (status : EvaluateStatus) (evaluatedElement : Bytes) (triesRemaining : Nat)
  | remove
  | query (status : QueryStatus) (triesRemaining : Nat)
  | notSet
deriving DecidableEq

/-- `DB3::Row`.  The Merkle leaf is left out. -/
structure Row where
  priv : Bytes
  tries : UInt8
deriving DecidableEq

structure DB3RowState where
  backupId : Bytes
  priv : Bytes
  tries : Nat
deriving DecidableEq

/-- `LogPBFromRequest`, with the key that `NewKey` draws for a `Create`. -/
def logPBFromRequest (request : Request) (authenticatedId newKey : Bytes) : Except Error Log3 :=
  if authenticatedId.length ≠ BACKUP_ID_SIZE then .error .db3BackupIDSize
  else .ok
    { backupId := authenticatedId
      req := request
      createPrivkey := match request with
        | .create _ _ => newKey
        | _ => [] }

def validateClientLog (log : Log3) : Error :=
  if log.backupId.length ≠ BACKUP_ID_SIZE then .db3BackupIDSize
  else match log.req with
    | .create maxTries blindedElement =>
      if maxTries < 1 ∨ 255 < maxTries then .db3MaxTriesOutOfRange
      else if blindedElement.length ≠ ELEMENT_SIZE then .db3BlindedElementSize
      else if log.createPrivkey.length ≠ SCALAR_SIZE then .db3LogPrivateKeyInvalid
      else .ok
    | .evaluate blindedElement =>
      if blindedElement.length ≠ ELEMENT_SIZE then .db3BlindedElementSize else .ok
    | .remove => .ok
    | .query => .ok
    | .notSet => .db3ToplevelRequestType

def maxRowSerializedSize : Nat := BACKUP_ID_SIZE + 2 + SCALAR_SIZE + 2 + 2

end DB3

structure DB3 where
  rows : OrdMap Bytes DB3.Row
deriving DecidableEq

namespace DB3

def newDB : DB3 := ⟨∅⟩

section Operations

variable [Ristretto]

def blindEvaluate (key blindedElement : Bytes) : Option Bytes :=
  Ristretto.scalarmult key blindedElement

def create (db : DB3) (id privkey : Bytes) (maxTries : Nat) (blindedElement : Bytes) :
    DB3 × Response :=
  match stringToByteArray ELEMENT_SIZE blindedElement with
  | .error _ => (db, .create .invalidRequest [])
  | .ok elt =>
    match stringToByteArray SCALAR_SIZE privkey with
    | .error _ => (db, .create .error [])
    | .ok priv =>
      match blindEvaluate priv elt with
      | none => (db, .create .error [])
      | some evaluated =>
        (⟨db.rows.insert id { priv := priv, tries := UInt8.ofNat maxTries }⟩, .create .ok evaluated)

/-- `Evaluate`; `verifies` tells whether the row's Merkle leaf verifies. -/
def evaluate (db : DB3) (verifies : Bool) (id blindedElement : Bytes) : DB3 × Response :=
  match stringToByteArray ELEMENT_SIZE blindedElement with
  | .error _ => (db, .evaluate .invalidRequest [] 0)
  | .ok elt =>
    match db.rows.find? id with
    | none => (db, .evaluate .missing [] 0)
    | some row =>
      if verifies = false then (db, .evaluate .error [] 0)
      else match blindEvaluate row.priv elt with
        | none => (db, .evaluate .error [] 0)
        | some evaluated =>
          let row := { row with tries := row.tries - 1 }
          let rows := if row.tries = 0 then db.rows.erase id else db.rows.insert id row
          (⟨rows⟩, .evaluate .ok evaluated row.tries.toNat)

def remove (db : DB3) (id : Bytes) : DB3 × Response := (⟨db.rows.erase id⟩, .remove)

def query (db : DB3) (id : Bytes) : Response :=
  match db.rows.find? id with
  | none => .query .missing 0
  | some row => .query .ok row.tries.toNat

def run (db : DB3) (verifies : Bool) (log : Log3) : DB3 × Response :=
  match log.req with
  | .create maxTries blindedElement => db.create log.backupId log.createPrivkey maxTries blindedElement
  | .evaluate blindedElement => db.evaluate verifies log.backupId blindedElement
  | .remove => db.remove log.backupId
  | .query => (db, db.query log.backupId)
  | .notSet => (db, .notSet)

end Operations

section Rows

variable [Wire DB3RowState]

def rowAsProto (id : Bytes) (row : Row) : DB3RowState :=
  { backupId := id, priv := row.priv, tries := row.tries.toNat }

def rowsAsProtos (db : DB3) (exclusiveStart : Bytes) (size : Nat) :
    Except Error (List Bytes × Bytes) :=
  match stringToByteArray BACKUP_ID_SIZE exclusiveStart with
  | .error err => .error err
  | .ok id =>
    let rest := if exclusiveStart = [] then db.rows.toList
      else db.rows.toList.filter fun r => id < r.1
    let rows := rest.take size
    .ok (rows.map fun r => Wire.serialize (rowAsProto r.1 r.2), (rows.getLast?.map (·.1)).getD [])

/-- One turn of the loop of `LoadRowsFromProtos`; also returns the row's `backup_id`. -/
def loadRow (db : DB3) (bytes : Bytes) : Except Error (DB3 × Bytes) :=
  match Wire.parse bytes with
  | none => .error .db3ReplicationInvalidRow
  | some (row : DB3RowState) =>
    if MAX_ALLOWED_MAX_TRIES < row.tries ∨ row.tries < MIN_ALLOWED_MAX_TRIES then
      .error .db3ReplicationInvalidRow
    else match stringToByteArray BACKUP_ID_SIZE row.backupId with
      | .error err => .error err
      | .ok key =>
        if db.rows.toList.getLast?.any fun r => key ≤ r.1 then .error .db3ReplicationOutOfOrder
        else match stringToByteArray SCALAR_SIZE row.priv with
          | .error err => .error err
          | .ok priv =>
            .ok (⟨db.rows.insert key { priv := priv, tries := UInt8.ofNat row.tries }⟩, row.backupId)

/-- The loop of `LoadRowsFromProtos`, with the `backup_id` of the row loaded before. -/
def loadRows : DB3 → Bytes → List Bytes → DB3 × Bytes × Error
  | db, last, [] => (db, last, .ok)
  | db, _, bytes :: rest =>
    match db.loadRow bytes with
    | .error err => (db, [], err)
    | .ok (db, key) => loadRows db key rest

def loadRowsFromProtos (db : DB3) (rows : List Bytes) : DB3 × Bytes × Error :=
  match db.loadRows [] rows with
  | (db', last, .ok) =>
    if db'.rows.size ≠ db.rows.size + rows.length then (db', [], .db3LoadedRowsAlreadyInDB)
    else (db', last, .ok)
  | failed => failed

instance [Ristretto] [wire : Wire Log3] : Database DB3 where
  Request := Request
  ClientLog := Log3
  Response := Response
  newDB := newDB
  wireLog := wire
  logPBFromRequest := logPBFromRequest
  logKey log := log.backupId
  validateClientLog := validateClientLog
  maxRowSerializedSize := maxRowSerializedSize
  run db log := db.run true log
  rowsAsProtos := rowsAsProtos
  loadRowsFromProtos := loadRowsFromProtos

end Rows

end DB3

end SVR2
