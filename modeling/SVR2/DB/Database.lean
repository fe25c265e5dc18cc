import SVR2.Lib.OrdMap
import SVR2.Basic

/-!
# What the core uses of a database

`db/db.h`: the interface behind which the core keeps the two database versions.  The core runs
the client logs of committed entries, and moves rows to a replica that joins.
-/

namespace SVR2

/-- A type of protobuf messages: parsing gives back what was serialised. -/
class Wire (α : Type) where
  serialize : α → Bytes
  parse : Bytes → Option α
  parse_serialize : ∀ a, parse (serialize a) = some a

structure RawMessage where
  bytes : Bytes
deriving DecidableEq

instance : Wire RawMessage where
  serialize m := m.bytes
  parse bytes := some ⟨bytes⟩
  parse_serialize _ := rfl

/-- `db::DB` with its `Protocol`, for a process whose memory nobody tampers with, so that every
    Merkle leaf of a row verifies. -/
class Database (DB : Type) where
  Request : Type
  ClientLog : Type
  Response : Type
  /-- `NewDB`. -/
  newDB : DB
  /-- `ParseFromString` and `SerializeToString` of a client log. -/
  wireLog : Wire ClientLog
  /-- `LogPBFromRequest`, with the key that `NewKey` draws. -/
  logPBFromRequest : Request → Bytes → Bytes → Except Error ClientLog
  logKey : ClientLog → Bytes
  validateClientLog : ClientLog → Error
  maxRowSerializedSize : Nat
  run : DB → ClientLog → DB × Response
  /-- `RowsAsProtos`: at most the given number of rows after a key, and the key of the last. -/
  rowsAsProtos : DB → Bytes → Nat → Except Error (List Bytes × Bytes)
  /-- `LoadRowsFromProtos`.  Rows before a faulty one stay loaded. -/
  loadRowsFromProtos : DB → List Bytes → DB × Bytes × Error

end SVR2
