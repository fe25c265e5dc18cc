import SVR2.DB.Rows
import SVR2.Util.Endian

/-!
# The hash of a database

`HashRow` and `Hash` of the two versions.  A row is hashed for its Merkle leaf, and all rows in the
order of their keys for the hash by which replicas compare their databases.
-/

namespace SVR2

open Lib

/-- `sip::FullZero.Hash16`, and SHA-256. -/
class Digests where
  hash16 : Bytes → Bytes
  sha256 : Bytes → Bytes

/-- What SHA-256 gets of a database: the number of its rows, and the hash of each in order. -/
def hashInput {Row : Type} (hashRow : Bytes → Row → Bytes) (rows : OrdMap Bytes Row) : Bytes :=
  bigEndian64Bytes rows.size ++ rows.toList.flatMap fun e => hashRow e.1 e.2

namespace DB2

/-- The bytes that `HashRow` gathers.  The data is followed by zeros up to its largest size. -/
def scratch (id : Bytes) (row : Row) : Bytes :=
  id ++ bigEndian32Bytes row.state.number ++ bigEndian32Bytes row.tries.toNat ++
    bigEndian32Bytes row.data.length ++
    (row.data ++ List.replicate (MAX_DATA_SIZE - row.data.length) 0) ++ row.pin

end DB2

/-- The bytes that `HashRow` gathers. -/
def DB3.scratch (id : Bytes) (row : Row) : Bytes :=
  id ++ bigEndian32Bytes row.tries.toNat ++ row.priv

section

variable [Digests]

namespace DB2

def hashRow (id : Bytes) (row : Row) : Bytes := Digests.hash16 (scratch id row)

def hash (db : DB2) : Bytes := Digests.sha256 (hashInput hashRow db.rows)

end DB2

namespace DB3

def hashRow (id : Bytes) (row : Row) : Bytes := Digests.hash16 (scratch id row)

def hash (db : DB3) : Bytes := Digests.sha256 (hashInput hashRow db.rows)

end DB3

end

class HashedRows (DB : Type) [Database DB] [RowDatabase DB] where
  hashRow : Bytes → RowDatabase.Row DB → Bytes

instance [Digests] [Wire DB2.DB2RowState] [Wire DB2.Log2] : HashedRows DB2 where
  hashRow := DB2.hashRow

instance [Digests] [Ristretto] [Wire DB3.DB3RowState] [Wire DB3.Log3] : HashedRows DB3 where
  hashRow := DB3.hashRow

end SVR2
