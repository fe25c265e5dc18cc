import SVR2.DB.DB2
import SVR2.DB.DB3
import SVR2.Lib.Protobuf

/-!
# The wire format of the client logs and the rows

The core depends on protobuf only through `Wire`.  This module gives the format of `client.proto`,
`client3.proto`, `clientlog.proto` and the row messages of `e2e.proto`, with which the two databases
can be run.
-/

namespace SVR2

open Lib Protobuf

/-- The protobuf format of a message, given its fields and how they are read. -/
@[reducible] def Wire.ofProtobuf {α : Type} (fields : α → List Field)
    (ofFields : List Field → Option α) (h : ∀ a, ofFields (fields a) = some a) : Wire α where
  serialize a := encode (fields a)
  parse s := (decode s).bind ofFields
  parse_serialize a := by rw [decode_encode, Option.bind_some, h a]

namespace DB2

/-! ### Version 2 -/

def Request.fields : Request → List Field
  | .backup data pin maxTries =>
    messageField 2 (encode (bytesField 1 data ++ (bytesField 2 pin ++ uintField 3 maxTries)))
  | .restore pin => messageField 3 (encode (bytesField 1 pin))
  | .delete => messageField 4 []
  | .expose data => messageField 5 (encode (bytesField 1 data))
  | .tries => messageField 6 []
  | .notSet => []

def Request.ofFields (fields : List Field) : Option Request :=
  match getOneof [2, 3, 4, 5, 6] fields with
  | none => some .notSet
  | some (number, s) => (decode s).map fun fields => match number with
    | 2 => .backup (getBytes 1 fields) (getBytes 2 fields) (getUint 3 fields)
    | 3 => .restore (getBytes 1 fields)
    | 4 => .delete
    | 5 => .expose (getBytes 1 fields)
    | _ => .tries

theorem Request.ofFields_fields (req : Request) : ofFields req.fields = some req := by
  cases req with
  | notSet => rfl
  | delete => rfl
  | tries => rfl
  | _ => simp [ofFields, fields, decode_encode, getBytes, getUint]

/-- `mutable_req` sets the request of a log also if it is empty. -/
def Log2.fields (log : Log2) : List Field :=
  bytesField 1 log.backupId ++ messageField 2 (encode log.req.fields)

def Log2.ofFields (fields : List Field) : Option Log2 :=
  ((decode (getBytes 2 fields)).bind Request.ofFields).map fun req => ⟨getBytes 1 fields, req⟩

instance : Wire Log2 := .ofProtobuf Log2.fields Log2.ofFields fun log => by
  simp [Log2.ofFields, Log2.fields, getBytes, decode_encode, Request.ofFields_fields]

theorem Log2.serialize_ne_nil (log : Log2) : Wire.serialize log ≠ [] := by
  change encode log.fields ≠ []
  rw [Log2.fields, encode_append]
  exact List.append_ne_nil_of_right_ne_nil _ (encode_messageField_ne_nil 2 _)

/-- The varint of a state: an enumeration is an `int32`, widened to 64 bits with its sign. -/
def RowState.varint (state : RowState) : Nat :=
  if state.number < 2 ^ 31 then state.number else state.number + (2 ^ 64 - 2 ^ 32)

theorem RowState.ofNumber_varint (state : RowState) : ofNumber state.varint = state := by
  have hmod : state.varint % 2 ^ 32 = state.number % 2 ^ 32 := by
    have hlt := state.number_lt
    rw [RowState.varint]
    split_ifs <;> omega
  have hnumber : ofNumber state.varint = ofNumber state.number := by
    simp only [ofNumber, hmod]
  rw [hnumber, ofNumber_number]

namespace DB2RowState

def fields (m : DB2RowState) : List Field :=
  bytesField 1 m.backupId ++ (uintField 2 m.tries ++ (bytesField 3 m.data ++
    (bytesField 4 m.pin ++ uintField 5 m.state.varint)))

def ofFields (fields : List Field) : DB2RowState where
  backupId := getBytes 1 fields
  tries := getUint 2 fields
  data := getBytes 3 fields
  pin := getBytes 4 fields
  state := .ofNumber (getUint 5 fields)

theorem ofFields_fields (m : DB2RowState) : ofFields m.fields = m := by
  simp [ofFields, fields, getBytes, getUint, RowState.ofNumber_varint]

def encode (m : DB2RowState) : Bytes := Protobuf.encode m.fields

end DB2RowState

/-- The rows of version 2 in the protobuf format. -/
@[reducible] def protobufRows : Wire DB2RowState where
  serialize := DB2RowState.encode
  parse s := (Protobuf.decode s).map DB2RowState.ofFields
  parse_serialize m := by
    rw [DB2RowState.encode, decode_encode, Option.map_some, DB2RowState.ofFields_fields]

instance : Wire DB2RowState := protobufRows

end DB2

namespace DB3

/-! ### Version 3 -/

def Request.fields : Request → List Field
  | .create maxTries blindedElement =>
    messageField 1 (encode (uintField 1 maxTries ++ bytesField 2 blindedElement))
  | .evaluate blindedElement => messageField 2 (encode (bytesField 1 blindedElement))
  | .remove => messageField 3 []
  | .query => messageField 4 []
  | .notSet => []

def Request.ofFields (fields : List Field) : Option Request :=
  match getOneof [1, 2, 3, 4] fields with
  | none => some .notSet
  | some (number, s) => (decode s).map fun fields => match number with
    | 1 => .create (getUint 1 fields) (getBytes 2 fields)
    | 2 => .evaluate (getBytes 1 fields)
    | 3 => .remove
    | _ => .query

theorem Request.ofFields_fields (req : Request) : ofFields req.fields = some req := by
  cases req with
  | notSet => rfl
  | remove => rfl
  | query => rfl
  | _ => simp [ofFields, fields, decode_encode, getBytes, getUint]

def Log3.fields (log : Log3) : List Field :=
  bytesField 1 log.backupId ++
    (messageField 2 (encode log.req.fields) ++ bytesField 3 log.createPrivkey)

def Log3.ofFields (fields : List Field) : Option Log3 :=
  ((decode (getBytes 2 fields)).bind Request.ofFields).map fun req =>
    ⟨getBytes 1 fields, req, getBytes 3 fields⟩

instance : Wire Log3 := .ofProtobuf Log3.fields Log3.ofFields fun log => by
  simp [Log3.ofFields, Log3.fields, getBytes, decode_encode, Request.ofFields_fields]

namespace DB3RowState

def fields (m : DB3RowState) : List Field :=
  bytesField 1 m.backupId ++ (bytesField 2 m.priv ++ uintField 3 m.tries)

def ofFields (fields : List Field) : DB3RowState where
  backupId := getBytes 1 fields
  priv := getBytes 2 fields
  tries := getUint 3 fields

theorem ofFields_fields (m : DB3RowState) : ofFields m.fields = m := by
  simp [ofFields, fields, getBytes, getUint]

def encode (m : DB3RowState) : Bytes := Protobuf.encode m.fields

end DB3RowState

/-- The rows of version 3 in the protobuf format. -/
@[reducible] def protobufRows : Wire DB3RowState where
  serialize := DB3RowState.encode
  parse s := (Protobuf.decode s).map DB3RowState.ofFields
  parse_serialize m := by
    rw [DB3RowState.encode, decode_encode, Option.map_some, DB3RowState.ofFields_fields]

instance : Wire DB3RowState := protobufRows

end DB3

end SVR2
