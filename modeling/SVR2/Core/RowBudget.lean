import Mathlib.Algebra.Order.BigOperators.Group.List
import SVR2.Core.Handlers
import SVR2.DB.RowBounds
import SVR2.DB.Wire

/-!
# The bytes of the rows of a push

`SendNextReplicationState` asks for as many rows as fit into what is left of a chunk if each has at
most `MaxRowSerializedSize` bytes.  That number is compared here with the protobuf size of the rows
that a database can hold.
-/

namespace SVR2

open Lib Protobuf

/-! ### Version 2 -/

namespace DB2

/-- A row whose message has the size that `MaxRowSerializedSize` allows: it leaves no byte for the
    state and one too few for the tag of the tries. -/
def Row.Short (row : Row) : Prop :=
  row.data.length + uintSize row.tries.toNat + uintSize row.state.varint ≤ 51

instance (row : Row) : Decidable row.Short := inferInstanceAs (Decidable (_ ≤ _))

theorem length_encode_rowAsProto {id : Bytes} {row : Row} (h : ValidRow id row) :
    (rowAsProto id row).encode.length =
      54 + row.data.length + uintSize row.tries.toNat + uintSize row.state.varint := by
  obtain ⟨hid, hpin, hmin, hmax⟩ := h
  rw [BACKUP_ID_SIZE] at hid
  rw [PIN_SIZE] at hpin
  rw [MIN_DATA_SIZE] at hmin
  rw [MAX_DATA_SIZE] at hmax
  have hsize : ∀ {number : Nat} {s : Bytes}, number < 16 → 16 ≤ s.length → s.length ≤ 48 →
      (encode (bytesField number s)).length = 2 + s.length := fun hnumber hmin hmax =>
    length_encode_bytesField hnumber (List.ne_nil_of_length_pos (by omega)) (by omega)
  simp only [DB2RowState.encode, DB2RowState.fields, rowAsProto, encode_append, List.length_append,
    length_encode_uintField (show 2 < 16 by decide),
    length_encode_uintField (show 5 < 16 by decide)]
  rw [hsize (by decide) (by omega) (by omega), hsize (by decide) hmin hmax,
    hsize (by decide) (by omega) (by omega), hid, hpin]
  omega

theorem length_encode_le_iff {id : Bytes} {row : Row} (h : ValidRow id row) :
    (rowAsProto id row).encode.length ≤ maxRowSerializedSize ↔ row.Short := by
  rw [length_encode_rowAsProto h, Row.Short]
  change _ ≤ 105 ↔ _
  omega

theorem rowsAsProtos_eq_ok [Wire DB2RowState] {db : DB2} {start last : Bytes} {size : Nat}
    {rows : List Bytes} (h : db.rowsAsProtos start size = .ok (rows, last)) :
    rows.length ≤ size ∧
      ∀ b ∈ rows, ∃ e ∈ db.rows.toList, b = Wire.serialize (rowAsProto e.1 e.2) := by
  rw [rowsAsProtos] at h
  split_ifs at h <;> cases h
  all_goals
    refine ⟨by simp, fun b hb => ?_⟩
    obtain ⟨e, he, rfl⟩ := List.mem_map.mp hb
  · exact ⟨e, List.mem_of_mem_take he, rfl⟩
  · exact ⟨e, List.mem_of_mem_filter (List.mem_of_mem_take he), rfl⟩

end DB2

/-! ### Version 3 -/

namespace DB3

/-- A row whose number of tries has a varint of one byte. -/
def Row.Short (row : Row) : Prop := row.tries.toNat < 128

instance (row : Row) : Decidable row.Short := inferInstanceAs (Decidable (_ < _))

theorem length_encode_le_iff {id : Bytes} {row : Row} (h : ValidRow id row) :
    (rowAsProto id row).encode.length ≤ maxRowSerializedSize ↔ row.Short := by
  obtain ⟨hid, hpriv, -⟩ := h
  rw [BACKUP_ID_SIZE] at hid
  rw [SCALAR_SIZE] at hpriv
  simp only [DB3RowState.encode, DB3RowState.fields, rowAsProto, encode_append, List.length_append,
    length_encode_uintField (show 3 < 16 by decide)]
  rw [length_encode_bytesField (by decide) (List.ne_nil_of_length_pos (by omega)) (by omega),
    length_encode_bytesField (by decide) (List.ne_nil_of_length_pos (by omega)) (by omega), hid,
    hpriv, Row.Short, ← uintSize_le_two_iff]
  change _ ≤ 54 ↔ _
  omega

theorem rowsAsProtos_eq_ok [Wire DB3RowState] {db : DB3} {start last : Bytes} {size : Nat}
    {rows : List Bytes} (h : db.rowsAsProtos start size = .ok (rows, last)) :
    rows.length ≤ size ∧
      ∀ b ∈ rows, ∃ e ∈ db.rows.toList, b = Wire.serialize (rowAsProto e.1 e.2) := by
  rw [rowsAsProtos] at h
  split at h
  · cases h
  · split_ifs at h <;> cases h
    all_goals
      refine ⟨by simp, fun b hb => ?_⟩
      obtain ⟨e, he, rfl⟩ := List.mem_map.mp hb
    · exact ⟨e, List.mem_of_mem_take he, rfl⟩
    · exact ⟨e, List.mem_of_mem_filter (List.mem_of_mem_take he), rfl⟩

end DB3

/-! ### The budget -/

/-- Rows of at most the assumed size, as many as are asked for, fit into what is left of a chunk. -/
theorem Core.sum_length_le {Hash DB : Type} [Database DB] [PushSize Hash] (c : Core Hash DB)
    {out : ReplicateStatePush Hash} {atCommitIdx : Bool} {rows : List Bytes}
    (hcount : rows.length ≤ c.rowsToSend out atCommitIdx)
    (hsize : ∀ b ∈ rows, b.length ≤ Database.maxRowSerializedSize DB) :
    (rows.map List.length).sum ≤
      c.enclaveConfig.raft.replicationChunkBytes - PushSize.pushByteSizeLong out := by
  have hasked : c.rowsToSend out atCommitIdx ≤ (c.enclaveConfig.raft.replicationChunkBytes -
      PushSize.pushByteSizeLong out) / Database.maxRowSerializedSize DB := by
    rw [Core.rowsToSend]
    split_ifs
    · exact le_rfl
    · exact Nat.zero_le _
  calc (rows.map List.length).sum
      ≤ (rows.map List.length).length • Database.maxRowSerializedSize DB :=
        List.sum_le_card_nsmul _ _ (by simpa using hsize)
    _ = rows.length * Database.maxRowSerializedSize DB := by rw [List.length_map, nsmul_eq_mul, Nat.cast_id]
    _ ≤ (c.enclaveConfig.raft.replicationChunkBytes - PushSize.pushByteSizeLong out) /
          Database.maxRowSerializedSize DB * Database.maxRowSerializedSize DB :=
        Nat.mul_le_mul_right _ (hcount.trans hasked)
    _ ≤ _ := Nat.div_mul_le_self _ _

section

variable (Hash : Type) [PushSize Hash] [Ristretto] [Wire DB2.Log2] [Wire DB3.Log3]
  [Wire DB2.DB2RowState] [Wire DB3.DB3RowState]

/-- With rows in the protobuf format, the message of a row that a database can hold has at most
    `MaxRowSerializedSize` bytes exactly if the row is short; and if all rows are, the contents of
    those that are asked for stay within what is left of the chunk. -/
theorem rows_within_budget (h2 : ∀ m : DB2.DB2RowState, Wire.serialize m = m.encode)
    (h3 : ∀ m : DB3.DB3RowState, Wire.serialize m = m.encode) :
    (∀ calls, Along DB2.call DB2.Succeeds DB2.newDB calls →
      let db := calls.foldl DB2.call DB2.newDB
      (∀ e ∈ db.rows.toList, (Wire.serialize (DB2.rowAsProto e.1 e.2)).length ≤
        DB2.maxRowSerializedSize ↔ e.2.Short) ∧
      ((∀ e ∈ db.rows.toList, e.2.Short) → ∀ (c : Core Hash DB2) (out : ReplicateStatePush Hash)
        (atCommitIdx : Bool) (start last : Bytes) (rows : List Bytes),
        db.rowsAsProtos start (c.rowsToSend out atCommitIdx) = .ok (rows, last) →
          (rows.map List.length).sum ≤
            c.enclaveConfig.raft.replicationChunkBytes - PushSize.pushByteSizeLong out)) ∧
    ∀ calls, Along DB3.call DB3.Succeeds DB3.newDB calls →
      let db := calls.foldl DB3.call DB3.newDB
      (∀ e ∈ db.rows.toList, (Wire.serialize (DB3.rowAsProto e.1 e.2)).length ≤
        DB3.maxRowSerializedSize ↔ e.2.Short) ∧
      ((∀ e ∈ db.rows.toList, e.2.Short) → ∀ (c : Core Hash DB3) (out : ReplicateStatePush Hash)
        (atCommitIdx : Bool) (start last : Bytes) (rows : List Bytes),
        db.rowsAsProtos start (c.rowsToSend out atCommitIdx) = .ok (rows, last) →
          (rows.map List.length).sum ≤
            c.enclaveConfig.raft.replicationChunkBytes - PushSize.pushByteSizeLong out) := by
  constructor
  · intro calls hcalls db
    have hsize : ∀ e ∈ db.rows.toList, (Wire.serialize (DB2.rowAsProto e.1 e.2)).length ≤
        DB2.maxRowSerializedSize ↔ e.2.Short := by
      intro e he
      rw [h2]
      exact DB2.length_encode_le_iff (DB2.validRow_calls hcalls e.1 e.2 (OrdMap.mem_toList.mp he))
    refine ⟨hsize, fun hshort c out atCommitIdx start last rows hrows => ?_⟩
    obtain ⟨hcount, hof⟩ := DB2.rowsAsProtos_eq_ok hrows
    refine c.sum_length_le hcount fun b hb => ?_
    obtain ⟨e, he, rfl⟩ := hof b hb
    exact (hsize e he).mpr (hshort e he)
  · intro calls hcalls db
    have hsize : ∀ e ∈ db.rows.toList, (Wire.serialize (DB3.rowAsProto e.1 e.2)).length ≤
        DB3.maxRowSerializedSize ↔ e.2.Short := by
      intro e he
      rw [h3]
      exact DB3.length_encode_le_iff (DB3.sound_calls hcalls e.1 e.2 (OrdMap.mem_toList.mp he))
    refine ⟨hsize, fun hshort c out atCommitIdx start last rows hrows => ?_⟩
    obtain ⟨hcount, hof⟩ := DB3.rowsAsProtos_eq_ok hrows
    refine c.sum_length_le hcount fun b hb => ?_
    obtain ⟨e, he, rfl⟩ := hof b hb
    exact (hsize e he).mpr (hshort e he)

end

namespace Sample

/-- A backup of all zeros for the id, with the largest number of tries. -/
def storedBackup (size : Nat) : DB2.Op :=
  ⟨⟨.replicate 16 0, .backup (.replicate size 7) (.replicate 32 1) 255⟩, true⟩

def createdKey (tries : Nat) : DB3.Op := DB3.sampleOp (.create tries (.replicate 32 1)) 7

theorem along_storedBackup [Wire DB2.DB2RowState] (size : Nat) (h : (storedBackup size).Valid) :
    Along DB2.call DB2.Succeeds DB2.newDB [.run (storedBackup size)] :=
  ⟨h, trivial⟩

theorem along_createdKey [Wire DB3.DB3RowState] [Ristretto] (tries : Nat)
    (h : (createdKey tries).Valid) :
    Along DB3.call DB3.Succeeds DB3.newDB [.run (createdKey tries)] :=
  ⟨h, trivial⟩

theorem rows_within_budget_short :
    (∀ e ∈ (DB2.newDB.apply (storedBackup 46)).rows.toList,
      (DB2.rowAsProto e.1 e.2).encode.length ≤ DB2.maxRowSerializedSize) ∧
    letI := DB3.sampleRistretto
    ∀ e ∈ (DB3.newDB.apply (createdKey 127)).rows.toList,
      (DB3.rowAsProto e.1 e.2).encode.length ≤ DB3.maxRowSerializedSize := by
  have hshort2 : ∀ e ∈ (DB2.newDB.apply (storedBackup 46)).rows.toList, e.2.Short := by
    decide +kernel
  have hshort3 : letI := DB3.sampleRistretto
      ∀ e ∈ (DB3.newDB.apply (createdKey 127)).rows.toList, e.2.Short := by
    decide +kernel
  let _ := DB2.protobufRows
  let _ := DB3.protobufRows
  let _ := DB3.sampleRistretto
  let _ : PushSize Unit := ⟨fun _ => 0⟩
  obtain ⟨h2, h3⟩ := rows_within_budget Unit (fun _ => rfl) fun _ => rfl
  have hcalls2 := h2 _ (along_storedBackup 46 (by decide))
  have hcalls3 := h3 _ (along_createdKey 127 (by decide))
  exact ⟨fun e he => (hcalls2.1 e he).mpr (hshort2 e he),
    fun e he => (hcalls3.1 e he).mpr (hshort3 e he)⟩

/-- The state of a row and the tag of its tries are not counted in version 2, nor in version 3 the
    second byte of a number of tries from 128 on: the one row that is asked for in the budget of one
    row has more bytes than the budget. -/
theorem row_exceeds_budget :
    (letI : Wire DB2.DB2RowState := DB2.protobufRows
    Along DB2.call DB2.Succeeds DB2.newDB [.run (storedBackup 48)] ∧
      ((([.run (storedBackup 48)].foldl DB2.call DB2.newDB).rowsAsProtos []
        (105 / DB2.maxRowSerializedSize)).toOption.map
          fun r => r.1.map List.length) = some [107]) ∧
    letI := DB3.protobufRows
    letI := DB3.sampleRistretto
    Along DB3.call DB3.Succeeds DB3.newDB [.run (createdKey 128)] ∧
      ((([.run (createdKey 128)].foldl DB3.call DB3.newDB).rowsAsProtos []
        (54 / DB3.maxRowSerializedSize)).toOption.map
          fun r => r.1.map List.length) = some [55] := by
  refine ⟨⟨?_, ?_⟩, ?_, ?_⟩
  · exact @along_storedBackup DB2.protobufRows 48 (by decide)
  · decide +kernel
  · exact @along_createdKey DB3.protobufRows DB3.sampleRistretto 128 (by decide)
  · decide +kernel

end Sample

end SVR2
