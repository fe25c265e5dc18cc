import SVR2.DB.RowBounds

/-!
# Rows come out as they went in

What `RowsAsProtos` makes of a database that was filled by `LoadRowsFromProtos`.  Version 2 accepts a
message only if each of its strings has the size of the array it is copied to.  Version 3 fills
shorter strings up with zeros.
-/

namespace SVR2

open Lib

/-- If each message adds one row after all others, the loop appends the rows of the messages. -/
theorem loadAll_messages {DB M Row : Type} {loadRow : DB → Bytes → Except Error (DB × Bytes)}
    {parse : Bytes → Option M} {sent : List Bytes} (rows : DB → OrdMap Bytes Row)
    (returned key : M → Bytes) (row : M → Row) (Accepted : M → Prop) (hok : ∀ db b, loadRow db b ≠ .error .ok)
    (hrow : ∀ db, ∀ b ∈ sent, ∀ loaded, loadRow db b = .ok loaded → ∃ m, parse b = some m ∧
      Accepted m ∧ rows loaded.1 = (rows db).insert (key m) (row m) ∧
      (∀ k ∈ rows db, k < key m) ∧ loaded.2 = returned m)
    {db db' : DB} {start last : Bytes} (h : loadAll loadRow db start sent = (db', last, .ok)) :
    ∃ messages : List M, sent.map parse = messages.map some ∧ (∀ m ∈ messages, Accepted m) ∧
      (rows db').toList = (rows db).toList ++ messages.map (fun m => (key m, row m)) ∧
      last = (messages.getLast?.map returned).getD start := by
  induction sent generalizing db start with
  | nil =>
    cases h
    exact ⟨[], rfl, List.forall_mem_nil _, (List.append_nil _).symm, rfl⟩
  | cons b sent ih =>
    rw [loadAll] at h
    cases hload : loadRow db b with
    | error err =>
      rw [hload] at h
      cases h
      exact absurd hload (hok _ b)
    | ok loaded =>
      rw [hload] at h
      obtain ⟨m, hparse, hm, hinsert, hlt, hkey⟩ := hrow db b List.mem_cons_self loaded hload
      obtain ⟨messages, hmessages, haccepted, htoList, hlast⟩ :=
        ih (fun db b hb => hrow db b (List.mem_cons_of_mem _ hb)) h
      refine ⟨m :: messages, ?_, List.forall_mem_cons.mpr ⟨hm, haccepted⟩, ?_, ?_⟩
      · rw [List.map_cons, List.map_cons, hparse, hmessages]
      · rw [htoList, hinsert, OrdMap.toList_insert_of_lt _ hlt, List.append_assoc, List.map_cons]
        rfl
      · rw [hlast, hkey]
        cases messages with
        | nil => rfl
        | cons m' messages => rfl

theorem stringToByteArray_ne_error_ok (n : Nat) (b : Bytes) : stringToByteArray n b ≠ .error .ok := by
  rw [stringToByteArray]
  split_ifs <;> rintro ⟨⟩

theorem page_of_messages {M Row : Type} (toProto : Bytes → Row → Bytes) (serialize : M → Bytes)
    (key : M → Bytes) (row : M → Row) {parse : Bytes → Option M} {sent : List Bytes}
    {messages : List M} (hparse : sent.map parse = messages.map some) {size : Nat}
    (hsize : sent.length ≤ size)
    (hproto : ∀ m ∈ messages, toProto (key m) (row m) = serialize m) :
    let page := (messages.map fun m => (key m, row m)).take size
    page.map (fun e => toProto e.1 e.2) = messages.map serialize ∧
      (page.getLast?.map (·.1)).getD [] = (messages.getLast?.map key).getD [] := by
  intro page
  have hlength : sent.length = messages.length := by simpa using congrArg List.length hparse
  have hpage : page = messages.map fun m => (key m, row m) :=
    List.take_of_length_le (by rwa [List.length_map, ← hlength])
  rw [hpage, List.map_map, List.getLast?_map, Option.map_map]
  exact ⟨List.map_congr_left hproto, rfl⟩

/-! ### Version 2 -/

namespace DB2

theorem rowAsProto_row {m : DB2RowState} (h : m.tries ≤ 255) : rowAsProto m.backupId m.row = m := by
  have htries : (UInt8.ofNat m.tries).toNat = m.tries :=
    UInt8.toNat_ofNat_of_lt' (Nat.lt_succ_of_le h)
  rw [rowAsProto, DB2RowState.row, htries]

variable [Wire DB2RowState]

theorem loadRow_ne_error_ok (db : DB2) (b : Bytes) : db.loadRow b ≠ .error .ok := by
  rw [loadRow]
  split
  · rintro ⟨⟩
  split_ifs <;> rintro ⟨⟩

theorem loadAll_eq_ok {db : DB2} {rows : List Bytes} {last : Bytes}
    (h : newDB.loadRowsFromProtos rows = (db, last, .ok)) :
    loadAll loadRow newDB [] rows = (db, last, .ok) := by
  rw [loadRowsFromProtos, loadRows_eq] at h
  split_ifs at h
  · cases h
  split at h
  · rename_i heq
    split_ifs at h
    · cases h
    · exact heq.trans h
  · exact h

/-- What version 2 accepts into an empty database it exports again. -/
theorem rowsAsProtos_of_loaded {db : DB2} {rows : List Bytes} {last : Bytes} {size : Nat}
    (h : newDB.loadRowsFromProtos rows = (db, last, .ok)) (hsize : rows.length ≤ size) :
    ∃ messages : List DB2RowState, rows.map Wire.parse = messages.map some ∧
      db.rowsAsProtos [] size = .ok (messages.map Wire.serialize, last) := by
  obtain ⟨messages, hparse, htries, htoList, rfl⟩ := loadAll_messages DB2.rows
    DB2RowState.backupId DB2RowState.backupId DB2RowState.row (fun m => m.tries ≤ 255)
    loadRow_ne_error_ok (fun db b _ loaded hload => by
      obtain ⟨m, hm, -, hmax, hlt, rfl⟩ := loadRow_eq_ok hload
      exact ⟨m, hm, hmax, rfl, hlt, rfl⟩) (loadAll_eq_ok h)
  obtain ⟨hpage, hlast⟩ := page_of_messages (fun id row => Wire.serialize (rowAsProto id row))
    Wire.serialize DB2RowState.backupId DB2RowState.row
    hparse hsize fun m hm => by rw [rowAsProto_row (htries m hm)]
  refine ⟨messages, hparse, ?_⟩
  rw [rowsAsProtos, if_neg (fun h => h.1 rfl), htoList]
  exact congrArg Except.ok (Prod.ext hpage hlast)

end DB2

/-! ### Version 3 -/

namespace DB3

/-- The row that `LoadRowsFromProtos` makes of a message whose strings have the right sizes. -/
def DB3RowState.row (m : DB3RowState) : Row where
  priv := m.priv
  tries := UInt8.ofNat m.tries

theorem rowAsProto_row {m : DB3RowState} (h : m.tries ≤ 255) : rowAsProto m.backupId m.row = m := by
  have htries : (UInt8.ofNat m.tries).toNat = m.tries :=
    UInt8.toNat_ofNat_of_lt' (Nat.lt_succ_of_le h)
  rw [rowAsProto, DB3RowState.row, htries]

def DB3RowState.Full (m : DB3RowState) : Prop :=
  m.backupId.length = BACKUP_ID_SIZE ∧ m.priv.length = SCALAR_SIZE

instance (m : DB3RowState) : Decidable m.Full :=
  inferInstanceAs (Decidable (_ ∧ _))

def DB3RowState.filled (m : DB3RowState) : DB3RowState :=
  { m with
    backupId := m.backupId ++ .replicate (BACKUP_ID_SIZE - m.backupId.length) 0
    priv := m.priv ++ .replicate (SCALAR_SIZE - m.priv.length) 0 }

theorem DB3RowState.filled_eq_self_iff {m : DB3RowState} (hid : m.backupId.length ≤ BACKUP_ID_SIZE)
    (hpriv : m.priv.length ≤ SCALAR_SIZE) : m.filled = m ↔ m.Full := by
  cases m
  simp only [filled, Full, DB3RowState.mk.injEq, and_true, List.append_right_eq_self,
    List.replicate_eq_nil_iff] at hid hpriv ⊢
  omega

variable [Wire DB3RowState]

theorem loadRow_ne_error_ok (db : DB3) (b : Bytes) : db.loadRow b ≠ .error .ok := by
  rw [loadRow]
  split
  · rintro ⟨⟩
  split_ifs
  · rintro ⟨⟩
  split
  · rename_i hkey
    rintro ⟨⟩
    exact stringToByteArray_ne_error_ok _ _ hkey
  split_ifs
  · rintro ⟨⟩
  split
  · rename_i hpriv
    rintro ⟨⟩
    exact stringToByteArray_ne_error_ok _ _ hpriv
  · rintro ⟨⟩

theorem loadAll_eq_ok {db : DB3} {rows : List Bytes} {last : Bytes}
    (h : newDB.loadRowsFromProtos rows = (db, last, .ok)) :
    loadAll loadRow newDB [] rows = (db, last, .ok) := by
  rw [loadRowsFromProtos, loadRows_eq] at h
  split at h
  · rename_i heq
    split_ifs at h
    · cases h
    · exact heq.trans h
  · exact h

omit [Wire DB3RowState] in
theorem stringToByteArray_eq_ok {n : Nat} {b array : Bytes} (h : stringToByteArray n b = .ok array) :
    b.length ≤ n ∧ array = b ++ .replicate (n - b.length) 0 := by
  rw [stringToByteArray] at h
  split_ifs at h with hlt
  exact ⟨not_lt.mp hlt, (Except.ok.inj h).symm⟩

/-- What version 3 accepts into an empty database it exports with its strings filled up, and it
    returns the last key as it was sent. -/
theorem rowsAsProtos_of_loaded {db : DB3} {rows : List Bytes} {last : Bytes} {size : Nat}
    (h : newDB.loadRowsFromProtos rows = (db, last, .ok)) (hsize : rows.length ≤ size) :
    ∃ messages : List DB3RowState, rows.map Wire.parse = messages.map some ∧
      (∀ m ∈ messages, m.filled = m ↔ m.Full) ∧
      db.rowsAsProtos [] size = .ok (messages.map fun m => Wire.serialize m.filled,
        (messages.getLast?.map (·.filled.backupId)).getD []) ∧
      last = (messages.getLast?.map (·.backupId)).getD [] := by
  obtain ⟨messages, hparse, hbounds, htoList, hreturned⟩ := loadAll_messages DB3.rows
    DB3RowState.backupId (·.filled.backupId) (·.filled.row)
    (fun m => m.tries ≤ 255 ∧ (m.filled = m ↔ m.Full))
    loadRow_ne_error_ok (fun db b hb loaded hload => by
      obtain ⟨m, key, priv, hm, ⟨-, hmax⟩, hkey, hpriv, hlt, rfl⟩ := loadRow_eq_ok hload
      obtain ⟨hid, rfl⟩ := stringToByteArray_eq_ok hkey
      obtain ⟨hscalar, rfl⟩ := stringToByteArray_eq_ok hpriv
      exact ⟨m, hm, ⟨hmax, DB3RowState.filled_eq_self_iff hid hscalar⟩, rfl, hlt, rfl⟩)
    (loadAll_eq_ok h)
  obtain ⟨hpage, hlast⟩ := page_of_messages (fun id row => Wire.serialize (rowAsProto id row))
    (fun m => Wire.serialize m.filled) (·.filled.backupId) (·.filled.row)
    hparse hsize fun m hm => by rw [rowAsProto_row (m := m.filled) (hbounds m hm).1]
  refine ⟨messages, hparse, fun m hm => (hbounds m hm).2, ?_, hreturned⟩
  rw [rowsAsProtos]
  change Except.ok _ = _
  rw [if_pos rfl, htoList]
  exact congrArg Except.ok (Prod.ext hpage hlast)

/-- Version 3 exports the messages as they were sent exactly if nothing has been filled up. -/
theorem rowsAsProtos_of_loaded_iff {db : DB3} {rows : List Bytes} {last : Bytes} {size : Nat}
    (h : newDB.loadRowsFromProtos rows = (db, last, .ok)) (hsize : rows.length ≤ size) :
    (∃ messages : List DB3RowState, rows.map Wire.parse = messages.map some ∧
        db.rowsAsProtos [] size = .ok (messages.map Wire.serialize, last)) ↔
      ∀ b ∈ rows, ∀ m ∈ (Wire.parse b : Option DB3RowState), m.Full := by
  obtain ⟨messages, hparse, hfilled, hexport, hlast⟩ := rowsAsProtos_of_loaded h hsize
  have hsent : (∀ b ∈ rows, ∀ m ∈ (Wire.parse b : Option DB3RowState), m.Full) ↔
      ∀ m ∈ messages, m.Full := by
    have hmem (m : DB3RowState) : (∃ b ∈ rows, Wire.parse b = some m) ↔ m ∈ messages := by
      rw [← List.mem_map (f := (Wire.parse : Bytes → Option DB3RowState)), hparse]
      simp
    simp only [← hmem]
    exact ⟨fun h m ⟨b, hb, hm⟩ => h b hb m hm, fun h b hb m hm => h m ⟨b, hb, hm⟩⟩
  rw [hsent]
  constructor
  · rintro ⟨messages', hparse', hexport'⟩ m hm
    obtain rfl : messages' = messages :=
      List.map_injective_iff.mpr (Option.some_injective _) (hparse'.symm.trans hparse)
    have hbytes := congrArg Prod.fst (Except.ok.inj (hexport.symm.trans hexport'))
    have hsame : Wire.serialize m.filled = Wire.serialize m := List.map_inj_left.mp hbytes m hm
    have hparsed := congrArg (Wire.parse : Bytes → Option DB3RowState) hsame
    rw [Wire.parse_serialize, Wire.parse_serialize] at hparsed
    exact (hfilled m hm).mp (Option.some.inj hparsed)
  · intro hfull
    have hself : ∀ m ∈ messages, m.filled = m := fun m hm => (hfilled m hm).mpr (hfull m hm)
    refine ⟨messages, hparse, hexport.trans (congrArg Except.ok (Prod.ext ?_ ?_))⟩
    · exact List.map_congr_left fun m hm => congrArg Wire.serialize (hself m hm)
    · rw [hlast]
      cases hget : messages.getLast? with
      | none => rfl
      | some m => exact congrArg DB3RowState.backupId (hself m (List.mem_of_getLast? hget))

end DB3

/-- A database that was filled by `LoadRowsFromProtos` exports the messages that it was given, field
    by field and in their order, and the key that was returned is that of the last: always in version 2,
    and in version 3 exactly if the strings of the messages have the sizes of their arrays. -/
theorem loaded_rows_canonical [Wire DB2.DB2RowState] [Wire DB3.DB3RowState] (rows : List Bytes)
    (last : Bytes) (size : Nat) (hsize : rows.length ≤ size) :
    (∀ db, DB2.newDB.loadRowsFromProtos rows = (db, last, .ok) →
      ∃ messages : List DB2.DB2RowState, rows.map Wire.parse = messages.map some ∧
        db.rowsAsProtos [] size = .ok (messages.map Wire.serialize, last)) ∧
    ∀ db, DB3.newDB.loadRowsFromProtos rows = (db, last, .ok) →
      ((∃ messages : List DB3.DB3RowState, rows.map Wire.parse = messages.map some ∧
          db.rowsAsProtos [] size = .ok (messages.map Wire.serialize, last)) ↔
        ∀ b ∈ rows, ∀ m ∈ (Wire.parse b : Option DB3.DB3RowState), m.Full) :=
  ⟨fun _ h => DB2.rowsAsProtos_of_loaded h hsize,
    fun _ h => DB3.rowsAsProtos_of_loaded_iff h hsize⟩

namespace Sample

def sentKey (backupId priv : Bytes) : Bytes :=
  Wire.serialize ({ backupId := backupId, priv := priv, tries := 3 } : DB3.DB3RowState)

theorem loaded_rows_canonical_two :
    let rows := [sentKey (.replicate 16 1) (.replicate 32 7), sentKey (.replicate 16 2) (.replicate 32 8)]
    ∃ messages : List DB3.DB3RowState, rows.map Wire.parse = messages.map some ∧
      (DB3.newDB.loadRowsFromProtos rows).1.rowsAsProtos [] 2 =
        .ok (messages.map Wire.serialize, .replicate 16 2) := by
  intro rows
  exact ((loaded_rows_canonical rows (.replicate 16 2) 2 (by decide)).2 _ (by decide +kernel)).mpr
    (by decide +kernel)

/-- Version 3 accepts a backup id of one byte and a key of two.  It returns the one byte as the last
    key, and exports sixteen bytes and thirty-two. -/
theorem short_row_filled_up :
    let short : DB3.DB3RowState := { backupId := [1], priv := [7, 7], tries := 3 }
    let full : DB3.DB3RowState :=
      { backupId := 1 :: .replicate 15 0, priv := [7, 7] ++ .replicate 30 0, tries := 3 }
    let (db, last, err) := DB3.newDB.loadRowsFromProtos [Wire.serialize short]
    err = .ok ∧ last = [1] ∧
      db.rowsAsProtos [] 1 = .ok ([Wire.serialize full], 1 :: .replicate 15 0) ∧ full ≠ short := by
  decide +kernel

end Sample

end SVR2
