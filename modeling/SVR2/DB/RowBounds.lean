import SVR2.DB.Rows
import SVR2.DB.Wire
import SVR2.Lib.Runs

/-!
# What a stored row can be

The number of tries that are left is an 8-bit counter.  It is kept from going below zero by three
checks in different places: of the client logs, of the rows that another replica sends, and by the
removal of a row with its last try.
-/

namespace SVR2

open Lib

inductive RowCall (Op : Type) where
  | run (op : Op)
  | load (rows : List Bytes)

theorem ofNat_ne_zero {n : Nat} (hmin : 1 ≤ n) (hmax : n ≤ 255) : UInt8.ofNat n ≠ 0 := by
  intro h0
  have hmod : n % 256 = 0 := congrArg UInt8.toNat h0
  omega

theorem toNat_sub_one {tries : UInt8} (h : tries ≠ 0) : (tries - 1).toNat + 1 = tries.toNat := by
  have hpos : tries.toNat ≠ 0 := fun h0 => h (UInt8.toNat_inj.mp h0)
  have hlt := tries.toNat_lt
  rw [UInt8.toNat_sub, UInt8.toNat_one]
  omega

/-! ### Version 2 -/

namespace DB2

def RowState.Filled (state : RowState) : Prop := state = .populated ∨ state = .available

instance (state : RowState) : Decidable state.Filled :=
  inferInstanceAs (Decidable (_ ∨ _))

structure SoundRow (id : Bytes) (row : Row) : Prop extends ValidRow id row where
  tries : row.tries ≠ 0
  state : row.state.Filled

def Sound (db : DB2) : Prop := ∀ id row, db.rows.find? id = some row → SoundRow id row

theorem soundRow_apply {db : DB2} {op : Op} (hop : op.Valid)
    (h : ∀ row, db.rows.find? op.log.backupId = some row → SoundRow op.log.backupId row) (row : Row)
    (hrow : (db.apply op).rows.find? op.log.backupId = some row) :
    SoundRow op.log.backupId row := by
  have hvalid := validRow_apply hop (fun r hr => (h r hr).toValidRow) row hrow
  by_cases hback : op.Backs op.log.backupId
  · obtain ⟨⟨id, req⟩, verifies⟩ := op
    obtain ⟨data, pin, maxTries, heq⟩ := hback
    cases heq
    simp only [apply, run, DB2.backup, OrdMap.find?_insert, if_true] at hrow
    obtain rfl := Option.some.inj hrow
    simp only [Op.Valid, validateClientLog] at hop
    split_ifs at hop with hid hpin hlong hshort hmax hmin
    exact ⟨hvalid, ofNat_ne_zero (not_lt.mp hmin) (not_lt.mp hmax), Or.inl rfl⟩
  · have hstep := db.rowStep hback
    rw [hrow] at hstep
    generalize hold : db.rows.find? op.log.backupId = old at hstep h
    cases hstep with
    | same => exact h row rfl
    | guess r hr _ _ hpos => exact ⟨hvalid, hpos, (h r hr).state⟩
    | exposed r shown hr => exact ⟨hvalid, (h r hr).tries, Or.inr rfl⟩

theorem Sound.apply {db : DB2} (h : db.Sound) {op : Op} (hop : op.Valid) : (db.apply op).Sound :=
  OrdMap.forall_of_frame (fun _ => apply_find?_of_ne) h (soundRow_apply hop (h _))

variable [Wire DB2RowState]

def call (db : DB2) : RowCall Op → DB2
  | .run op => db.apply op
  | .load rows => (db.loadRowsFromProtos rows).1

/-- A call that succeeds: a valid log, or rows that `LoadRowsFromProtos` accepts. -/
def Succeeds (db : DB2) : RowCall Op → Prop
  | .run op => op.Valid
  | .load rows => (db.loadRowsFromProtos rows).2.2 = .ok

instance (db : DB2) : ∀ c, Decidable (db.Succeeds c)
  | .run op => inferInstanceAs (Decidable op.Valid)
  | .load rows => inferInstanceAs (Decidable ((db.loadRowsFromProtos rows).2.2 = .ok))

/-- What `LoadRowsFromProtos` does not check: every row that is loaded has tries left and is in a
    state in which a backup leaves it. -/
def Checked : RowCall Op → Prop
  | .run _ => True
  | .load rows => ∀ b ∈ rows, ∀ row ∈ (Wire.parse b : Option DB2RowState),
      1 ≤ row.tries ∧ row.state.Filled

instance : ∀ c, Decidable (Checked c)
  | .run _ => .isTrue trivial
  | .load rows => inferInstanceAs (Decidable (∀ b ∈ rows,
      ∀ row ∈ (Wire.parse b : Option DB2RowState), 1 ≤ row.tries ∧ row.state.Filled))

theorem Sound.loadRow {db : DB2} (h : db.Sound) {b : Bytes} {loaded : DB2 × Bytes}
    (hb : ∀ row ∈ (Wire.parse b : Option DB2RowState), 1 ≤ row.tries ∧ row.state.Filled)
    (hload : db.loadRow b = .ok loaded) : loaded.1.Sound := by
  obtain ⟨m, hparse, hvalid, hmax, -, rfl⟩ := loadRow_eq_ok hload
  obtain ⟨hmin, hstate⟩ := hb m hparse
  intro id r hr
  rw [OrdMap.find?_insert] at hr
  split_ifs at hr with hkey
  · cases hr
    subst hkey
    exact ⟨hvalid, ofNat_ne_zero hmin hmax, hstate⟩
  · exact h id r hr

theorem loadRowsFromProtos_fst (db : DB2) (rows : List Bytes) :
    (db.loadRowsFromProtos rows).1 = (loadAll loadRow db [] rows).1 := by
  rw [loadRowsFromProtos, loadRows_eq]
  split_ifs with hrows
  · rw [hrows]
    rfl
  split
  · rename_i heq
    rw [heq]
    split_ifs <;> rfl
  · rfl

theorem Sound.call {db : DB2} (h : db.Sound) {c : RowCall Op} (hc : db.Succeeds c)
    (hchecked : Checked c) : (db.call c).Sound := by
  cases c with
  | run op => exact h.apply hc
  | load rows =>
    rw [DB2.call, loadRowsFromProtos_fst]
    exact loadAll_invariant (fun _ b hb _ hdb hload => hdb.loadRow (hchecked b hb) hload) h []

theorem validRow_load {db : DB2} (hdb : ∀ id row, db.rows.find? id = some row → ValidRow id row)
    (rows : List Bytes) : ∀ id row, (db.loadRowsFromProtos rows).1.rows.find? id = some row →
      ValidRow id row := by
  rw [loadRowsFromProtos_fst]
  refine loadAll_invariant
    (P := fun db : DB2 => ∀ id row, db.rows.find? id = some row → ValidRow id row)
    (fun db b _ loaded hdb hload => ?_) hdb []
  obtain ⟨m, -, hvalid, -, -, rfl⟩ := loadRow_eq_ok hload
  intro id row hrow
  rw [OrdMap.find?_insert] at hrow
  split_ifs at hrow with hkey
  · cases hrow
    exact hkey ▸ hvalid
  · exact hdb id row hrow

theorem loadsValid [Wire Log2] : RowDatabase.LoadsValid DB2 := fun _ rows hdb => validRow_load hdb rows

/-- Every row that runs and loads leave is one that a client could have stored, up to its tries and
    its state. -/
theorem validRow_calls {calls : List (RowCall Op)} (h : Along call Succeeds newDB calls) :
    ∀ id row, (calls.foldl call newDB).rows.find? id = some row → ValidRow id row := by
  refine h.invariant (P := fun db => ∀ id row, db.rows.find? id = some row → ValidRow id row) ?_
    fun _ _ h => by cases h
  rintro db (op | rows) hdb hc
  · exact OrdMap.forall_of_frame (fun _ => apply_find?_of_ne) hdb (validRow_apply hc (hdb _))
  · exact validRow_load hdb rows

end DB2

/-! ### Version 3 -/

namespace DB3

def Sound (db : DB3) : Prop := ∀ id row, db.rows.find? id = some row → ValidRow id row

theorem Sound.apply [Ristretto] {db : DB3} (h : db.Sound) {op : Op} (hop : op.Valid) :
    (db.apply op).Sound :=
  OrdMap.forall_of_frame (fun _ => apply_find?_of_ne) h (validRow_apply hop (h _))

theorem length_of_stringToByteArray {n : Nat} {b array : Bytes}
    (h : stringToByteArray n b = .ok array) : array.length = n := by
  rw [stringToByteArray] at h
  split_ifs at h with hlong
  cases h
  rw [List.length_append, List.length_replicate]
  omega

variable [Wire DB3RowState]

theorem Sound.loadRow {db : DB3} (h : db.Sound) {b : Bytes} {loaded : DB3 × Bytes}
    (hload : db.loadRow b = .ok loaded) : loaded.1.Sound := by
  obtain ⟨m, key, priv, -, htries, hkey, hpriv, -, rfl⟩ := loadRow_eq_ok hload
  intro id r hr
  rw [OrdMap.find?_insert] at hr
  split_ifs at hr with hid
  · cases hr
    subst hid
    exact ⟨length_of_stringToByteArray hkey, length_of_stringToByteArray hpriv,
      ofNat_ne_zero htries.1 htries.2⟩
  · exact h id r hr

theorem loadRowsFromProtos_fst (db : DB3) (rows : List Bytes) :
    (db.loadRowsFromProtos rows).1 = (loadAll loadRow db [] rows).1 := by
  rw [loadRowsFromProtos, loadRows_eq]
  split
  · rename_i heq
    rw [heq]
    split_ifs <;> rfl
  · rfl

theorem Sound.load {db : DB3} (h : db.Sound) (rows : List Bytes) :
    (db.loadRowsFromProtos rows).1.Sound := by
  rw [loadRowsFromProtos_fst]
  exact loadAll_invariant (fun _ _ _ _ hdb hload => hdb.loadRow hload) h []

variable [Ristretto]

theorem loadsValid [Wire Log3] : RowDatabase.LoadsValid DB3 := fun _ rows hdb => Sound.load hdb rows

def call (db : DB3) : RowCall Op → DB3
  | .run op => db.apply op
  | .load rows => (db.loadRowsFromProtos rows).1

def Succeeds (db : DB3) : RowCall Op → Prop
  | .run op => op.Valid
  | .load rows => (db.loadRowsFromProtos rows).2.2 = .ok

instance (db : DB3) : ∀ c, Decidable (db.Succeeds c)
  | .run op => inferInstanceAs (Decidable op.Valid)
  | .load rows => inferInstanceAs (Decidable ((db.loadRowsFromProtos rows).2.2 = .ok))

theorem Sound.call {db : DB3} (h : db.Sound) {c : RowCall Op} (hc : db.Succeeds c) :
    (db.call c).Sound := by
  cases c with
  | run op => exact h.apply hc
  | load rows => exact h.load rows

theorem sound_calls {calls : List (RowCall Op)} (h : Along call Succeeds newDB calls) :
    (calls.foldl call newDB).Sound :=
  h.invariant (P := Sound) (fun _ _ hdb hc => hdb.call hc) fun _ _ h => by cases h

end DB3

/-! ### Runs -/

/-- In every run every stored row has between 1 and 255 tries left, which the next decrement does not
    take below zero, and a row of version 2 is filled and has data of a size that clients can send.
    In version 2 the rows that are loaded have to meet what `LoadRowsFromProtos` does not check. -/
theorem stored_rows_in_bounds [Wire DB2.DB2RowState] [Ristretto] [Wire DB3.DB3RowState] :
    (∀ calls, Along DB2.call (fun db c => db.Succeeds c ∧ DB2.Checked c) DB2.newDB calls →
      ∀ id row, (calls.foldl DB2.call DB2.newDB).rows.find? id = some row →
        1 ≤ row.tries.toNat ∧ row.tries.toNat ≤ 255 ∧ row.state.Filled ∧
        16 ≤ row.data.length ∧ row.data.length ≤ 48 ∧ (row.tries - 1).toNat + 1 = row.tries.toNat) ∧
    ∀ calls, Along DB3.call DB3.Succeeds DB3.newDB calls →
      ∀ id row, (calls.foldl DB3.call DB3.newDB).rows.find? id = some row →
        1 ≤ row.tries.toNat ∧ row.tries.toNat ≤ 255 ∧
        (row.tries - 1).toNat + 1 = row.tries.toNat := by
  refine ⟨fun calls hcalls id row hrow => ?_, fun calls hcalls id row hrow => ?_⟩
  · have hsound : (calls.foldl DB2.call DB2.newDB).Sound :=
      hcalls.invariant (P := DB2.Sound) (fun _ _ hdb hc => hdb.call hc.1 hc.2) (fun _ _ h => nomatch h)
    obtain ⟨⟨-, -, hmin, hmax⟩, htries, hstate⟩ := hsound id row hrow
    have hwrap := toNat_sub_one htries
    have hlt := row.tries.toNat_lt
    exact ⟨by omega, by omega, hstate, hmin, hmax, hwrap⟩
  · have hwrap := toNat_sub_one (DB3.sound_calls hcalls id row hrow).tries
    have hlt := row.tries.toNat_lt
    exact ⟨by omega, by omega, hwrap⟩

namespace Sample

/-- A row that another replica sends, with a backup id of sixteen zeros and a PIN of ones. -/
def sentRow (tries : Nat) (state : DB2.RowState) : DB2.DB2RowState where
  backupId := .replicate 16 0
  tries := tries
  data := .replicate 16 7
  pin := .replicate 32 1
  state := state

def wrongPin : DB2.Op := ⟨⟨.replicate 16 0, .restore (.replicate 32 2)⟩, true⟩

def loadedThenGuessed (tries : Nat) (state : DB2.RowState) : List (RowCall DB2.Op) :=
  [.load [Wire.serialize (sentRow tries state)], .run wrongPin]

theorem stored_rows_in_bounds_guessed : ∃ row,
    ((loadedThenGuessed 3 .available).foldl DB2.call DB2.newDB).rows.find? (.replicate 16 0) =
      some row ∧ 1 ≤ row.tries.toNat ∧ (row.tries - 1).toNat + 1 = row.tries.toNat := by
  have := DB3.sampleRistretto
  have hcalls : Along DB2.call (fun db c => db.Succeeds c ∧ DB2.Checked c) DB2.newDB
      (loadedThenGuessed 3 .available) := by decide +kernel
  obtain ⟨row, hrow⟩ : ∃ row, ((loadedThenGuessed 3 .available).foldl DB2.call DB2.newDB).rows.find?
      (.replicate 16 0) = some row := Option.isSome_iff_exists.mp (by decide +kernel)
  obtain ⟨hmin, -, -, -, -, hwrap⟩ := stored_rows_in_bounds.1 _ hcalls _ row hrow
  exact ⟨row, hrow, hmin, hwrap⟩

/-- Version 2 accepts a row without tries, and one that was never filled; the next wrong PIN takes
    the counter of the first to 255. -/
theorem loaded_row_wraps :
    Along DB2.call DB2.Succeeds DB2.newDB (loadedThenGuessed 0 .available) ∧
      ((DB2.newDB.call (.load [Wire.serialize (sentRow 0 .available)])).rows.find?
        (.replicate 16 0)).map (·.tries) = some 0 ∧
      (((loadedThenGuessed 0 .available).foldl DB2.call DB2.newDB).rows.find?
        (.replicate 16 0)).map (·.tries) = some 255 ∧
      DB2.newDB.Succeeds (.load [Wire.serialize (sentRow 3 .uninitiated)]) := by
  decide +kernel

end Sample

end SVR2
