import SVR2.DB.DB2Guesses
import SVR2.DB.DB3Guesses

/-!
# Databases made of rows

What moving a database row by row rests on: a client log works on the row of its own key, and a row
that was serialised is loaded again as it was, after all rows with smaller keys.
-/

namespace SVR2

open Lib

/-- The loop of `LoadRowsFromProtos` where no row fails: the rows in, and the key of the last. -/
def loadEach {DB : Type} (loadRow : DB → Bytes → Except Error (DB × Bytes)) :
    DB → Bytes → List Bytes → Option (DB × Bytes)
  | db, last, [] => some (db, last)
  | db, _, bytes :: rest =>
    match loadRow db bytes with
    | .error _ => none
    | .ok (db, key) => loadEach loadRow db key rest

/-- The loop of `LoadRowsFromProtos`, over the way in which a version loads one row. -/
def loadAll {DB : Type} (loadRow : DB → Bytes → Except Error (DB × Bytes)) :
    DB → Bytes → List Bytes → DB × Bytes × Error
  | db, last, [] => (db, last, .ok)
  | db, _, bytes :: rest =>
    match loadRow db bytes with
    | .error err => (db, [], err)
    | .ok (db, key) => loadAll loadRow db key rest

section

variable {DB : Type} {loadRow : DB → Bytes → Except Error (DB × Bytes)} {db : DB}
  {rows : List Bytes}

theorem loadAll_of_loadEach {db' : DB} {start last : Bytes}
    (h : loadEach loadRow db start rows = some (db', last)) :
    loadAll loadRow db start rows = (db', last, .ok) := by
  induction rows generalizing db start with
  | nil =>
    cases h
    rfl
  | cons b rows ih =>
    rw [loadEach] at h
    rw [loadAll]
    cases hload : loadRow db b with
    | error err =>
      rw [hload] at h
      cases h
    | ok loaded =>
      rw [hload] at h
      exact ih h

/-- What every row that is loaded preserves holds after the loop, also after one that fails. -/
theorem loadAll_invariant {P : DB → Prop}
    (hrow : ∀ db, ∀ b ∈ rows, ∀ loaded, P db → loadRow db b = .ok loaded → P loaded.1)
    (h : P db) (start : Bytes) : P (loadAll loadRow db start rows).1 := by
  induction rows generalizing db start with
  | nil => exact h
  | cons b rows ih =>
    rw [loadAll]
    cases hload : loadRow db b with
    | error err => exact h
    | ok loaded =>
      exact ih (fun db b' hb' => hrow db b' (List.mem_cons_of_mem b hb'))
        (hrow db b List.mem_cons_self loaded h hload) loaded.2

end

/-- No key of the map is as large as one above all of them: the order check of a row. -/
theorem not_getLast?_ge {β : Type} {m : OrdMap Bytes β} {k : Bytes} (h : ∀ k' ∈ m, k' < k) :
    ¬(m.toList.getLast?.any fun e => k ≤ e.1) = true := by
  intro hany
  obtain ⟨e, he, hge⟩ := Option.any_eq_true _ _ |>.mp hany
  have hmem : e.1 ∈ m := OrdMap.mem_iff.mpr ⟨e.2, OrdMap.mem_toList.mp (List.mem_of_getLast? he)⟩
  exact absurd (of_decide_eq_true hge) (not_le.mpr (h _ hmem))

/-- A key that passes the order check of a row is above all of them. -/
theorem forall_lt_of_getLast? {β : Type} {m : OrdMap Bytes β} {k : Bytes}
    (h : ¬(m.toList.getLast?.any fun e => k ≤ e.1) = true) : ∀ k' ∈ m, k' < k := by
  intro k' hk'
  obtain ⟨v, hv⟩ := OrdMap.mem_iff.mp hk'
  have hmem := OrdMap.mem_toList.mpr hv
  obtain ⟨e, he⟩ : ∃ e, m.toList.getLast? = some e :=
    ⟨_, List.getLast?_eq_some_getLast (List.ne_nil_of_mem hmem)⟩
  obtain ⟨init, hinit⟩ := List.getLast?_eq_some_iff.mp he
  have hlast : e.1 < k := by
    refine not_le.mp fun hle => h ?_
    rw [he, Option.any_some]
    exact decide_eq_true hle
  have hsorted := m.sorted
  rw [hinit] at hmem hsorted
  rcases List.mem_append.mp hmem with hin | hin
  · exact ((List.pairwise_append.mp hsorted).2.2 _ hin e (List.mem_singleton_self e)).trans hlast
  · obtain rfl := List.mem_singleton.mp hin
    exact hlast

/-- The rows that `RowsAsProtos` goes through: all, or those after a key. -/
theorem filter_after {β : Type} (l : List (Bytes × β)) (start : Bytes) :
    (l.filter fun e => start = [] ∨ start < e.1) =
      if start = [] then l else l.filter fun e => start < e.1 := by
  by_cases hstart : start = []
  · simp [hstart]
  · simp [hstart]

class RowDatabase (DB : Type) [Database DB] where
  Row : Type
  rows : DB → OrdMap Bytes Row
  rows_injective : Function.Injective rows
  rows_newDB : rows Database.newDB = ∅
  /-- What client logs leave in a row. -/
  ValidRow : Bytes → Row → Prop
  rowAsProto : Bytes → Row → Bytes
  loadRow : DB → Bytes → Except Error (DB × Bytes)
  key_ne_nil : ∀ {k : Bytes} {row : Row}, ValidRow k row → k ≠ []
  find?_run_of_ne : ∀ (db : DB) {log : Database.ClientLog DB} {k : Bytes},
    Database.logKey log ≠ k → (rows (Database.run db log).1).find? k = (rows db).find? k
  find?_run_congr : ∀ {db db' : DB} {log : Database.ClientLog DB},
    (rows db).find? (Database.logKey log) = (rows db').find? (Database.logKey log) →
      (rows (Database.run db log).1).find? (Database.logKey log) =
        (rows (Database.run db' log).1).find? (Database.logKey log)
  validRow_run : ∀ {db : DB} {log : Database.ClientLog DB},
    Database.validateClientLog log = .ok →
      (∀ row, (rows db).find? (Database.logKey log) = some row →
        ValidRow (Database.logKey log) row) →
      ∀ row, (rows (Database.run db log).1).find? (Database.logKey log) = some row →
        ValidRow (Database.logKey log) row
  loadRow_rowAsProto : ∀ {db : DB} {k : Bytes} {row : Row}, ValidRow k row →
    (∀ k' ∈ rows db, k' < k) →
      ∃ db', loadRow db (rowAsProto k row) = .ok (db', k) ∧ rows db' = (rows db).insert k row
  rowsAsProtos_eq : ∀ (db : DB) {start : Bytes} (size : Nat),
    (start = [] ∨ ∃ row, ValidRow start row) →
      Database.rowsAsProtos db start size =
        let page := (((rows db).toList.filter fun e => start = [] ∨ start < e.1).take size)
        .ok (page.map fun e => rowAsProto e.1 e.2, (page.getLast?.map (·.1)).getD [])
  loadRowsFromProtos_eq : ∀ {db db' : DB} {bytes : List Bytes} {last : Bytes}, bytes ≠ [] →
    loadEach loadRow db [] bytes = some (db', last) →
      (rows db').size = (rows db).size + bytes.length →
        Database.loadRowsFromProtos db bytes = (db', last, .ok)

namespace RowDatabase

variable {DB : Type} [Database DB] [RowDatabase DB]

/-- All rows are what client logs leave. -/
def Valid (db : DB) : Prop := ∀ k row, (rows db).find? k = some row → ValidRow k row

theorem valid_newDB : Valid (Database.newDB : DB) := by
  intro k row h
  rw [rows_newDB] at h
  cases h

theorem Valid.run {db : DB} (h : Valid db) {log : Database.ClientLog DB}
    (hlog : Database.validateClientLog log = .ok) : Valid (Database.run db log).1 :=
  OrdMap.forall_of_frame (fun _ => find?_run_of_ne db) h (validRow_run hlog (h _))

def LoadsValid (DB : Type) [Database DB] [RowDatabase DB] : Prop :=
  ∀ (db : DB) (rows : List Bytes), Valid db → Valid (Database.loadRowsFromProtos db rows).1

/-- Rows in order of their keys, after all that are there, are loaded one after the other. -/
theorem loadEach_rowAsProto (l : List (Bytes × Row DB)) (db : DB) (last : Bytes)
    (hsorted : l.Pairwise fun a b => a.1 < b.1) (hvalid : ∀ e ∈ l, ValidRow e.1 e.2)
    (hlt : ∀ k ∈ rows db, ∀ e ∈ l, k < e.1) :
    ∃ db', loadEach loadRow db last (l.map fun e => rowAsProto e.1 e.2) =
        some (db', (l.getLast?.map (·.1)).getD last) ∧
      (rows db').toList = (rows db).toList ++ l := by
  induction l generalizing db last with
  | nil => exact ⟨db, rfl, (List.append_nil _).symm⟩
  | cons e l ih =>
    obtain ⟨hfirst, hsorted⟩ := List.pairwise_cons.mp hsorted
    have he : ∀ k ∈ rows db, k < e.1 := fun k hk => hlt k hk e List.mem_cons_self
    obtain ⟨db₁, hload, hrows⟩ :=
      loadRow_rowAsProto (hvalid e List.mem_cons_self) he
    have hlt₁ : ∀ k ∈ rows db₁, ∀ e' ∈ l, k < e'.1 := by
      intro k hk e' he'
      rw [hrows, OrdMap.mem_insert] at hk
      rcases hk with rfl | hk
      · exact hfirst e' he'
      · exact hlt k hk e' (List.mem_cons_of_mem e he')
    obtain ⟨db', hrest, htoList⟩ :=
      ih db₁ e.1 hsorted (fun e' he' => hvalid e' (List.mem_cons_of_mem e he')) hlt₁
    refine ⟨db', ?_, ?_⟩
    · rw [List.map_cons, loadEach, hload]
      dsimp only
      rw [hrest]
      cases l with
      | nil => rfl
      | cons e' l => rfl
    · rw [htoList, hrows, OrdMap.toList_insert_of_lt _ he, List.append_assoc]
      rfl

theorem loadRowsFromProtos_rowAsProto {l : List (Bytes × Row DB)} (hl : l ≠ []) (db : DB)
    (hsorted : l.Pairwise fun a b => a.1 < b.1) (hvalid : ∀ e ∈ l, ValidRow e.1 e.2)
    (hlt : ∀ k ∈ rows db, ∀ e ∈ l, k < e.1) :
    ∃ db', Database.loadRowsFromProtos db (l.map fun e => rowAsProto e.1 e.2) =
        (db', (l.getLast?.map (·.1)).getD [], .ok) ∧
      (rows db').toList = (rows db).toList ++ l := by
  obtain ⟨db', hload, htoList⟩ := loadEach_rowAsProto l db [] hsorted hvalid hlt
  refine ⟨db', loadRowsFromProtos_eq (mt List.map_eq_nil_iff.mp hl) hload ?_, htoList⟩
  rw [OrdMap.size, OrdMap.size, htoList, List.length_append, List.length_map]

/-! ### The database up to a key -/

def upTo (db : DB) (largest : Bytes) : OrdMap Bytes (Row DB) :=
  (rows db).filterKeys fun k => k ≤ largest

theorem upTo_nil {db : DB} (h : Valid db) : upTo db [] = ∅ := by
  refine OrdMap.ext_find? fun k => ?_
  rw [upTo, OrdMap.find?_filterKeys, OrdMap.find?_empty]
  split_ifs with hk
  · obtain rfl : k = [] := by
      cases k with
      | nil => rfl
      | cons b k => exact absurd (of_decide_eq_true hk) (not_le.mpr (List.nil_lt_cons b k))
    cases hrow : (rows db).find? [] with
    | none => rfl
    | some row => exact absurd rfl (key_ne_nil (h _ row hrow))
  · rfl

theorem upTo_of_forall_le {db : DB} {largest : Bytes} (h : ∀ k ∈ rows db, k ≤ largest) :
    upTo db largest = rows db := by
  refine OrdMap.ext_find? fun k => ?_
  rw [upTo, OrdMap.find?_filterKeys]
  split_ifs with hk
  · rfl
  · have hmem : k ∉ rows db := fun hmem => hk (decide_eq_true (h k hmem))
    exact (OrdMap.not_mem_iff.mp hmem).symm

/-- An entry for a key that has been loaded does the same to the part that has been loaded. -/
theorem upTo_run_of_le {part db : DB} {largest : Bytes} (h : rows part = upTo db largest)
    {log : Database.ClientLog DB} (hkey : Database.logKey log ≤ largest) :
    rows (Database.run part log).1 = upTo (Database.run db log).1 largest := by
  have hfind : ∀ k, (rows part).find? k = if k ≤ largest then (rows db).find? k else none := by
    intro k
    rw [h, upTo, OrdMap.find?_filterKeys]
    simp only [decide_eq_true_eq]
  refine OrdMap.ext_find? fun k => ?_
  rw [upTo, OrdMap.find?_filterKeys]
  simp only [decide_eq_true_eq]
  by_cases hk : Database.logKey log = k
  · subst hk
    rw [if_pos hkey]
    refine find?_run_congr ?_
    rw [hfind, if_pos hkey]
  · rw [find?_run_of_ne part hk, find?_run_of_ne db hk, hfind]

/-- An entry for a key that has not been loaded leaves the part that has been loaded. -/
theorem upTo_run_of_lt {db : DB} {largest : Bytes} {log : Database.ClientLog DB}
    (hkey : largest < Database.logKey log) :
    upTo (Database.run db log).1 largest = upTo db largest := by
  refine OrdMap.ext_find? fun k => ?_
  rw [upTo, upTo, OrdMap.find?_filterKeys, OrdMap.find?_filterKeys]
  simp only [decide_eq_true_eq]
  split_ifs with hk
  · exact find?_run_of_ne db (ne_of_gt (lt_of_le_of_lt hk hkey))
  · rfl

/-- The rows after a key, up to another. -/
def between (db : DB) (largest last : Bytes) : OrdMap Bytes (Row DB) :=
  (rows db).filterKeys fun k => largest < k ∧ k ≤ last

theorem between_self (db : DB) (largest : Bytes) : (between db largest largest).toList = [] := by
  refine List.filter_eq_nil_iff.mpr fun e _ h => ?_
  obtain ⟨hlt, hle⟩ := of_decide_eq_true h
  exact absurd hlt (not_lt.mpr hle)

theorem find?_of_mem_between {db : DB} {largest last : Bytes} {e : Bytes × Row DB}
    (h : e ∈ (between db largest last).toList) : (rows db).find? e.1 = some e.2 :=
  OrdMap.mem_toList.mp (List.mem_of_mem_filter h)

theorem lt_of_upTo_between {db : DB} {largest last k : Bytes} {e : Bytes × Row DB}
    (hk : k ∈ upTo db largest) (he : e ∈ (between db largest last).toList) : k < e.1 :=
  lt_of_le_of_lt (of_decide_eq_true (OrdMap.mem_filterKeys.mp hk).1)
    (of_decide_eq_true (List.mem_filter.mp he).2).1

theorem getLast?_between {db : DB} {largest last : Bytes} (hlt : largest < last)
    (hmem : last ∈ rows db) : (between db largest last).toList.getLast?.map (·.1) = some last := by
  refine OrdMap.getLast?_toList (OrdMap.mem_filterKeys.mpr ⟨?_, hmem⟩) fun k hk => ?_
  · exact decide_eq_true ⟨hlt, le_refl last⟩
  · exact (of_decide_eq_true (OrdMap.mem_filterKeys.mp hk).1).2

/-- What has been loaded and the rows that come next, up to the last of these. -/
theorem upTo_append_between (db : DB) {largest last : Bytes} (h : largest ≤ last) :
    ((upTo db largest).toList ++ (between db largest last).toList).Perm (upTo db last).toList := by
  have hloaded : (upTo db last).toList.filter (fun e => e.1 ≤ largest) =
      (upTo db largest).toList := by
    rw [upTo, upTo, OrdMap.filterKeys, OrdMap.filterKeys, List.filter_filter]
    refine List.filter_congr fun e _ => ?_
    rw [← Bool.decide_and]
    exact decide_eq_decide.mpr ⟨fun he => he.1, fun he => ⟨he, he.trans h⟩⟩
  have hnext : (upTo db last).toList.filter (fun e => !decide (e.1 ≤ largest)) =
      (between db largest last).toList := by
    rw [upTo, between, OrdMap.filterKeys, OrdMap.filterKeys, List.filter_filter]
    refine List.filter_congr fun e _ => ?_
    rw [← decide_not, ← Bool.decide_and]
    exact decide_eq_decide.mpr (and_congr_left' not_le)
  rw [← hloaded, ← hnext]
  exact List.filter_append_perm _ _

/-- The beginning of a sorted list is what comes up to its last key. -/
theorem take_eq_filter {α : Type} {l : List (Bytes × α)} (hsorted : l.Pairwise fun a b => a.1 < b.1)
    {size : Nat} {e : Bytes × α} (hlast : (l.take size).getLast? = some e) :
    l.filter (fun e' => e'.1 ≤ e.1) = l.take size := by
  obtain ⟨init, htake⟩ := List.getLast?_eq_some_iff.mp hlast
  rw [← List.take_append_drop size l] at hsorted
  obtain ⟨hpage, -, hpost⟩ := List.pairwise_append.mp hsorted
  conv_lhs => rw [← List.take_append_drop size l, List.filter_append]
  rw [List.filter_eq_self.mpr, List.filter_eq_nil_iff.mpr, List.append_nil]
  · intro e' he' hle
    have hlt := hpost e (List.mem_of_getLast? hlast) e' he'
    exact absurd (of_decide_eq_true hle) (not_le.mpr hlt)
  · intro e' he'
    rw [htake] at he' hpage
    rcases List.mem_append.mp he' with he' | he'
    · exact decide_eq_true ((List.pairwise_append.mp hpage).2.2 e' he' e (List.mem_singleton_self e)).le
    · rw [List.mem_singleton.mp he']
      exact decide_eq_true le_rfl

theorem nil_lt_key {db : DB} (h : Valid db) {e : Bytes × Row DB} (he : e ∈ (rows db).toList) :
    [] < e.1 := by
  have hne := key_ne_nil (h e.1 e.2 (OrdMap.mem_toList.mp he))
  cases hkey : e.1 with
  | nil => exact absurd hkey hne
  | cons b k => exact List.nil_lt_cons b k

theorem rowsAsProtos_between {db : DB} (h : Valid db) {start : Bytes}
    (hstart : start = [] ∨ ∃ row : Row DB, ValidRow start row) (size : Nat) :
    ∃ hi last, Database.rowsAsProtos db start size =
        .ok ((between db start hi).toList.map fun e => rowAsProto e.1 e.2, last) ∧
      (hi = start ∧ last = [] ∨ start < hi ∧ hi ∈ rows db ∧ last = hi) := by
  have hpage := rowsAsProtos_eq db size hstart
  dsimp only at hpage
  have hafter : ∀ e ∈ (rows db).toList, (start = [] ∨ start < e.1) ↔ start < e.1 := by
    intro e he
    refine ⟨?_, .inr⟩
    rintro (rfl | hlt)
    · exact nil_lt_key h he
    · exact hlt
  rw [List.filter_congr fun e he => decide_eq_decide.mpr (hafter e he)] at hpage
  cases hlast : (((rows db).toList.filter fun e => start < e.1).take size).getLast? with
  | none =>
    refine ⟨start, [], ?_, .inl ⟨rfl, rfl⟩⟩
    rw [hpage, between_self, hlast, List.getLast?_eq_none_iff.mp hlast]
    rfl
  | some e =>
    have he : e ∈ (rows db).toList.filter fun e => start < e.1 :=
      List.mem_of_mem_take (List.mem_of_getLast? hlast)
    obtain ⟨hmem, hlt⟩ := List.mem_filter.mp he
    have hbetween : (between db start e.1).toList =
        ((rows db).toList.filter fun e => start < e.1).take size := by
      rw [← take_eq_filter ((rows db).sorted.filter _) hlast, List.filter_filter]
      refine List.filter_congr fun e' _ => ?_
      rw [← Bool.decide_and]
      exact decide_eq_decide.mpr and_comm
    refine ⟨e.1, e.1, ?_, .inr ⟨of_decide_eq_true hlt, ?_, rfl⟩⟩
    · rw [hpage, hbetween, hlast]
      rfl
    · exact OrdMap.mem_keys.mp (List.mem_map_of_mem hmem)
end RowDatabase

/-! ### Version 2 -/

namespace DB2

/-- What `ValidateClientLog` admits into a row. -/
structure ValidRow (id : Bytes) (row : Row) : Prop where
  id : id.length = BACKUP_ID_SIZE
  pin : row.pin.length = PIN_SIZE
  minData : MIN_DATA_SIZE ≤ row.data.length
  maxData : row.data.length ≤ MAX_DATA_SIZE

theorem ValidRow.congr {id : Bytes} {row row' : Row} (h : ValidRow id row)
    (hpin : row'.pin = row.pin) (hdata : row'.data = row.data) : ValidRow id row' :=
  ⟨h.id, hpin ▸ h.pin, hdata ▸ h.minData, hdata ▸ h.maxData⟩

theorem validRow_apply {db : DB2} {op : Op} (hop : op.Valid)
    (h : ∀ row, db.rows.find? op.log.backupId = some row → ValidRow op.log.backupId row) (row : Row)
    (hrow : (db.apply op).rows.find? op.log.backupId = some row) :
    ValidRow op.log.backupId row := by
  by_cases hback : op.Backs op.log.backupId
  · obtain ⟨⟨id, req⟩, verifies⟩ := op
    obtain ⟨data, pin, maxTries, heq⟩ := hback
    cases heq
    simp only [apply, run, DB2.backup, OrdMap.find?_insert, if_true] at hrow
    obtain rfl := Option.some.inj hrow
    simp only [Op.Valid, validateClientLog] at hop
    split_ifs at hop with hid hpin hmax hmin
    exact ⟨not_not.mp hid, not_not.mp hpin, not_lt.mp hmin, not_lt.mp hmax⟩
  · have hstep := db.rowStep hback
    rw [hrow] at hstep
    generalize hold : db.rows.find? op.log.backupId = old at hstep h
    cases hstep with
    | same => exact h row rfl
    | guess r hr => exact (h r hr).congr rfl rfl
    | exposed r shown hr => exact (h r hr).congr rfl rfl

variable [Wire DB2RowState]

theorem loadRow_rowAsProto {db : DB2} {id : Bytes} {row : Row} (h : ValidRow id row)
    (hlt : ∀ id' ∈ db.rows, id' < id) :
    db.loadRow (Wire.serialize (rowAsProto id row)) = .ok (⟨db.rows.insert id row⟩, id) := by
  have hfields : ¬(MAX_ALLOWED_MAX_TRIES < row.tries.toNat ∨ row.pin.length ≠ PIN_SIZE ∨
      row.data.length < MIN_DATA_SIZE ∨ MAX_DATA_SIZE < row.data.length) := by
    have htries := row.tries.toNat_lt
    rintro (hmax | hpin | hmin | hmax)
    · rw [MAX_ALLOWED_MAX_TRIES] at hmax
      omega
    · exact hpin h.pin
    · exact absurd h.minData (not_le.mpr hmin)
    · exact absurd h.maxData (not_le.mpr hmax)
  rw [loadRow, Wire.parse_serialize]
  dsimp only [rowAsProto]
  rw [if_neg hfields, if_neg (not_not.mpr h.id), if_neg (not_getLast?_ge hlt), UInt8.ofNat_toNat]

def DB2RowState.row (m : DB2RowState) : Row where
  state := m.state
  tries := UInt8.ofNat m.tries
  data := m.data
  pin := m.pin

/-- What `LoadRowsFromProtos` has checked of a message, and what it makes of it. -/
theorem loadRow_eq_ok {db : DB2} {b : Bytes} {loaded : DB2 × Bytes}
    (h : db.loadRow b = .ok loaded) :
    ∃ m : DB2RowState, Wire.parse b = some m ∧ ValidRow m.backupId m.row ∧ m.tries ≤ 255 ∧
      (∀ id ∈ db.rows, id < m.backupId) ∧
      loaded = (⟨db.rows.insert m.backupId m.row⟩, m.backupId) := by
  rw [loadRow] at h
  split at h
  · cases h
  rename_i m hparse
  split_ifs at h with hfields hid horder
  simp only [not_or, not_lt, not_not] at hfields
  exact ⟨m, hparse, ⟨not_not.mp hid, hfields.2.1, hfields.2.2.1, hfields.2.2.2⟩, hfields.1,
    forall_lt_of_getLast? horder, (Except.ok.inj h).symm⟩

theorem loadRows_eq (db : DB2) (start : Bytes) (rows : List Bytes) :
    db.loadRows start rows = loadAll loadRow db start rows := by
  induction rows generalizing db start with
  | nil => rfl
  | cons b rows ih =>
    rw [loadRows, loadAll]
    cases db.loadRow b with
    | error err => rfl
    | ok loaded => exact ih loaded.1 loaded.2

instance [Wire Log2] : RowDatabase DB2 where
  Row := Row
  rows := DB2.rows
  rows_injective := fun db db' h => by cases db; cases db'; exact congrArg _ h
  rows_newDB := rfl
  ValidRow := ValidRow
  rowAsProto id row := Wire.serialize (rowAsProto id row)
  loadRow := loadRow
  key_ne_nil h := by
    rintro rfl
    cases h.id
  find?_run_of_ne _ log k h := apply_find?_of_ne (show (Op.mk log true).log.backupId ≠ k from h)
  find?_run_congr {db db' log} h :=
    have hrow : db.rows.find? (Op.mk log true).log.backupId = db'.rows.find? log.backupId := h
    (run_congr hrow).2
  validRow_run {_ log} hlog h := validRow_apply (show Op.Valid ⟨log, true⟩ from hlog) h
  loadRow_rowAsProto h hlt := ⟨_, loadRow_rowAsProto h hlt, rfl⟩
  rowsAsProtos_eq db start size hstart := by
    have hsize : ¬(start ≠ [] ∧ start.length ≠ BACKUP_ID_SIZE) := by
      rintro ⟨hne, hlen⟩
      rcases hstart with hnil | ⟨row, hrow⟩
      · exact hne hnil
      · exact hlen hrow.id
    change rowsAsProtos db start size = _
    rw [rowsAsProtos, if_neg hsize, ← filter_after]
  loadRowsFromProtos_eq hrows h hsize := by
    change loadRowsFromProtos _ _ = _
    rw [loadRowsFromProtos, if_neg hrows, loadRows_eq, loadAll_of_loadEach h]
    dsimp only
    rw [if_neg (not_not.mpr hsize)]

end DB2

/-! ### Version 3 -/

namespace DB3

/-- What `ValidateClientLog` admits into a row; an evaluation drops the row with its last try. -/
structure ValidRow (id : Bytes) (row : Row) : Prop where
  id : id.length = BACKUP_ID_SIZE
  priv : row.priv.length = SCALAR_SIZE
  tries : row.tries ≠ 0

theorem validRow_apply [Ristretto] {db : DB3} {op : Op} (hop : op.Valid)
    (h : ∀ row, db.rows.find? op.log.backupId = some row → ValidRow op.log.backupId row) (row : Row)
    (hrow : (db.apply op).rows.find? op.log.backupId = some row) :
    ValidRow op.log.backupId row := by
  have hstep := db.rowStep op
  rw [hrow] at hstep
  generalize hrow' : some row = row' at hstep
  cases hstep with
  | same => exact h row hrow'.symm
  | created maxTries blindedElement priv element hreq hpriv =>
    cases hrow'
    obtain ⟨⟨id, req, privkey⟩, verifies⟩ := op
    cases hreq
    simp only [Op.Valid, validateClientLog] at hop
    split_ifs at hop with hid htries helt hsize
    obtain rfl := Except.ok.inj ((stringToByteArray_of_length (not_not.mp hsize)).symm.trans hpriv)
    refine ⟨not_not.mp hid, not_not.mp hsize, fun h0 => ?_⟩
    have hmod : maxTries % 256 = 0 := congrArg UInt8.toNat h0
    omega
  | evaluated r _ _ hr =>
    split_ifs at hrow' with hlast
    cases hrow'
    exact ⟨(h r hr).id, (h r hr).priv, hlast⟩
  | removed => cases hrow'

variable [Wire DB3RowState]

theorem loadRow_rowAsProto {db : DB3} {id : Bytes} {row : Row} (h : ValidRow id row)
    (hlt : ∀ id' ∈ db.rows, id' < id) :
    db.loadRow (Wire.serialize (rowAsProto id row)) = .ok (⟨db.rows.insert id row⟩, id) := by
  have htries : ¬(MAX_ALLOWED_MAX_TRIES < row.tries.toNat ∨
      row.tries.toNat < MIN_ALLOWED_MAX_TRIES) := by
    have hmax := row.tries.toNat_lt
    have hmin : row.tries.toNat ≠ 0 := fun h0 => h.tries (UInt8.toNat_inj.mp h0)
    rw [MAX_ALLOWED_MAX_TRIES, MIN_ALLOWED_MAX_TRIES]
    omega
  rw [loadRow, Wire.parse_serialize]
  dsimp only [rowAsProto]
  rw [if_neg htries, stringToByteArray_of_length h.id]
  dsimp only
  rw [if_neg (not_getLast?_ge hlt), stringToByteArray_of_length h.priv]
  dsimp only
  rw [UInt8.ofNat_toNat]

/-- What `LoadRowsFromProtos` has checked of a message, and what it makes of it. -/
theorem loadRow_eq_ok {db : DB3} {b : Bytes} {loaded : DB3 × Bytes}
    (h : db.loadRow b = .ok loaded) :
    ∃ (m : DB3RowState) (key priv : Bytes), Wire.parse b = some m ∧
      (MIN_ALLOWED_MAX_TRIES ≤ m.tries ∧ m.tries ≤ MAX_ALLOWED_MAX_TRIES) ∧
      stringToByteArray BACKUP_ID_SIZE m.backupId = .ok key ∧
      stringToByteArray SCALAR_SIZE m.priv = .ok priv ∧ (∀ id ∈ db.rows, id < key) ∧
      loaded = (⟨db.rows.insert key { priv := priv, tries := UInt8.ofNat m.tries }⟩, m.backupId) := by
  rw [loadRow] at h
  split at h
  · cases h
  rename_i m hparse
  split_ifs at h with htries
  split at h
  · cases h
  rename_i key hkey
  split_ifs at h with horder
  split at h
  · cases h
  rename_i priv hpriv
  simp only [not_or, not_lt] at htries
  exact ⟨m, key, priv, hparse, htries.symm, hkey, hpriv, forall_lt_of_getLast? horder,
    (Except.ok.inj h).symm⟩

theorem loadRows_eq (db : DB3) (start : Bytes) (rows : List Bytes) :
    db.loadRows start rows = loadAll loadRow db start rows := by
  induction rows generalizing db start with
  | nil => rfl
  | cons b rows ih =>
    rw [loadRows, loadAll]
    cases db.loadRow b with
    | error err => rfl
    | ok loaded => exact ih loaded.1 loaded.2

instance [Ristretto] [Wire Log3] : RowDatabase DB3 where
  Row := Row
  rows := DB3.rows
  rows_injective := fun db db' h => by cases db; cases db'; exact congrArg _ h
  rows_newDB := rfl
  ValidRow := ValidRow
  rowAsProto id row := Wire.serialize (rowAsProto id row)
  loadRow := loadRow
  key_ne_nil h := by
    rintro rfl
    cases h.id
  find?_run_of_ne _ log k h := apply_find?_of_ne (show (Op.mk log true).log.backupId ≠ k from h)
  find?_run_congr {db db' log} h :=
    have hrow : db.rows.find? (Op.mk log true).log.backupId = db'.rows.find? log.backupId := h
    (run_congr hrow).2
  validRow_run {_ log} hlog h := validRow_apply (show Op.Valid ⟨log, true⟩ from hlog) h
  loadRow_rowAsProto h hlt := ⟨_, loadRow_rowAsProto h hlt, rfl⟩
  rowsAsProtos_eq db start size hstart := by
    have hid : ∃ id, stringToByteArray BACKUP_ID_SIZE start = .ok id ∧
        (start ≠ [] → id = start) := by
      rcases hstart with rfl | ⟨row, hrow⟩
      · exact ⟨_, rfl, fun h => absurd rfl h⟩
      · exact ⟨start, stringToByteArray_of_length hrow.id, fun _ => rfl⟩
    obtain ⟨id, hid, hstart⟩ := hid
    change rowsAsProtos db start size = _
    rw [rowsAsProtos, hid]
    dsimp only
    rw [filter_after]
    by_cases hnil : start = []
    · rw [if_pos hnil, if_pos hnil]
    · rw [if_neg hnil, if_neg hnil, hstart hnil]
  loadRowsFromProtos_eq _ h hsize := by
    change loadRowsFromProtos _ _ = _
    rw [loadRowsFromProtos, loadRows_eq, loadAll_of_loadEach h]
    dsimp only
    rw [if_neg (not_not.mpr hsize)]

end DB3

end SVR2
