import SVR2.DB.DB2Guesses
import SVR2.DB.DB3Guesses
import SVR2.Lib.Runs

/-!
# What can be recovered

The other side of the limits on guesses: whatever else happens in the database, the owner of a backup
gets it back as long as tries are left.  In version 2 that is the data, for the right PIN; in
version 3 it is an evaluation under the key that was drawn when the backup was created.
-/

namespace SVR2

open Lib

theorem pred_tries {tries : UInt8} (h : 1 < tries.toNat) :
    (tries - 1).toNat = tries.toNat - 1 ∧ tries - 1 ≠ 0 := by
  have hpred : (tries - 1).toNat = tries.toNat - 1 := UInt8.toNat_sub_of_le tries 1 h.le
  refine ⟨hpred, fun hzero => ?_⟩
  have hnone : (tries - 1).toNat = 0 := congrArg UInt8.toNat hzero
  omega

namespace DB2

def Op.replaces (id : Bytes) (op : Op) : Bool :=
  op.log.backupId = id && match op.log.req with
    | .backup _ _ _ | .delete => true
    | _ => false

/-- The operation is an attempt to restore the id with another PIN. -/
def Op.guesses (id pin : Bytes) (op : Op) : Bool :=
  op.log.backupId = id && match op.log.req with
    | .restore guess => guess ≠ pin
    | _ => false

/-- The operation shows the data of the id, and the row's Merkle leaf verifies. -/
def Op.exposes (id data : Bytes) (op : Op) : Bool :=
  op.log.backupId = id && op.verifies && match op.log.req with
    | .expose shown => data.isPrefixOf shown
    | _ => false

/-- The backup is there, and at most `n` of its tries are gone. -/
structure Holds (id data pin : Bytes) (maxTries : Nat) (exposed : Bool) (db : DB2) (n : Nat)
    (row : Row) : Prop where
  find : db.rows.find? id = some row
  data : row.data = data
  pin : row.pin = pin
  state : row.state = .available ∨ exposed = false ∧ row.state = .populated
  le : row.tries.toNat ≤ maxTries
  left : maxTries ≤ row.tries.toNat + n

variable {db : DB2} {op b r : Op} {ops : List Op} {id data pin : Bytes} {maxTries n : Nat}
  {exposed : Bool} {row : Row}

theorem holds_backup (db : DB2) (hlog : op.log = ⟨id, .backup data pin maxTries⟩) (hvalid : op.Valid) :
    ∃ row, Holds id data pin maxTries false (db.apply op) 0 row := by
  have hkept : Kept id data pin maxTries (db.apply op) [] := kept_backup hlog hvalid
  have hfind : ∃ row, (db.apply op).rows.find? id = some row ∧ row.state = .populated := by
    simp [apply, hlog, run, backup]
  obtain ⟨row, hrow, hstate⟩ := hfind
  obtain ⟨hdata, hpin, -, hsum, -⟩ := hkept.row row hrow
  have htries : row.tries.toNat = maxTries := hsum
  exact ⟨row, hrow, hdata, hpin, .inr ⟨rfl, hstate⟩, htries.le, htries.ge⟩

theorem Holds.mono (h : Holds id data pin maxTries exposed db n row) (m : Nat) :
    Holds id data pin maxTries exposed db (n + m) row :=
  { h with left := h.left.trans (by omega) }

theorem Holds.step (h : Holds id data pin maxTries exposed db n row) (hop : op.replaces id = false)
    (hfew : n + (op.guesses id pin).toNat < maxTries) :
    ∃ row', Holds id data pin maxTries exposed (db.apply op) (n + (op.guesses id pin).toNat) row' := by
  by_cases hid : op.log.backupId = id
  · obtain ⟨⟨key, req⟩, verifies⟩ := op
    have hkey : key = id := hid
    subst hkey
    cases req with
    | backup data' pin' maxTries' => simp [Op.replaces] at hop
    | delete => simp [Op.replaces] at hop
    | tries => exact ⟨row, h.mono _⟩
    | notSet => exact ⟨row, h.mono _⟩
    | expose shown =>
      simp only [apply, run, DB2.expose, h.find]
      split_ifs
      · exact ⟨row, h.mono _⟩
      · exact ⟨{ row with state := .available },
          { h.mono _ with find := by simp, state := .inl rfl }⟩
      · exact ⟨row, h.mono _⟩
      · exact ⟨row, h.mono _⟩
    | restore guess =>
      have hle := h.le
      have hleft := h.left
      have hpred (hpin : guess ≠ row.pin) : Op.guesses key pin ⟨⟨key, .restore guess⟩, verifies⟩ = true ∧
          (row.tries - 1).toNat = row.tries.toNat - 1 ∧ row.tries - 1 ≠ 0 := by
        have hguess : Op.guesses key pin ⟨⟨key, .restore guess⟩, verifies⟩ = true := by
          simp [Op.guesses, h.pin ▸ hpin]
        rw [hguess, Bool.toNat_true] at hfew
        exact ⟨hguess, pred_tries (by omega)⟩
      simp only [apply, run, restore, h.find]
      split_ifs with hstate hverifies hpin hzero
      · exact ⟨row, h.mono _⟩
      · exact ⟨row, h.mono _⟩
      · exact ⟨row, h.mono _⟩
      · -- the last try is not reached yet
        exact absurd hzero (hpred hpin).2.2
      · obtain ⟨hguess, htries, -⟩ := hpred hpin
        rw [hguess, Bool.toNat_true]
        refine ⟨{ row with tries := row.tries - 1 }, { h with find := by simp, le := ?_, left := ?_ }⟩
        · dsimp only
          omega
        · dsimp only
          omega
  · refine ⟨row, { h.mono _ with find := ?_ }⟩
    rw [apply_find?_of_ne hid]
    exact h.find

theorem Holds.after (h : Holds id data pin maxTries exposed db n row) (ops : List Op)
    (hops : ∀ op ∈ ops, op.replaces id = false)
    (hfew : n + ops.countP (·.guesses id pin) < maxTries) :
    ∃ row', Holds id data pin maxTries exposed (db.after ops) (n + ops.countP (·.guesses id pin))
      row' := by
  refine foldl_budget (P := fun db n => ∃ row, Holds id data pin maxTries exposed db n row) ?_
    ⟨row, h⟩ hfew
  rintro db n op hop ⟨row, hrow⟩ hleft
  exact hrow.step (hops op hop) hleft

theorem Holds.expose (h : Holds id data pin maxTries exposed db n row)
    (hop : op.exposes id data = true) :
    ∃ row', Holds id data pin maxTries true (db.apply op) n row' := by
  obtain ⟨⟨id', req⟩, verifies⟩ := op
  cases req with
  | expose shown =>
    simp only [Op.exposes, Bool.and_eq_true, decide_eq_true_eq, List.isPrefixOf_iff_prefix] at hop
    obtain ⟨⟨rfl, rfl⟩, hshown⟩ := hop
    have hstate : row.state = .populated ∨ row.state = .available := by
      rcases h.state with hstate | ⟨-, hstate⟩
      · exact .inr hstate
      · exact .inl hstate
    refine ⟨{ row with state := .available }, ?_, h.data, h.pin, .inl rfl, h.le, h.left⟩
    simp [apply, run, DB2.expose, h.find, h.data, hshown, hstate]
  | _ => simp [Op.exposes] at hop

/-- A backup that its owner has exposed, and that is not replaced or removed, is restored with its PIN
    at any later time, with whatever happens in between, as long as fewer restores with other PINs
    come before it than the backup has tries. -/
theorem backup_recoverable (db : DB2) {b r : Op} (ops : List Op) {id data pin : Bytes}
    {maxTries : Nat} (hb : b.log = ⟨id, .backup data pin maxTries⟩) (hvalid : b.Valid)
    (hkept : ∀ op ∈ ops, op.replaces id = false) (hexposed : ∃ op ∈ ops, op.exposes id data = true)
    (hfew : ops.countP (·.guesses id pin) < maxTries)
    (hr : r.log = ⟨id, .restore pin⟩) (hverifies : r.verifies = true) :
    ∃ tries, ((db.apply b).after ops).respond r = .restore .ok data tries ∧ tries ≤ maxTries ∧
      maxTries ≤ tries + ops.countP (·.guesses id pin) := by
  obtain ⟨x, hx, hshows⟩ := hexposed
  obtain ⟨before, rest, rfl⟩ := List.append_of_mem hx
  have hnoguess : x.guesses id pin = false := by
    obtain ⟨⟨id', req⟩, verifies⟩ := x
    cases req with
    | expose shown => simp [Op.guesses]
    | _ => simp [Op.exposes] at hshows
  have hcount : (before ++ x :: rest).countP (·.guesses id pin) =
      before.countP (·.guesses id pin) + rest.countP (·.guesses id pin) := by
    rw [List.countP_append, List.countP_cons_of_neg (by rw [hnoguess]; decide)]
  rw [hcount] at hfew ⊢
  obtain ⟨row₀, h₀⟩ := holds_backup db hb hvalid
  obtain ⟨row₁, h₁⟩ := h₀.after before (fun op hop => hkept op (by simp [hop])) (by omega)
  obtain ⟨row₂, h₂⟩ := h₁.expose hshows
  obtain ⟨row, h⟩ := h₂.after rest (fun op hop => hkept op (by simp [hop])) (by omega)
  rw [Nat.zero_add] at h
  have hafter : (db.apply b).after (before ++ x :: rest) =
      (((db.apply b).after before).apply x).after rest := by
    rw [after_append]
    rfl
  have hstate : row.state = .available := by
    rcases h.state with hstate | ⟨hfalse, -⟩
    · exact hstate
    · cases hfalse
  refine ⟨row.tries.toNat, ?_, h.le, h.left⟩
  rw [hafter]
  simp [respond, run, restore, hr, hverifies, h.find, hstate, h.pin, h.data]

def sampleBackup : Op :=
  ⟨⟨List.replicate 16 1, .backup (List.replicate 16 2) (List.replicate 32 3) 2⟩, true⟩

def sampleUses : List Op :=
  [⟨⟨List.replicate 16 1, .expose (List.replicate 16 2)⟩, true⟩,
    ⟨⟨List.replicate 16 1, .restore (List.replicate 32 4)⟩, true⟩]

theorem backup_recoverable_sampleUses :
    ∃ tries, ((newDB.apply sampleBackup).after sampleUses).respond
        ⟨⟨List.replicate 16 1, .restore (List.replicate 32 3)⟩, true⟩ =
        .restore .ok (List.replicate 16 2) tries ∧ tries ≤ 2 ∧ 2 ≤ tries + 1 :=
  backup_recoverable newDB (b := sampleBackup) sampleUses rfl (by decide) (by decide) (by decide)
    (by decide) rfl rfl

end DB2

namespace DB3

section Evaluations

variable [Ristretto]

/-- The operation is one on the id that can replace or remove its key. -/
def Op.replaces (id : Bytes) (op : Op) : Bool :=
  op.log.backupId = id && match op.log.req with
    | .create _ _ | .remove => true
    | _ => false

/-- The operation asks for an evaluation under the key of the id. -/
def Op.evaluates (id : Bytes) (op : Op) : Bool :=
  op.log.backupId = id && match op.log.req with
    | .evaluate _ => true
    | _ => false

/-- The key is there, and at most `n` of its tries are gone. -/
structure Holds (id key : Bytes) (maxTries : Nat) (db : DB3) (n : Nat) (row : Row) : Prop where
  find : db.rows.find? id = some row
  priv : row.priv = key
  le : row.tries.toNat ≤ maxTries
  left : maxTries ≤ row.tries.toNat + n

variable {db : DB3} {op : Op} {ops : List Op} {id key : Bytes} {maxTries n : Nat} {row : Row}

theorem Holds.step (h : Holds id key maxTries db n row) (hop : op.replaces id = false)
    (hfew : n + (op.evaluates id).toNat < maxTries) :
    ∃ row', Holds id key maxTries (db.apply op) (n + (op.evaluates id).toNat) row' := by
  have hle := h.le
  have hleft := h.left
  by_cases hid : op.log.backupId = id
  · have hstep := db.rowStep op
    rw [hid, h.find] at hstep
    generalize hrow' : (db.apply op).rows.find? id = row' at hstep
    cases hstep with
    | same => exact ⟨row, hrow', h.priv, h.le, by omega⟩
    | created maxTries' blindedElement priv element hreq => simp [Op.replaces, hid, hreq] at hop
    | removed hreq => simp [Op.replaces, hid, hreq] at hop
    | evaluated r blindedElement element hrow hreq =>
      cases hrow
      have hevaluates : op.evaluates id = true := by
        simp [Op.evaluates, hid, hreq]
      rw [hevaluates, Bool.toNat_true] at hfew ⊢
      -- the last try is not reached yet
      obtain ⟨hpred, hne⟩ := pred_tries (show 1 < row.tries.toNat by omega)
      rw [if_neg hne] at hrow'
      refine ⟨_, hrow', h.priv, ?_, ?_⟩
      · dsimp only
        omega
      · dsimp only
        omega
  · refine ⟨row, ?_, h.priv, h.le, by omega⟩
    rw [apply_find?_of_ne hid]
    exact h.find

theorem Holds.after (h : Holds id key maxTries db n row)
    (hops : ∀ op ∈ ops, op.replaces id = false) (hfew : n + ops.countP (·.evaluates id) < maxTries) :
    ∃ row', Holds id key maxTries (db.after ops) (n + ops.countP (·.evaluates id)) row' := by
  refine foldl_budget (P := fun db n => ∃ row, Holds id key maxTries db n row) ?_ ⟨row, h⟩ hfew
  rintro db n op hop ⟨row, hrow⟩ hleft
  exact hrow.step (hops op hop) hleft

/-- After a `Create` that has answered with an evaluation, every request is evaluated under the same
    key, with whatever happens in between, as long as the key is not replaced or removed and fewer
    requests come before it than the key has tries. -/
theorem key_recoverable (db : DB3) (create : Op) (ops : List Op) (r : Op) {id element : Bytes}
    {maxTries : Nat} {blindedElement : Bytes}
    (hcreate : create.log.backupId = id ∧ create.log.req = .create maxTries blindedElement)
    (hvalid : create.Valid) (hok : db.respond create = .create .ok element)
    (hkept : ∀ op ∈ ops, op.replaces id = false) (hfew : ops.countP (·.evaluates id) < maxTries)
    {blinded : Bytes} (hr : r.log.backupId = id ∧ r.log.req = .evaluate blinded) (hrvalid : r.Valid)
    (hverifies : r.verifies = true) {evaluated : Bytes}
    (hpoint : Ristretto.scalarmult create.log.createPrivkey blinded = some evaluated) :
    ∃ tries, ((db.apply create).after ops).respond r = .evaluate .ok evaluated tries ∧
      tries < maxTries ∧ maxTries ≤ tries + 1 + ops.countP (·.evaluates id) := by
  obtain ⟨row₀, h₀⟩ : ∃ row, Holds id create.log.createPrivkey maxTries (db.apply create) 0 row := by
    have hstep := db.rowStep create
    rw [hok, hcreate.1] at hstep
    generalize hrow : (db.apply create).rows.find? id = row at hstep
    cases hstep with
    | same _ hno => exact absurd rfl (hno element)
    | created maxTries' blindedElement' priv element' hreq hpriv =>
      obtain ⟨hkey, hmin, hmax⟩ := priv_eq hvalid hreq hpriv
      cases hcreate.2.symm.trans hreq
      have htries : (UInt8.ofNat maxTries).toNat = maxTries := by
        rw [UInt8.toNat_ofNat']
        omega
      rw [Op.newKey?, hreq] at hkey
      exact ⟨_, hrow, (Option.some.inj hkey).symm, htries.le, htries.ge⟩
    | evaluated r' _ _ _ hreq => cases hcreate.2.symm.trans hreq
    | removed hreq => cases hcreate.2.symm.trans hreq
  obtain ⟨row, h⟩ := h₀.after hkept (by omega)
  rw [Nat.zero_add] at h
  have hle := h.le
  have hleft := h.left
  have hpos : 1 ≤ row.tries.toNat := by omega
  have hpred : (row.tries - 1).toNat = row.tries.toNat - 1 :=
    UInt8.toNat_sub_of_le row.tries 1 hpos
  have hsize : stringToByteArray ELEMENT_SIZE blinded = .ok blinded := by
    simp only [Op.Valid, validateClientLog, hr.2] at hrvalid
    split_ifs at hrvalid with _ hsize
    rw [not_not] at hsize
    simp [stringToByteArray, hsize]
  refine ⟨(row.tries - 1).toNat, ?_, by omega, by omega⟩
  have hfind : ((db.apply create).after ops).rows.find? r.log.backupId = some row := by
    rw [hr.1]
    exact h.find
  simp [respond, run, evaluate, hr.2, hsize, hfind, hverifies, blindEvaluate, h.priv, hpoint]

end Evaluations

theorem key_recoverable_sampleOp :
    ∃ tries, @respond sampleRistretto
        (@after sampleRistretto (@apply sampleRistretto newDB (sampleOp (.create 2 (List.replicate 32 1)) 7))
          [sampleOp (.evaluate (List.replicate 32 2)) 0])
        (sampleOp (.evaluate (List.replicate 32 3)) 0) =
        .evaluate .ok (List.replicate 32 7 ++ List.replicate 32 3) tries ∧
      tries < 2 ∧ 2 ≤ tries + 1 + 1 :=
  letI := sampleRistretto
  key_recoverable newDB (sampleOp (.create 2 (List.replicate 32 1)) 7)
    [sampleOp (.evaluate (List.replicate 32 2)) 0] (sampleOp (.evaluate (List.replicate 32 3)) 0)
    ⟨rfl, rfl⟩ (by decide) rfl (by decide) (by decide) ⟨rfl, rfl⟩ (by decide) rfl rfl

end DB3

end SVR2
