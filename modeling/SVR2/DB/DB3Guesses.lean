import SVR2.Lib.Runs
import SVR2.DB.DB3

/-!
# The guess limit of database version 3

Under the private key of a successful `Create` at most `max_tries` elements are evaluated, with
one try fewer left each time, and none once the key was replaced or removed.
-/

namespace SVR2.DB3

open Lib

/-- A client log that is run, and whether the Merkle leaf of its row verifies then. -/
structure Op where
  log : Log3
  verifies : Bool
deriving DecidableEq

def Op.Valid (op : Op) : Prop := validateClientLog op.log = .ok

instance (op : Op) : Decidable op.Valid := inferInstanceAs (Decidable (_ = _))

def Op.newKey? (op : Op) : Option Bytes :=
  match op.log.req with
  | .create _ _ => some op.log.createPrivkey
  | _ => none

section Guesses

variable [Ristretto]

def apply (db : DB3) (op : Op) : DB3 := (db.run op.verifies op.log).1

def respond (db : DB3) (op : Op) : Response := (db.run op.verifies op.log).2

def after (db : DB3) (ops : List Op) : DB3 := ops.foldl apply db

/-- The operation evaluates an element under the key; the tries that its response says remain. -/
def evaluation? (key : Bytes) (db : DB3) (op : Op) : Option Nat :=
  match db.respond op, db.rows.find? op.log.backupId with
  | .evaluate .ok _ triesRemaining, some row => if row.priv = key then some triesRemaining else none
  | _, _ => none

/-- The tries that the responses with an element evaluated under the key say remain. -/
def evaluations (key : Bytes) : DB3 → List Op → List Nat
  | _, [] => []
  | db, op :: ops => (db.evaluation? key op).toList ++ evaluations key (db.apply op) ops

/-- No row holds the key. -/
def Gone (key : Bytes) (db : DB3) : Prop :=
  ∀ id row, db.rows.find? id = some row → row.priv ≠ key

/-- Only the id's row may hold the key, with `n` tries left. -/
def Held (key id : Bytes) (n : Nat) (db : DB3) : Prop :=
  ∀ id' row, db.rows.find? id' = some row → row.priv = key →
    id' = id ∧ row.tries.toNat = n ∧ 0 < n

theorem after_append (db : DB3) (ops ops' : List Op) :
    db.after (ops ++ ops') = (db.after ops).after ops' := List.foldl_append

theorem evaluations_append (key : Bytes) (db : DB3) (ops ops' : List Op) :
    evaluations key db (ops ++ ops') =
      evaluations key db ops ++ evaluations key (db.after ops) ops' := by
  induction ops generalizing db with
  | nil => rfl
  | cons x ops ih =>
    rw [List.cons_append, evaluations, evaluations, ih, List.append_assoc]
    rfl

/-! ### One operation -/

inductive RowStep (row : Option Row) (op : Op) (response : Response) : Option Row → Prop where
  /-- It reads the row, or fails. -/
  | same (hresponse : ∀ element n, response ≠ .evaluate .ok element n)
      (hcreate : ∀ element, response ≠ .create .ok element) (hop : op.log.req ≠ .remove) :
      RowStep row op response row
  | created (maxTries : Nat) (blindedElement priv element : Bytes)
      (hop : op.log.req = .create maxTries blindedElement)
      (hpriv : stringToByteArray SCALAR_SIZE op.log.createPrivkey = .ok priv)
      (hresponse : response = .create .ok element) :
      RowStep row op response (some ⟨priv, UInt8.ofNat maxTries⟩)
  | evaluated (r : Row) (blindedElement element : Bytes) (hrow : row = some r)
      (hop : op.log.req = .evaluate blindedElement)
      (hresponse : response = .evaluate .ok element (r.tries - 1).toNat) :
      RowStep row op response
        (if r.tries - 1 = 0 then none else some { r with tries := r.tries - 1 })
  | removed (hop : op.log.req = .remove) (hresponse : response = .remove) :
      RowStep row op response none

theorem rowStep (db : DB3) (op : Op) :
    RowStep (db.rows.find? op.log.backupId) op (db.respond op)
      ((db.apply op).rows.find? op.log.backupId) := by
  obtain ⟨⟨id, req, privkey⟩, verifies⟩ := op
  cases req with
  | create maxTries blindedElement =>
    simp only [apply, respond, run, create]
    cases helt : stringToByteArray ELEMENT_SIZE blindedElement with
    | error err => exact .same (by simp) (by simp) (by simp)
    | ok elt =>
      cases hpriv : stringToByteArray SCALAR_SIZE privkey with
      | error err => exact .same (by simp) (by simp) (by simp)
      | ok priv =>
        cases heval : blindEvaluate priv elt with
        | none =>
          simp only [heval]
          exact .same (by simp) (by simp) (by simp)
        | some evaluated =>
          simp only [heval, OrdMap.find?_insert, if_true]
          exact .created maxTries blindedElement priv evaluated rfl hpriv rfl
  | evaluate blindedElement =>
    simp only [apply, respond, run, evaluate]
    cases helt : stringToByteArray ELEMENT_SIZE blindedElement with
    | error err => exact .same (by simp) (by simp) (by simp)
    | ok elt =>
      cases hrow : db.rows.find? id with
      | none => simpa [hrow] using RowStep.same (by simp) (by simp) (by simp)
      | some row =>
        cases verifies with
        | false => simpa [hrow] using RowStep.same (by simp) (by simp) (by simp)
        | true =>
          cases heval : blindEvaluate row.priv elt with
          | none => simpa [hrow, heval] using RowStep.same (by simp) (by simp) (by simp)
          | some evaluated =>
            have hrows : (if row.tries - 1 = 0 then db.rows.erase id
                else db.rows.insert id { row with tries := row.tries - 1 }).find? id =
                if row.tries - 1 = 0 then none else some { row with tries := row.tries - 1 } := by
              split_ifs <;> simp
            simp only [heval, hrows, Bool.true_eq_false, if_false]
            exact .evaluated row blindedElement evaluated rfl rfl rfl
  | remove => simpa [apply, respond, run, remove] using RowStep.removed rfl rfl
  | query =>
    simp only [apply, respond, run, query]
    cases hrow : db.rows.find? id with
    | none => exact .same (by simp) (by simp) (by simp)
    | some row => exact .same (by simp) (by simp) (by simp)
  | notSet => exact .same (by simp [respond, run]) (by simp [respond, run]) (by simp)

theorem apply_find?_of_ne {db : DB3} {op : Op} {id : Bytes} (h : op.log.backupId ≠ id) :
    (db.apply op).rows.find? id = db.rows.find? id := by
  obtain ⟨⟨key, req, privkey⟩, verifies⟩ := op
  simp only at h
  cases req with
  | create maxTries blindedElement =>
    simp only [apply, run, create]
    split
    · rfl
    · split
      · rfl
      · split <;> simp [h]
  | evaluate blindedElement =>
    simp only [apply, run, evaluate]
    split
    · rfl
    · split
      · rfl
      · split_ifs
        · rfl
        · split <;> simp [Ne.symm h]
        · split <;> simp [h]
  | _ => simp [apply, run, remove, Ne.symm h]

/-- What an operation does to its own row, and its response, are the row's business. -/
theorem run_congr {db db' : DB3} {op : Op}
    (h : db.rows.find? op.log.backupId = db'.rows.find? op.log.backupId) :
    db.respond op = db'.respond op ∧
      (db.apply op).rows.find? op.log.backupId = (db'.apply op).rows.find? op.log.backupId := by
  obtain ⟨⟨key, req, privkey⟩, verifies⟩ := op
  simp only at h
  cases req with
  | create maxTries blindedElement =>
    simp only [apply, respond, run, create]
    split
    · exact ⟨rfl, h⟩
    · split
      · exact ⟨rfl, h⟩
      · split <;> simp [h]
  | evaluate blindedElement =>
    simp only [apply, respond, run, evaluate, h]
    split
    · exact ⟨rfl, h⟩
    · cases hrow : db'.rows.find? key with
      | none => simp [h, hrow]
      | some row =>
        dsimp only
        split_ifs
        · simp [h, hrow]
        · split <;> simp [h, hrow]
        · split <;> simp [h, hrow]
  | _ => simp [apply, respond, run, remove, query, h]

omit [Ristretto] in
/-- A valid `Create` stores the key that comes with it. -/
theorem priv_eq {op : Op} (hvalid : op.Valid) {maxTries : Nat} {blindedElement priv : Bytes}
    (hop : op.log.req = .create maxTries blindedElement)
    (hpriv : stringToByteArray SCALAR_SIZE op.log.createPrivkey = .ok priv) :
    op.newKey? = some priv ∧ 1 ≤ maxTries ∧ maxTries ≤ 255 := by
  simp only [Op.Valid, validateClientLog, hop] at hvalid
  split_ifs at hvalid with _ htries _ hsize
  rw [not_not] at hsize
  simp only [stringToByteArray, hsize, lt_irrefl, if_false, Nat.sub_self, List.replicate_zero,
    List.append_nil, Except.ok.injEq] at hpriv
  refine ⟨?_, by omega, by omega⟩
  rw [Op.newKey?, hop, ← hpriv]

variable {db : DB3} {op : Op} {ops : List Op} {key id : Bytes} {n : Nat}

theorem apply_row {id' : Bytes} {row : Row} (hvalid : op.Valid)
    (h : (db.apply op).rows.find? id' = some row) :
    (∃ r, db.rows.find? id' = some r ∧ row.priv = r.priv) ∨ op.newKey? = some row.priv := by
  by_cases hid : op.log.backupId = id'
  · subst hid
    have hstep := db.rowStep op
    rw [h] at hstep
    generalize hrow' : some row = row' at hstep
    cases hstep with
    | same => exact .inl ⟨row, hrow'.symm, rfl⟩
    | created maxTries blindedElement priv element hop hpriv =>
      cases hrow'
      exact .inr (priv_eq hvalid hop hpriv).1
    | evaluated r _ _ hrow =>
      split_ifs at hrow'
      cases hrow'
      exact .inl ⟨r, hrow, rfl⟩
    | removed => cases hrow'
  · rw [apply_find?_of_ne hid] at h
    exact .inl ⟨row, h, rfl⟩

/-- A key that is gone comes back only with a `Create`. -/
theorem Gone.apply (h : Gone key db) (hvalid : op.Valid) (hop : op.newKey? ≠ some key) :
    Gone key (db.apply op) := by
  intro id' row hrow hkey
  rcases apply_row hvalid hrow with ⟨r, hr, heq⟩ | hnew
  · exact h id' r hr (heq ▸ hkey)
  · exact hop (hkey ▸ hnew)

theorem Gone.evaluation? (h : Gone key db) (op : Op) : db.evaluation? key op = none := by
  rw [DB3.evaluation?]
  split
  · rename_i row _ hrow
    rw [if_neg (h _ row hrow)]
  · rfl

theorem Gone.evaluations (h : Gone key db) (hvalid : ∀ op ∈ ops, op.Valid)
    (hops : ∀ op ∈ ops, op.newKey? ≠ some key) : DB3.evaluations key db ops = [] := by
  induction ops generalizing db with
  | nil => rfl
  | cons op ops ih =>
    rw [DB3.evaluations, h.evaluation?]
    exact ih (h.apply (hvalid op (by simp)) (hops op (by simp)))
      (fun x hx => hvalid x (by simp [hx])) fun x hx => hops x (by simp [hx])

theorem Gone.after (h : Gone key db) (hvalid : ∀ op ∈ ops, op.Valid)
    (hops : ∀ op ∈ ops, op.newKey? ≠ some key) : Gone key (db.after ops) := by
  induction ops generalizing db with
  | nil => exact h
  | cons op ops ih =>
    exact ih (h.apply (hvalid op (by simp)) (hops op (by simp)))
      (fun x hx => hvalid x (by simp [hx])) fun x hx => hops x (by simp [hx])

/-! ### The tries of one key -/

/-- A key that is held is used once and has one try fewer, or it is not used. -/
theorem Held.step (h : Held key id n db) (hvalid : op.Valid) (hop : op.newKey? ≠ some key) :
    db.evaluation? key op = none ∧ Held key id n (db.apply op) ∨
      0 < n ∧ db.evaluation? key op = some (n - 1) ∧ Held key id (n - 1) (db.apply op) := by
  -- rows of other ids do not change
  have hother : ∀ m, (∀ row, (db.apply op).rows.find? op.log.backupId = some row →
      row.priv = key → op.log.backupId = id ∧ row.tries.toNat = m ∧ 0 < m) →
      (∀ id' row, op.log.backupId ≠ id' → db.rows.find? id' = some row → row.priv = key →
        id' = id ∧ row.tries.toNat = m ∧ 0 < m) → Held key id m (db.apply op) := by
    intro m hown hrest id' row hrow hkey
    by_cases hid : op.log.backupId = id'
    · subst hid
      exact hown row hrow hkey
    · rw [apply_find?_of_ne hid] at hrow
      exact hrest id' row hid hrow hkey
  have hstep := db.rowStep op
  generalize hrow' : (db.apply op).rows.find? op.log.backupId = row' at hstep hother
  cases hstep with
  | same hresponse =>
    refine .inl ⟨?_, hother n (fun row => h _ row) fun id' row _ => h id' row⟩
    rw [evaluation?]
    split
    · rename_i element _ _ heq _
      exact absurd heq (hresponse element _)
    · rfl
  | created maxTries blindedElement priv element hcreate hpriv hresponse =>
    refine .inl ⟨by simp [evaluation?, hresponse], hother n ?_ fun id' row _ => h id' row⟩
    intro row hrow hkey
    cases hrow
    exact absurd (hkey ▸ (priv_eq hvalid hcreate hpriv).1) hop
  | removed _ hresponse =>
    refine .inl ⟨by simp [evaluation?, hresponse], hother n ?_ fun id' row _ => h id' row⟩
    intro row hrow
    cases hrow
  | evaluated r blindedElement element hrow hreq hresponse =>
    by_cases hkey : r.priv = key
    · obtain ⟨hid, htries, hpos⟩ := h _ r hrow hkey
      have hpred : (r.tries - 1).toNat = n - 1 := by
        rw [← htries]
        exact UInt8.toNat_sub_of_le r.tries 1 (by rw [UInt8.le_iff_toNat_le, htries]; exact hpos)
      refine .inr ⟨hpos, by simp [evaluation?, hresponse, hrow, hkey, hpred], hother (n - 1) ?_ ?_⟩
      · intro row hrow hkey
        split_ifs at hrow with hzero
        cases hrow
        have hne : (r.tries - 1).toNat ≠ 0 := fun h0 => hzero (UInt8.toNat_inj.mp h0)
        exact ⟨hid, hpred, by omega⟩
      · intro id' row hne hrow' hkey'
        exact absurd (hid.trans (h id' row hrow' hkey').1.symm) hne
    · refine .inl ⟨by simp [evaluation?, hresponse, hrow, hkey], hother n ?_ fun id' row _ => h id' row⟩
      intro row hrow hkey'
      split_ifs at hrow
      cases hrow
      exact absurd hkey' hkey

theorem Held.evaluations (h : Held key id n db) (hvalid : ∀ op ∈ ops, op.Valid)
    (hops : ∀ op ∈ ops, op.newKey? ≠ some key) :
    DB3.evaluations key db ops <+: (List.range n).reverse := by
  induction ops generalizing db n with
  | nil => exact List.nil_prefix
  | cons op ops ih =>
    have hvalid' : ∀ x ∈ ops, x.Valid := fun x hx => hvalid x (by simp [hx])
    have hops' : ∀ x ∈ ops, x.newKey? ≠ some key := fun x hx => hops x (by simp [hx])
    rw [DB3.evaluations]
    rcases h.step (hvalid op (by simp)) (hops op (by simp)) with ⟨hnone, hheld⟩ | ⟨hpos, hsome, hheld⟩
    · rw [hnone]
      exact ih hheld hvalid' hops'
    · obtain ⟨m, rfl⟩ : ∃ m, n = m + 1 := ⟨n - 1, by omega⟩
      rw [hsome, List.range_succ, List.reverse_append]
      exact List.prefix_append_right_inj [m] |>.mpr (ih hheld hvalid' hops')

theorem Held.after (h : Held key id n db) (hvalid : ∀ op ∈ ops, op.Valid)
    (hops : ∀ op ∈ ops, op.newKey? ≠ some key) : ∃ m, Held key id m (db.after ops) := by
  induction ops generalizing db n with
  | nil => exact ⟨n, h⟩
  | cons op ops ih =>
    have hvalid' : ∀ x ∈ ops, x.Valid := fun x hx => hvalid x (by simp [hx])
    have hops' : ∀ x ∈ ops, x.newKey? ≠ some key := fun x hx => hops x (by simp [hx])
    rcases h.step (hvalid op (by simp)) (hops op (by simp)) with ⟨-, hheld⟩ | ⟨-, -, hheld⟩
    · exact ih hheld hvalid' hops'
    · exact ih hheld hvalid' hops'

/-- After a `Create` that brings a new key, only its id holds the key. -/
theorem held_create {maxTries : Nat} {blindedElement : Bytes} (h : Gone key db)
    (hlog : op.log = ⟨id, .create maxTries blindedElement, key⟩) (hvalid : op.Valid) :
    Held key id maxTries (db.apply op) := by
  intro id' row hrow hkey
  by_cases hid : op.log.backupId = id'
  · have hstep := db.rowStep op
    rw [hid, hrow] at hstep
    generalize hrow' : some row = row' at hstep
    cases hstep with
    | same => exact absurd hkey (h id' row hrow'.symm)
    | created maxTries' blindedElement' priv element hcreate hpriv =>
      obtain ⟨-, hmin, hmax⟩ := priv_eq hvalid hcreate hpriv
      rw [hlog] at hcreate
      cases hcreate
      cases hrow'
      refine ⟨by rw [← hid, hlog], ?_, hmin⟩
      rw [UInt8.toNat_ofNat']
      omega
    | evaluated r _ _ _ hreq => simp [hlog] at hreq
    | removed hreq => simp [hlog] at hreq
  · rw [apply_find?_of_ne hid] at hrow
    exact absurd hkey (h id' row hrow)

/-- A key is gone once its id was removed or another key was created for it. -/
theorem Held.gone (h : Held key id n db) (hvalid : op.Valid) (hop : op.newKey? ≠ some key)
    (hid : op.log.backupId = id)
    (hreplaced : op.log.req = .remove ∨ ∃ element, db.respond op = .create .ok element) :
    Gone key (db.apply op) := by
  intro id' row hrow hkey
  by_cases hid' : op.log.backupId = id'
  · have hstep := db.rowStep op
    rw [hid', hrow] at hstep
    generalize hrow' : some row = row' at hstep
    cases hstep with
    | same _ hcreate hremove =>
      rcases hreplaced with hreq | ⟨element, hok⟩
      · exact hremove hreq
      · exact hcreate element hok
    | created maxTries blindedElement priv element hcreate hpriv =>
      cases hrow'
      exact hop (hkey ▸ (priv_eq hvalid hcreate hpriv).1)
    | evaluated r _ _ _ hreq hresponse =>
      rcases hreplaced with hreq' | ⟨element, hok⟩
      · simp [hreq] at hreq'
      · simp [hresponse] at hok
    | removed => cases hrow'
  · rw [apply_find?_of_ne hid'] at hrow
    exact hid' (hid.trans (h id' row hrow hkey).1.symm)

theorem evaluate_failed (db : DB3) (op : Op) {status : EvaluateStatus} {element : Bytes} {n : Nat}
    (hresponse : db.respond op = .evaluate status element n) (hfailed : status ≠ .ok) :
    element = [] ∧ db.apply op = db := by
  obtain ⟨⟨id, req, privkey⟩, verifies⟩ := op
  cases req with
  | evaluate blindedElement =>
    simp only [apply, respond, run, evaluate] at hresponse ⊢
    split at hresponse
    · cases hresponse
      exact ⟨rfl, rfl⟩
    · split at hresponse
      · cases hresponse
        exact ⟨rfl, rfl⟩
      · by_cases hverifies : verifies = false
        · rw [if_pos hverifies] at hresponse ⊢
          cases hresponse
          exact ⟨rfl, rfl⟩
        · rw [if_neg hverifies] at hresponse ⊢
          split at hresponse
          · cases hresponse
            exact ⟨rfl, rfl⟩
          · cases hresponse
            exact absurd rfl hfailed
  | create maxTries blindedElement =>
    simp only [respond, run, create] at hresponse
    split at hresponse
    · cases hresponse
    · split at hresponse
      · cases hresponse
      · split at hresponse <;> cases hresponse
  | query =>
    simp only [respond, run, query] at hresponse
    split at hresponse <;> cases hresponse
  | _ => cases hresponse

theorem after_filter_find? (db : DB3) (ops : List Op) (id : Bytes) :
    (db.after ops).rows.find? id =
      (db.after (ops.filter fun op => op.log.backupId = id)).rows.find? id := by
  refine foldl_filter (fun db : DB3 => db.rows.find? id) (fun db op hid => ?_)
    (fun db db' op hid h => ?_) rfl ops
  · exact apply_find?_of_ne (of_decide_eq_false hid)
  · obtain rfl := of_decide_eq_true hid
    exact (run_congr h).2

/-- What limits the evaluations under the key of a `Create` of the id while operations are run on
    an empty database, `before` of them before the `Create` and `rest` after it. -/
structure EvaluationsLimited (key id : Bytes) (maxTries : Nat) (before : List Op) (create : Op)
    (rest : List Op) : Prop where
  /-- The responses count down from `max_tries - 1`, at most to 0. -/
  countdown : evaluations key newDB (before ++ create :: rest) <+: (List.range maxTries).reverse
  /-- Once the id was removed, or another `Create` for it has answered OK, the key is not used. -/
  replaced : ∀ mid op rest', rest = mid ++ op :: rest' → op.log.backupId = id →
    (op.log.req = .remove ∨
      ∃ element, (newDB.after (before ++ create :: mid)).respond op = .create .ok element) →
    evaluations key (newDB.after (before ++ create :: mid ++ [op])) rest' = []
  /-- An evaluation that fails returns no element and leaves the rows unchanged. -/
  failed : ∀ ops op rest' status element n, before ++ create :: rest = ops ++ op :: rest' →
    (newDB.after ops).respond op = .evaluate status element n → status ≠ .ok →
    element = [] ∧ (newDB.after ops).apply op = newDB.after ops
  /-- Neither the row of the id nor a response about it depends on operations on other ids. -/
  others : ∀ ops rest', before ++ create :: rest = ops ++ rest' →
    (newDB.after ops).rows.find? id =
      (newDB.after (ops.filter fun op => op.log.backupId = id)).rows.find? id ∧
    ∀ op, op.log.backupId = id → (newDB.after ops).respond op =
      (newDB.after (ops.filter fun op => op.log.backupId = id)).respond op

/-- The evaluations under the key of a `Create` are limited, if every `Create` brings a new key. -/
theorem evaluations_are_limited (before : List Op) (create : Op) (rest : List Op)
    (hvalid : ∀ op ∈ before ++ create :: rest, op.Valid)
    (hfresh : ((before ++ create :: rest).filterMap Op.newKey?).Nodup) (key id : Bytes)
    (maxTries : Nat) (blindedElement : Bytes)
    (hcreate : create.log = ⟨id, .create maxTries blindedElement, key⟩) :
    EvaluationsLimited key id maxTries before create rest := by
  have hnew : create.newKey? = some key := by rw [Op.newKey?, hcreate]
  rw [List.filterMap_append, List.filterMap_cons_some hnew, List.nodup_append] at hfresh
  obtain ⟨-, hrest, hbefore⟩ := hfresh
  have hkey : ∀ op ∈ rest, op.newKey? ≠ some key := fun op hop heq =>
    (List.nodup_cons.mp hrest).1 (List.mem_filterMap.mpr ⟨op, hop, heq⟩)
  have hkey' : ∀ op ∈ before, op.newKey? ≠ some key := fun op hop heq =>
    hbefore key (List.mem_filterMap.mpr ⟨op, hop, heq⟩) key (by simp) rfl
  have hvalidRest : ∀ op ∈ rest, op.Valid := fun op hop => hvalid op (by simp [hop])
  have hvalidBefore : ∀ op ∈ before, op.Valid := fun op hop => hvalid op (by simp [hop])
  have hempty : Gone key newDB := fun id' row hrow => by
    simp [newDB] at hrow
  have hgone : Gone key (newDB.after before) := hempty.after hvalidBefore hkey'
  have hheld : Held key id maxTries ((newDB.after before).apply create) :=
    held_create hgone hcreate (hvalid create (by simp))
  refine ⟨?_, ?_, ?_, ?_⟩
  · rw [evaluations_append, hempty.evaluations hvalidBefore hkey', List.nil_append, evaluations,
      hgone.evaluation?]
    exact hheld.evaluations hvalidRest hkey
  · rintro mid op rest' rfl hid hreplaced
    obtain ⟨m, hm⟩ : ∃ m, Held key id m (((newDB.after before).apply create).after mid) :=
      hheld.after (fun x hx => hvalidRest x (by simp [hx])) fun x hx => hkey x (by simp [hx])
    have hmid : newDB.after (before ++ create :: mid) =
        ((newDB.after before).apply create).after mid := after_append _ _ _
    rw [after_append, hmid]
    rw [hmid] at hreplaced
    have hop : Gone key ((((newDB.after before).apply create).after mid).apply op) :=
      hm.gone (hvalidRest op (by simp)) (hkey op (by simp)) hid hreplaced
    exact hop.evaluations (fun x hx => hvalidRest x (by simp [hx])) fun x hx =>
      hkey x (by simp [hx])
  · rintro ops op rest' status element n - hresponse hfailed
    exact evaluate_failed _ op hresponse hfailed
  · rintro ops rest' -
    have hrow := after_filter_find? newDB ops id
    refine ⟨hrow, fun op hid => (run_congr ?_).1⟩
    rw [hid]
    exact hrow

end Guesses

/-- A product that fails for elements that start with 0. -/
@[reducible] def sampleRistretto : Ristretto where
  scalarmult key element := if element.head? = some 0 then none else some (key ++ element)

def sampleOp (req : Request) (key : Byte) : Op :=
  ⟨⟨List.replicate 16 1, req, List.replicate 32 key⟩, true⟩

theorem evaluations_are_limited_sample :
    @evaluations sampleRistretto (List.replicate 32 7) newDB
      [sampleOp (.create 2 (List.replicate 32 1)) 7, sampleOp (.evaluate (List.replicate 32 1)) 0] <+:
      [1, 0] :=
  letI := sampleRistretto
  (evaluations_are_limited [] (sampleOp (.create 2 (List.replicate 32 1)) 7)
    [sampleOp (.evaluate (List.replicate 32 1)) 0] (by decide) (by decide) (List.replicate 32 7)
    (List.replicate 16 1) 2 (List.replicate 32 1) rfl).countdown

/-- A later `Create` whose evaluation fails leaves the key of the earlier one in use. -/
theorem key_used_after_failed_create :
    let create := sampleOp (.create 2 (List.replicate 32 1)) 7
    let failing := sampleOp (.create 2 (List.replicate 32 0)) 8
    create.Valid ∧ failing.Valid ∧ create.log.backupId = failing.log.backupId ∧
    create.log.createPrivkey ≠ failing.log.createPrivkey ∧
    @evaluations sampleRistretto create.log.createPrivkey
      (@after sampleRistretto newDB [create, failing])
      [sampleOp (.evaluate (List.replicate 32 1)) 0] = [1] := by
  decide

end SVR2.DB3
