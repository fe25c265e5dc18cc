import SVR2.Lib.Runs
import SVR2.DB.DB2

/-!
# The guess limit of database version 2

Between two backups of an id at most as many wrong PINs are compared with the stored one as the
first of the two allows, and none before the backup was exposed by somebody who knows the secret.
-/

namespace SVR2.DB2

open Lib

/-- A client log that is run, and whether the Merkle leaf of its row verifies then. -/
structure Op where
  log : Log2
  verifies : Bool
deriving DecidableEq

def Op.Valid (op : Op) : Prop := validateClientLog op.log = .ok

instance (op : Op) : Decidable op.Valid := inferInstanceAs (Decidable (_ = _))

def Op.Backs (op : Op) (id : Bytes) : Prop :=
  ∃ data pin maxTries, op.log = ⟨id, .backup data pin maxTries⟩

def apply (db : DB2) (op : Op) : DB2 := (db.run op.verifies op.log).1

def respond (db : DB2) (op : Op) : Response := (db.run op.verifies op.log).2

def after (db : DB2) (ops : List Op) : DB2 := ops.foldl apply db

/-- The operation compares a wrong PIN with the stored one of the id. -/
def wrongGuess (id : Bytes) (db : DB2) (op : Op) : Bool :=
  op.log.backupId = id && op.verifies && match op.log.req, db.rows.find? id with
    | .restore pin, some row => row.state = .available && pin ≠ row.pin
    | _, _ => false

def wrongGuesses (id : Bytes) : DB2 → List Op → Nat
  | _, [] => 0
  | db, op :: ops => (db.wrongGuess id op).toNat + wrongGuesses id (db.apply op) ops

def Response.tries? : Response → Option Nat
  | .restore .ok _ n => some n
  | .restore .pinMismatch _ n => some n
  | .tries .ok n _ => some n
  | _ => none

/-- Somebody who knows `data` exposes the id during the operations. -/
def Exposed (id data : Bytes) (db : DB2) (ops : List Op) : Prop :=
  ∃ before op rest shown, ops = before ++ op :: rest ∧ op.log = ⟨id, .expose shown⟩ ∧
    data <+: shown ∧ (db.after before).respond op = .expose .ok

theorem after_append (db : DB2) (ops ops' : List Op) :
    db.after (ops ++ ops') = (db.after ops).after ops' := List.foldl_append

theorem wrongGuesses_append (id : Bytes) (db : DB2) (ops ops' : List Op) :
    wrongGuesses id db (ops ++ ops') =
      wrongGuesses id db ops + wrongGuesses id (db.after ops) ops' := by
  induction ops generalizing db with
  | nil => simp [wrongGuesses, after]
  | cons x ops ih =>
    rw [List.cons_append, wrongGuesses, wrongGuesses, ih, Nat.add_assoc]
    rfl

theorem wrongGuesses_snoc (id : Bytes) (db : DB2) (ops : List Op) (op : Op) :
    wrongGuesses id db (ops ++ [op]) =
      wrongGuesses id db ops + ((db.after ops).wrongGuess id op).toNat :=
  wrongGuesses_append id db ops [op]

theorem Exposed.append {id data : Bytes} {db : DB2} {ops : List Op} (h : Exposed id data db ops)
    (op : Op) : Exposed id data db (ops ++ [op]) := by
  obtain ⟨before, e, rest, shown, rfl, he⟩ := h
  exact ⟨before, e, rest ++ [op], shown, by simp, he⟩

/-! ### One operation -/

theorem apply_find?_of_ne {db : DB2} {op : Op} {id : Bytes} (h : op.log.backupId ≠ id) :
    (db.apply op).rows.find? id = db.rows.find? id := by
  obtain ⟨⟨key, req⟩, verifies⟩ := op
  simp only at h
  cases req with
  | restore pin =>
    simp only [apply, run, restore]
    split
    · rfl
    · split_ifs <;> simp [h, Ne.symm h]
  | expose data =>
    simp only [apply, run, expose]
    split
    · rfl
    · split_ifs <;> simp [h]
  | _ => simp [apply, run, backup, delete, h, Ne.symm h]

/-- What an operation does to its own row, and its response, are the row's business. -/
theorem run_congr {db db' : DB2} {op : Op}
    (h : db.rows.find? op.log.backupId = db'.rows.find? op.log.backupId) :
    db.respond op = db'.respond op ∧
      (db.apply op).rows.find? op.log.backupId = (db'.apply op).rows.find? op.log.backupId := by
  obtain ⟨⟨key, req⟩, verifies⟩ := op
  simp only at h
  cases req with
  | restore pin =>
    simp only [apply, respond, run, restore, h]
    cases hrow : db'.rows.find? key with
    | none => simp [h, hrow]
    | some row => dsimp only; split_ifs <;> simp [h, hrow]
  | expose data =>
    simp only [apply, respond, run, expose, h]
    cases hrow : db'.rows.find? key with
    | none => simp [h, hrow]
    | some row => dsimp only; split_ifs <;> simp [h, hrow]
  | _ => simp [apply, respond, run, backup, delete, triesLeft, h]

theorem not_wrongGuess_of_ne {db : DB2} {op : Op} {id : Bytes} (h : op.log.backupId ≠ id) :
    db.wrongGuess id op = false := by
  simp [wrongGuess, h]

/-- What an operation on the id can do to its row, other than a backup. -/
inductive RowStep (row : Option Row) (op : Op) (response : Response) (wrong : Bool) :
    Option Row → Prop where
  /-- It reads the row, or fails. -/
  | same (htries : ∀ n, response.tries? = some n → ∃ r, row = some r ∧ n = r.tries.toNat)
      (hrestore : ∀ data n, response = .restore .ok data n ∨ response = .restore .pinMismatch data n →
        ∃ r, row = some r ∧ r.state = .available)
      (hwrong : wrong = false) : RowStep row op response wrong row
  /-- It removes the row, and reports nothing. -/
  | removed (htries : response.tries? = none) (hwrong : wrong = false) :
      RowStep row op response wrong none
  | lastGuess (r : Row) (hrow : row = some r) (htries : response.tries? = none)
      (hzero : r.tries - 1 = 0) (hwrong : wrong = true) : RowStep row op response wrong none
  | guess (r : Row) (hrow : row = some r) (hstate : r.state = .available)
      (hresponse : response = .restore .pinMismatch [] (r.tries - 1).toNat)
      (hpos : r.tries - 1 ≠ 0) (hwrong : wrong = true) :
      RowStep row op response wrong (some { r with tries := r.tries - 1 })
  | exposed (r : Row) (shown : Bytes) (hrow : row = some r) (hop : op.log.req = .expose shown)
      (hdata : r.data <+: shown) (hresponse : response = .expose .ok) (hwrong : wrong = false) :
      RowStep row op response wrong (some { r with state := .available })

theorem rowStep (db : DB2) {op : Op} (hop : ¬op.Backs op.log.backupId) :
    RowStep (db.rows.find? op.log.backupId) op (db.respond op)
      (db.wrongGuess op.log.backupId op) ((db.apply op).rows.find? op.log.backupId) := by
  obtain ⟨⟨id, req⟩, verifies⟩ := op
  cases req with
  | backup data pin maxTries => exact absurd ⟨data, pin, maxTries, rfl⟩ hop
  | restore pin =>
    simp only [apply, respond, run, restore, wrongGuess]
    cases hrow : db.rows.find? id with
    | none => simpa [hrow] using RowStep.same (by simp [Response.tries?]) (by simp) rfl
    | some row =>
      obtain ⟨state, tries, data, stored⟩ := row
      by_cases hstate : state = .available
      · subst hstate
        cases verifies with
        | false => simpa [hrow] using RowStep.same (by simp [Response.tries?]) (by simp) rfl
        | true =>
          by_cases hpin : pin = stored
          · simpa [hpin, hrow] using RowStep.same (by simp [Response.tries?]) (by simp) rfl
          · by_cases hzero : tries - 1 = 0
            · simpa [hpin, hzero] using RowStep.lastGuess _ rfl rfl hzero rfl
            · simpa [hpin, hzero] using RowStep.guess _ rfl rfl rfl hzero rfl
      · simpa [hstate, hrow] using RowStep.same (by simp [Response.tries?]) (by simp) rfl
  | expose shown =>
    simp only [apply, respond, run, expose, wrongGuess]
    cases hrow : db.rows.find? id with
    | none => simpa [hrow] using RowStep.same (by simp [Response.tries?]) (by simp) rfl
    | some row =>
      obtain ⟨state, tries, data, stored⟩ := row
      cases verifies with
      | false => simpa [hrow] using RowStep.same (by simp [Response.tries?]) (by simp) rfl
      | true =>
        by_cases hdata : data <+: shown
        · by_cases hstate : state = .populated ∨ state = .available
          · simpa [hdata, hstate] using RowStep.exposed _ shown rfl rfl hdata rfl rfl
          · simpa [hdata, hstate, hrow] using RowStep.same (by simp [Response.tries?]) (by simp) rfl
        · simpa [hdata, hrow] using RowStep.same (by simp [Response.tries?]) (by simp) rfl
  | delete => simpa [apply, respond, run, delete, wrongGuess] using RowStep.removed rfl rfl
  | tries =>
    simp only [apply, respond, run, triesLeft, wrongGuess]
    cases hrow : db.rows.find? id with
    | none => simpa using RowStep.same (by simp [Response.tries?]) (by simp) rfl
    | some row => simpa using RowStep.same (by simp [Response.tries?]) (by simp) rfl
  | notSet =>
    simpa [apply, respond, run, wrongGuess] using
      RowStep.same (by simp [Response.tries?]) (by simp) rfl

/-- A PIN is compared only with that of a row that is available. -/
theorem available_of_restore {db : DB2} {op : Op} {secret : Bytes} {n : Nat}
    (h : db.respond op = .restore .ok secret n ∨ db.respond op = .restore .pinMismatch secret n) :
    ∃ row, db.rows.find? op.log.backupId = some row ∧ row.state = .available := by
  have hop : ¬op.Backs op.log.backupId := by
    rintro ⟨data, pin, maxTries, hlog⟩
    rw [respond, hlog] at h
    rcases h with h | h <;> cases h
  have hstep := db.rowStep hop
  generalize (db.apply op).rows.find? op.log.backupId = row' at hstep
  cases hstep with
  | same _ hrestore => exact hrestore secret n h
  | guess r hrow hstate => exact ⟨r, hrow, hstate⟩
  | removed htries => rcases h with h | h <;> simp [h, Response.tries?] at htries
  | lastGuess r _ htries => rcases h with h | h <;> simp [h, Response.tries?] at htries
  | exposed r shown _ _ _ hresponse => rcases h with h | h <;> simp [h] at hresponse

/-! ### From one backup to the next -/

/-- What is left of a backup of the id after some operations on the database `db` that it left. -/
structure Kept (id data pin : Bytes) (maxTries : Nat) (db : DB2) (ops : List Op) : Prop where
  guesses : wrongGuesses id db ops ≤ maxTries
  row : ∀ row, (db.after ops).rows.find? id = some row → row.data = data ∧ row.pin = pin ∧
    0 < row.tries.toNat ∧ row.tries.toNat + wrongGuesses id db ops = maxTries ∧
    (row.state = .available → Exposed id data db ops)

variable {id data pin : Bytes} {maxTries : Nat} {db : DB2} {ops : List Op} {op : Op}

theorem kept_backup (hlog : op.log = ⟨id, .backup data pin maxTries⟩) (hvalid : op.Valid) :
    Kept id data pin maxTries (db.apply op) [] where
  guesses := Nat.zero_le _
  row := by
    intro row hrow
    have htries : 1 ≤ maxTries ∧ maxTries ≤ 255 := by
      simp only [Op.Valid, hlog, validateClientLog] at hvalid
      split_ifs at hvalid with _ _ _ _ hmax hmin
      rw [MAX_ALLOWED_MAX_TRIES] at hmax
      rw [MIN_ALLOWED_MAX_TRIES] at hmin
      omega
    simp only [after, List.foldl_nil, apply, hlog, run, backup, OrdMap.find?_insert, if_true,
      Option.some.injEq] at hrow
    subst hrow
    have hnat : (UInt8.ofNat maxTries).toNat = maxTries := by
      rw [UInt8.toNat_ofNat']
      omega
    refine ⟨rfl, rfl, by rw [hnat]; omega, by rw [hnat]; rfl, ?_⟩
    intro h
    cases h

/-- The tries that a response reports are those that the guesses so far have left. -/
theorem Kept.tries_eq (h : Kept id data pin maxTries db ops) (hid : op.log.backupId = id)
    (hop : ¬op.Backs id) {n : Nat} (hn : ((db.after ops).respond op).tries? = some n) :
    n + wrongGuesses id db (ops ++ [op]) = maxTries := by
  subst hid
  rw [wrongGuesses_snoc]
  have hstep := (db.after ops).rowStep hop
  generalize ((db.after ops).apply op).rows.find? op.log.backupId = row' at hstep
  cases hstep with
  | same htries _ hwrong =>
    obtain ⟨r, hr, rfl⟩ := htries n hn
    rw [hwrong]
    exact (h.row r hr).2.2.2.1
  | removed htries hwrong => simp [htries] at hn
  | lastGuess r hrow htries hzero hwrong => simp [htries] at hn
  | guess r hrow hstate hresponse hpos hwrong =>
    obtain ⟨-, -, hr, hsum, -⟩ := h.row r hrow
    simp only [hresponse, Response.tries?, Option.some.injEq] at hn
    have hpred : (r.tries - 1).toNat = r.tries.toNat - 1 := UInt8.toNat_sub_of_le r.tries 1 hr
    rw [hwrong, ← hn, hpred, Bool.toNat_true]
    omega
  | exposed r shown hrow _ hdata hresponse hwrong => simp [hresponse, Response.tries?] at hn

theorem Kept.step (h : Kept id data pin maxTries db ops) (hop : ¬op.Backs id) :
    Kept id data pin maxTries db (ops ++ [op]) := by
  have hafter : db.after (ops ++ [op]) = (db.after ops).apply op := by
    rw [after_append]
    rfl
  by_cases hid : op.log.backupId = id
  · subst hid
    have hstep := (db.after ops).rowStep hop
    generalize hrow' : ((db.after ops).apply op).rows.find? op.log.backupId = row' at hstep
    have hcount := wrongGuesses_snoc op.log.backupId db ops op
    cases hstep with
    | same _ _ hwrong =>
      rw [hwrong, Bool.toNat_false, Nat.add_zero] at hcount
      refine ⟨by rw [hcount]; exact h.guesses, ?_⟩
      intro row hrow
      rw [hafter, hrow'] at hrow
      obtain ⟨hdata, hpin, hpos, hsum, hexposed⟩ := h.row row hrow
      exact ⟨hdata, hpin, hpos, by rw [hcount]; exact hsum, fun hs => (hexposed hs).append op⟩
    | removed _ hwrong =>
      rw [hwrong, Bool.toNat_false, Nat.add_zero] at hcount
      refine ⟨by rw [hcount]; exact h.guesses, ?_⟩
      intro row hrow
      rw [hafter, hrow'] at hrow
      cases hrow
    | lastGuess r hrow _ hzero hwrong =>
      obtain ⟨-, -, hpos, hsum, -⟩ := h.row r hrow
      rw [hwrong, Bool.toNat_true] at hcount
      refine ⟨by omega, ?_⟩
      intro row hrow
      rw [hafter, hrow'] at hrow
      cases hrow
    | guess r hrow hstate _ hpos hwrong =>
      obtain ⟨hdata, hpin, hr, hsum, hexposed⟩ := h.row r hrow
      rw [hwrong, Bool.toNat_true] at hcount
      have hpred : (r.tries - 1).toNat = r.tries.toNat - 1 := UInt8.toNat_sub_of_le r.tries 1 hr
      have hne : (r.tries - 1).toNat ≠ 0 := fun h0 => hpos (UInt8.toNat_inj.mp h0)
      refine ⟨by omega, ?_⟩
      intro row hrow
      rw [hafter, hrow'] at hrow
      cases hrow
      exact ⟨hdata, hpin, Nat.pos_of_ne_zero hne, by dsimp only; omega,
        fun hs => (hexposed hs).append op⟩
    | exposed r shown hrow hreq hdata' hresponse hwrong =>
      obtain ⟨hdata, hpin, hr, hsum, hexposed⟩ := h.row r hrow
      rw [hwrong, Bool.toNat_false, Nat.add_zero] at hcount
      refine ⟨by rw [hcount]; exact h.guesses, ?_⟩
      intro row hrow
      rw [hafter, hrow'] at hrow
      cases hrow
      refine ⟨hdata, hpin, hr, by rw [hcount]; exact hsum, fun _ => ?_⟩
      refine ⟨ops, op, [], shown, rfl, ?_, hdata ▸ hdata', hresponse⟩
      obtain ⟨⟨key, req⟩, verifies⟩ := op
      exact congrArg (Log2.mk key) hreq
  · have hcount : wrongGuesses id db (ops ++ [op]) = wrongGuesses id db ops := by
      rw [wrongGuesses_snoc, not_wrongGuess_of_ne hid]
      rfl
    refine ⟨by rw [hcount]; exact h.guesses, ?_⟩
    intro row hrow
    rw [hafter, apply_find?_of_ne hid] at hrow
    obtain ⟨hdata, hpin, hr, hsum, hexposed⟩ := h.row row hrow
    exact ⟨hdata, hpin, hr, by rw [hcount]; exact hsum, fun hs => (hexposed hs).append op⟩

/-- What is left of a valid backup at any time before the next one. -/
theorem kept_until_backup (hlog : op.log = ⟨id, .backup data pin maxTries⟩) (hvalid : op.Valid)
    (hops : ∀ x ∈ ops, ¬x.Backs id) : Kept id data pin maxTries (db.apply op) ops := by
  induction ops using List.reverseRecOn with
  | nil => exact kept_backup hlog hvalid
  | append_singleton ops x ih =>
    refine (ih fun y hy => hops y ?_).step (hops x ?_)
    · exact List.mem_append_left _ hy
    · exact List.mem_append_right _ (List.mem_singleton.mpr rfl)

theorem exists_last_backup (h : (newDB.after ops).rows.find? id ≠ none) :
    ∃ before b mid data pin maxTries, ops = before ++ b :: mid ∧
      b.log = ⟨id, .backup data pin maxTries⟩ ∧ ∀ x ∈ mid, ¬x.Backs id := by
  induction ops using List.reverseRecOn with
  | nil => exact absurd (OrdMap.find?_empty id) h
  | append_singleton ops x ih =>
    by_cases hx : x.Backs id
    · obtain ⟨data, pin, maxTries, hlog⟩ := hx
      exact ⟨ops, x, [], data, pin, maxTries, rfl, hlog, by simp⟩
    · have hbefore : (newDB.after ops).rows.find? id ≠ none := by
        intro hnone
        apply h
        rw [after_append]
        by_cases hid : x.log.backupId = id
        · subst hid
          have hstep := (newDB.after ops).rowStep hx
          rw [hnone] at hstep
          show ((newDB.after ops).apply x).rows.find? x.log.backupId = none
          generalize ((newDB.after ops).apply x).rows.find? x.log.backupId = row' at hstep
          cases hstep with
          | guess r hrow => cases hrow
          | exposed r shown hrow => cases hrow
          | _ => rfl
        · exact (apply_find?_of_ne hid).trans hnone
      obtain ⟨before, b, mid, data, pin, maxTries, rfl, hlog, hmid⟩ := ih hbefore
      refine ⟨before, b, mid ++ [x], data, pin, maxTries, by simp, hlog, ?_⟩
      intro y hy
      rcases List.mem_append.mp hy with hy | hy
      · exact hmid y hy
      · exact List.mem_singleton.mp hy ▸ hx

theorem after_filter_find? (db : DB2) (ops : List Op) (id : Bytes) :
    (db.after ops).rows.find? id =
      (db.after (ops.filter fun op => op.log.backupId = id)).rows.find? id := by
  refine foldl_filter (fun db : DB2 => db.rows.find? id) (fun db op hid => ?_)
    (fun db db' op hid h => ?_) rfl ops
  · exact apply_find?_of_ne (of_decide_eq_false hid)
  · obtain rfl := of_decide_eq_true hid
    exact (run_congr h).2

/-- What limits the guesses of an id's PIN while operations are run on an empty database. -/
structure GuessLimited (ops : List Op) (id : Bytes) : Prop where
  /-- Until the next backup, at most `max_tries` wrong PINs are compared with the stored one. -/
  limit : ∀ before b mid rest data pin maxTries, ops = before ++ b :: mid ++ rest →
    b.log = ⟨id, .backup data pin maxTries⟩ → (∀ x ∈ mid, ¬x.Backs id) →
    wrongGuesses id (newDB.after (before ++ [b])) mid ≤ maxTries
  /-- After that many, no restore succeeds until the next backup. -/
  spent : ∀ before b mid op rest data pin maxTries secret n,
    ops = before ++ b :: mid ++ op :: rest →
    b.log = ⟨id, .backup data pin maxTries⟩ → (∀ x ∈ mid, ¬x.Backs id) →
    wrongGuesses id (newDB.after (before ++ [b])) mid = maxTries → op.log.backupId = id →
    (newDB.after (before ++ b :: mid)).respond op ≠ .restore .ok secret n
  /-- A PIN is compared only if, since the last backup, the secret was exposed by somebody who
      knows it. -/
  exposed : ∀ before op rest secret n, ops = before ++ op :: rest → op.log.backupId = id →
    (newDB.after before).respond op = .restore .ok secret n ∨
      (newDB.after before).respond op = .restore .pinMismatch secret n →
    ∃ start b mid data pin maxTries, before = start ++ b :: mid ∧
      b.log = ⟨id, .backup data pin maxTries⟩ ∧ (∀ x ∈ mid, ¬x.Backs id) ∧
      Exposed id data (newDB.after (start ++ [b])) mid
  /-- The tries that are reported never rise until the next backup. -/
  falling : ∀ before b mid x mid' y rest data pin maxTries n n',
    ops = before ++ b :: mid ++ x :: mid' ++ y :: rest →
    b.log = ⟨id, .backup data pin maxTries⟩ →
    (∀ z ∈ mid ++ x :: mid' ++ [y], ¬z.Backs id) →
    x.log.backupId = id → y.log.backupId = id →
    ((newDB.after (before ++ b :: mid)).respond x).tries? = some n →
    ((newDB.after (before ++ b :: mid ++ x :: mid')).respond y).tries? = some n' → n' ≤ n
  /-- Neither the row of the id nor a response about it depends on operations on other ids. -/
  others : ∀ before rest, ops = before ++ rest →
    (newDB.after before).rows.find? id =
      (newDB.after (before.filter fun op => op.log.backupId = id)).rows.find? id ∧
    ∀ op, op.log.backupId = id → (newDB.after before).respond op =
      (newDB.after (before.filter fun op => op.log.backupId = id)).respond op

/-- The guess limit holds for every id and every run of valid operations. -/
theorem guesses_are_limited (ops : List Op) (hvalid : ∀ op ∈ ops, op.Valid) (id : Bytes) :
    GuessLimited ops id := by
  have hkept : ∀ (before : List Op) b mid data pin maxTries, b ∈ ops →
      b.log = ⟨id, .backup data pin maxTries⟩ → (∀ x ∈ mid, ¬x.Backs id) →
      Kept id data pin maxTries (newDB.after (before ++ [b])) mid := by
    intro before b mid data pin maxTries hb hlog hmid
    rw [after_append]
    exact kept_until_backup hlog (hvalid b hb) hmid
  refine ⟨?_, ?_, ?_, ?_, ?_⟩
  · rintro before b mid rest data pin maxTries rfl hlog hmid
    exact (hkept before b mid data pin maxTries (by simp) hlog hmid).guesses
  · rintro before b mid op rest data pin maxTries secret n rfl hlog hmid hspent hid hok
    obtain ⟨row, hrow, -⟩ := available_of_restore (.inl hok)
    rw [hid, List.append_cons, after_append] at hrow
    obtain ⟨-, -, hpos, hsum, -⟩ :=
      (hkept before b mid data pin maxTries (by simp) hlog hmid).row row hrow
    omega
  · rintro before op rest secret n rfl hid hresponse
    obtain ⟨row, hrow, havailable⟩ := available_of_restore hresponse
    rw [hid] at hrow
    obtain ⟨start, b, mid, data, pin, maxTries, rfl, hlog, hmid⟩ :=
      exists_last_backup (by rw [hrow]; exact Option.some_ne_none row)
    rw [List.append_cons, after_append] at hrow
    obtain ⟨-, -, -, -, hexposed⟩ :=
      (hkept start b mid data pin maxTries (by simp) hlog hmid).row row hrow
    exact ⟨start, b, mid, data, pin, maxTries, rfl, hlog, hmid, hexposed havailable⟩
  · rintro before b mid x mid' y rest data pin maxTries n n' rfl hlog hmid hx hy hn hn'
    have h := hkept before b mid data pin maxTries (by simp) hlog fun z hz => hmid z (by simp [hz])
    have h' := hkept before b (mid ++ x :: mid') data pin maxTries (by simp) hlog fun z hz =>
      hmid z (List.mem_append_left _ hz)
    rw [List.append_cons, after_append] at hn
    rw [List.append_assoc, List.cons_append, List.append_cons, after_append] at hn'
    have hsum := h.tries_eq hx (hmid x (by simp)) hn
    have hsum' := h'.tries_eq hy (hmid y (by simp)) hn'
    have hmono : wrongGuesses id (newDB.after (before ++ [b])) (mid ++ [x]) ≤
        wrongGuesses id (newDB.after (before ++ [b])) (mid ++ x :: mid' ++ [y]) := by
      have hsplit : mid ++ x :: mid' ++ [y] = mid ++ [x] ++ (mid' ++ [y]) := by simp
      rw [hsplit, wrongGuesses_append id _ (mid ++ [x])]
      exact Nat.le_add_right _ _
    omega
  · rintro before rest rfl
    have hrow := after_filter_find? newDB before id
    refine ⟨hrow, fun op hid => (run_congr ?_).1⟩
    rw [hid]
    exact hrow

/-- A backup with two tries that is exposed, and then asked for with a wrong PIN. -/
def sampleOps : List Op :=
  let id := List.replicate 16 1
  let data := List.replicate 16 2
  [⟨⟨id, .backup data (List.replicate 32 3) 2⟩, true⟩, ⟨⟨id, .expose data⟩, true⟩,
    ⟨⟨id, .restore (List.replicate 32 4)⟩, true⟩]

theorem guesses_are_limited_sampleOps :
    (∀ op ∈ sampleOps, op.Valid) ∧ GuessLimited sampleOps (List.replicate 16 1) :=
  have hvalid : ∀ op ∈ sampleOps, op.Valid := by decide
  ⟨hvalid, guesses_are_limited sampleOps hvalid _⟩

end SVR2.DB2
