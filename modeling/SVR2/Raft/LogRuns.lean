import SVR2.Lib.Runs
import SVR2.Raft.HashChain

/-!
# Runs of the log alone

Any sequence of `Append`, `CancelFrom` and `SetNextIdx` on a log that starts empty: how many
bytes the log thinks it holds, and which index each entry has for those who ask.

`RemoveOldestLogOlderThan` takes the front of the queue without looking whether there is one.
The model stops there; `RoomLoopDefined` says when the source does not get there.
-/

namespace SVR2

open Lib

variable {Hash : Type} [Platform Hash]

namespace Log

inductive Op (Hash : Type) where
  | append (e : LogEntry Hash) (maybeTruncateTo : Nat)
  | cancelFrom (fromLogIdx : Nat)
  | setNextIdx (idx : Nat)

def call (log : Log Hash) : Op Hash → Log Hash × Error
  | .append e maybeTruncateTo => log.append e maybeTruncateTo
  | .cancelFrom fromLogIdx => log.cancelFrom fromLogIdx
  | .setNextIdx idx => log.setNextIdx idx

def apply (log : Log Hash) (op : Op Hash) : Log Hash := (log.call op).1

/-! ### Bytes -/

def bytesOf (es : List (LogEntry Hash)) : Nat := (es.map logentryBytesInLog).sum

def storedFrom (log : Log Hash) (n : Nat) : List (LogEntry Hash) :=
  log.entries.drop (n - log.oldestStoredIdx)

/-- The byte count is that of the stored entries, and within the limit. -/
structure Accounted (log : Log Hash) : Prop where
  curr : log.currBytes = bytesOf log.entries
  le : log.currBytes ≤ log.maxBytes

/-- `Append` of `e` never removes from an empty queue: the entry fits into an empty log, or
    the bound is not past the end. -/
def RoomLoopDefined (log : Log Hash) (e : LogEntry Hash) (n : Nat) : Prop :=
  logentryBytesInLog e ≤ log.maxBytes ∨ n ≤ log.oldestStoredIdx + log.entries.length

instance (log : Log Hash) (e : LogEntry Hash) (n : Nat) : Decidable (log.RoomLoopDefined e n) :=
  inferInstanceAs (Decidable (_ ∨ _))

/-- A call that leaves the count right: `CancelFrom` forgets the bytes of what it drops. -/
def DropsNothing (log : Log Hash) : Op Hash → Prop
  | .append e n => log.RoomLoopDefined e n
  | .cancelFrom i => i < log.oldestStoredIdx ∨ i = log.oldestStoredIdx + log.entries.length
  | .setNextIdx _ => True

instance (log : Log Hash) : ∀ op, Decidable (log.DropsNothing op)
  | .append e n => inferInstanceAs (Decidable (log.RoomLoopDefined e n))
  | .cancelFrom _ => inferInstanceAs (Decidable (_ ∨ _))
  | .setNextIdx _ => .isTrue trivial

@[simp] theorem bytesOf_nil : bytesOf ([] : List (LogEntry Hash)) = 0 := rfl

@[simp] theorem bytesOf_cons (e : LogEntry Hash) (es : List (LogEntry Hash)) :
    bytesOf (e :: es) = logentryBytesInLog e + bytesOf es := by
  simp [bytesOf]

theorem bytesOf_append (es es' : List (LogEntry Hash)) :
    bytesOf (es ++ es') = bytesOf es + bytesOf es' := by
  simp [bytesOf]

theorem accounted_new (maxBytes : Nat) : (new maxBytes : Log Hash).Accounted :=
  ⟨rfl, Nat.zero_le _⟩

/-- What the loop of `Append` leaves: the count is still right, and either there is room or
    nothing more may go. -/
theorem Accounted.makeRoom {log : Log Hash} (h : log.Accounted) (mem n : Nat) {fuel : Nat}
    (hfuel : log.entries.length ≤ fuel) :
    (makeRoom mem n fuel log).1.Accounted ∧
      (makeRoom mem n fuel log).1.maxBytes = log.maxBytes ∧
      if (makeRoom mem n fuel log).2 then
        (makeRoom mem n fuel log).1.currBytes + mem ≤ log.maxBytes
      else log.maxBytes < (makeRoom mem n fuel log).1.currBytes + mem ∧
        (n ≤ (makeRoom mem n fuel log).1.oldestStoredIdx ∨
          (makeRoom mem n fuel log).1.entries = []) := by
  induction fuel generalizing log with
  | zero =>
    have hnil : log.entries = [] := List.length_eq_zero_iff.mp (Nat.le_zero.mp hfuel)
    refine ⟨h, rfl, ?_⟩
    by_cases hroom : log.currBytes + mem ≤ log.maxBytes
    · simp [Log.makeRoom, hroom]
    · simp [Log.makeRoom, hroom, hnil]
      omega
  | succ fuel ih =>
    rw [Log.makeRoom]
    by_cases hroom : log.currBytes + mem ≤ log.maxBytes
    · rw [if_pos hroom]
      exact ⟨h, rfl, hroom⟩
    rw [if_neg hroom]
    cases hremove : log.removeOldestLogOlderThan n with
    | none =>
      refine ⟨h, rfl, by simp only; omega, ?_⟩
      rw [removeOldestLogOlderThan] at hremove
      split_ifs at hremove with hle
      · exact .inl hle
      · refine .inr ?_
        cases hentries : log.entries with
        | nil => rfl
        | cons e rest => simp [hentries] at hremove
    | some log' =>
      rw [removeOldestLogOlderThan] at hremove
      split_ifs at hremove with hle
      cases hentries : log.entries with
      | nil => simp [hentries] at hremove
      | cons e rest =>
        simp only [hentries, Option.some.injEq] at hremove
        have hcurr := h.curr
        rw [hentries, bytesOf_cons] at hcurr
        rw [hentries, List.length_cons] at hfuel
        have h' : log'.Accounted := by
          subst hremove
          exact ⟨by dsimp only; omega, (Nat.sub_le _ _).trans h.le⟩
        have hmax : log'.maxBytes = log.maxBytes := by rw [← hremove]
        have hlen : log'.entries.length ≤ fuel := by
          subst hremove
          exact Nat.le_of_succ_le_succ hfuel
        have hih := ih h' hlen
        rw [hmax] at hih
        exact hih

theorem Accounted.append {log : Log Hash} (h : log.Accounted) (e : LogEntry Hash) (n : Nat) :
    (log.append e n).1.Accounted := by
  obtain ⟨hacc, hmax, hroom⟩ := h.makeRoom (logentryBytesInLog e) n le_rfl
  rcases hmake : Log.makeRoom (logentryBytesInLog e) n log.entries.length log with ⟨log', room⟩
  rw [hmake] at hacc hmax hroom
  dsimp only at hacc hmax
  by_cases hterm : e.term = 0
  · simpa [Log.append, hterm] using h
  by_cases hhash : e.hashChain = none
  · simpa [Log.append, hterm, hhash] using h
  cases room with
  | false => simpa [Log.append, hterm, hhash, hmake] using hacc
  | true =>
    by_cases hsize : INT_MAX < Platform.byteSizeLong e
    · simpa [Log.append, hterm, hhash, hmake, hsize] using hacc
    · simp only [Log.append, hterm, hhash, hmake, hsize, if_false]
      have hle : log'.currBytes + logentryBytesInLog e ≤ log.maxBytes := hroom
      refine ⟨?_, hle.trans_eq hmax.symm⟩
      simp [bytesOf_append, hacc.curr]

theorem Accounted.apply {log : Log Hash} (h : log.Accounted) {op : Op Hash}
    (hop : log.DropsNothing op) : (log.apply op).Accounted := by
  cases op with
  | append e n => exact h.append e n
  | cancelFrom i =>
    rw [Log.apply, call, Log.cancelFrom]
    rcases hop with hlt | rfl
    · rw [if_pos hlt]
      exact h
    · rw [if_neg (by omega), Nat.add_sub_cancel_left, List.take_length]
      exact h
  | setNextIdx idx =>
    rw [Log.apply, call, Log.setNextIdx]
    split_ifs
    · exact h
    · exact ⟨h.curr, h.le⟩

/-- What `LogOutOfSpace` means: the entries from the bound on and the new one do not fit, and all
    entries before the bound are gone. -/
theorem Accounted.outOfSpace {log : Log Hash} (h : log.Accounted) {e : LogEntry Hash} {n : Nat}
    (herr : (log.append e n).2 = .raftLogOutOfSpace) :
    log.maxBytes < bytesOf (log.storedFrom n) + logentryBytesInLog e ∧
      (log.RoomLoopDefined e n → n ≤ (log.append e n).1.oldestStoredIdx) := by
  have hterm : e.term ≠ 0 := by
    intro hterm
    simp [Log.append, hterm] at herr
  have hhash : e.hashChain ≠ none := by
    intro hhash
    simp [Log.append, hterm, hhash] at herr
  obtain ⟨hacc, hmax, hroom⟩ := h.makeRoom (logentryBytesInLog e) n le_rfl
  obtain ⟨k, hk, holdest, hentries⟩ := makeRoom_drop (logentryBytesInLog e) n log.entries.length log
  rcases hmake : Log.makeRoom (logentryBytesInLog e) n log.entries.length log with ⟨log', room⟩
  rw [hmake] at hacc hmax hroom holdest hentries
  cases room with
  | true =>
    by_cases hsize : INT_MAX < Platform.byteSizeLong e
    · simp [Log.append, hterm, hhash, hmake, hsize] at herr
    · simp [Log.append, hterm, hhash, hmake, hsize] at herr
  | false =>
    have happend : log.append e n = (log', .raftLogOutOfSpace) := by
      simp [Log.append, hterm, hhash, hmake]
    dsimp only at holdest hentries
    simp only [Bool.false_eq_true, if_false] at hroom
    obtain ⟨hfull, hend⟩ := hroom
    rw [happend]
    have hcurr := hacc.curr
    dsimp only at hcurr
    refine ⟨?_, fun hdefined => ?_⟩
    · -- what is left is what is stored from the bound on, or nothing at all
      have hleft : log'.entries = log.storedFrom n := by
        rcases hend with hend | hend
        · rw [hentries, storedFrom, show k = n - log.oldestStoredIdx by omega]
        · rw [hend, storedFrom, eq_comm, List.drop_eq_nil_iff]
          have hlen : log.entries.length ≤ k := List.drop_eq_nil_iff.mp (hentries.symm.trans hend)
          omega
      rw [← hleft, ← hcurr]
      exact hfull
    · rcases hend with hend | hend
      · exact hend
      · have hlen : log.entries.length ≤ k := List.drop_eq_nil_iff.mp (hentries.symm.trans hend)
        rw [hend, bytesOf_nil] at hcurr
        rcases hdefined with hfits | hbound
        · omega
        · dsimp only
          omega

omit [Platform Hash] in
theorem at?_eq_some_iff {log : Log Hash} {i : Nat} {x : LogEntry Hash} :
    log.at? i = some x ↔ ∃ j, i = log.oldestStoredIdx + j ∧ log.entries[j]? = some x := by
  rw [at?]
  constructor
  · intro h
    split_ifs at h
    exact ⟨i - log.oldestStoredIdx, by omega, h⟩
  · rintro ⟨j, rfl, h⟩
    rw [if_neg (by omega), Nat.add_sub_cancel_left]
    exact h

/-- `Append` gives up no entry at or after its bound. -/
theorem at?_append_of_le {log : Log Hash} (e : LogEntry Hash) {n i : Nat} {x : LogEntry Hash}
    (hi : n ≤ i) (hx : log.at? i = some x) : (log.append e n).1.at? i = some x := by
  obtain ⟨j, rfl, hj⟩ := at?_eq_some_iff.mp hx
  obtain ⟨k, hk, holdest, hentries⟩ := log.append_drop e n
  have hkeep : (log.entries.drop k)[j - k]? = some x := by
    rw [List.getElem?_drop, show k + (j - k) = j by omega]
    exact hj
  refine at?_eq_some_iff.mpr ⟨j - k, by omega, ?_⟩
  rcases hentries with ⟨hentries, -⟩ | ⟨hentries, -, -⟩
  · rw [hentries]
    exact hkeep
  · rw [hentries, List.getElem?_append_left (List.getElem?_eq_some_iff.mp hkeep).1]
    exact hkeep

/-- As long as nothing stored is cancelled, the byte count is the sum over the stored entries and
    within the limit.  Then `Append` runs out of space only if the entries from its bound on and
    the new one do not fit, and it gives up none of them. -/
theorem bytes_accounted (maxBytes : Nat) (ops : List (Op Hash))
    (h : Along apply DropsNothing (new maxBytes) ops) :
    let log := ops.foldl apply (new maxBytes)
    log.currBytes = bytesOf log.entries ∧ log.currBytes ≤ log.maxBytes ∧
      ∀ e n,
        ((log.append e n).2 = .raftLogOutOfSpace →
          log.maxBytes < bytesOf (log.storedFrom n) + logentryBytesInLog e ∧
            (log.RoomLoopDefined e n → n ≤ (log.append e n).1.oldestStoredIdx)) ∧
        ∀ i x, n ≤ i → log.at? i = some x → (log.append e n).1.at? i = some x := by
  intro log
  have hacc : log.Accounted :=
    h.invariant (fun _ _ hlog hop => hlog.apply hop) (accounted_new maxBytes)
  exact ⟨hacc.curr, hacc.le, fun e n =>
    ⟨fun herr => hacc.outOfSpace herr, fun _ _ hi hx => at?_append_of_le e hi hx⟩⟩

end Log

namespace Sample

open Log

/-- The no-op of the leader of term 1: it takes 144 bytes. -/
def noopEntry : LogEntry IdealHash := ⟨1, .notSet, some [⟨1, 1, .notSet⟩]⟩

theorem bytes_accounted_evict :
    let log := [Op.append noopEntry 1, .append noopEntry 1, .append noopEntry 2].foldl Log.apply
      (Log.new 300)
    log.oldestStoredIdx = 2 ∧ log.currBytes = bytesOf log.entries ∧
      log.maxBytes < bytesOf (log.storedFrom 2) + logentryBytesInLog noopEntry := by
  have h := bytes_accounted 300
    [Op.append noopEntry 1, .append noopEntry 1, .append noopEntry 2] (by decide)
  exact ⟨by decide, h.1, ((h.2.2 noopEntry 2).1 (by decide)).1⟩

/-- A stored entry is cancelled twice, and the log, empty again, has no room left for it. -/
theorem cancelled_bytes_stay :
    let stored := (Log.new 300).apply (.append noopEntry 1)
    let log := [Op.append noopEntry 1, .cancelFrom 1, .append noopEntry 1, .cancelFrom 1].foldl
      Log.apply (Log.new 300)
    stored.at? 1 = some noopEntry ∧ log.entries = [] ∧ bytesOf log.entries = 0 ∧
      log.currBytes = 288 ∧ (log.append noopEntry 1).2 = .raftLogOutOfSpace ∧
      bytesOf (log.storedFrom 1) + logentryBytesInLog noopEntry ≤ log.maxBytes := by
  decide

end Sample

/-! ### Indexes -/

/-- A log, and the entry last placed at each index by an `Append` to which `next_idx()` had
    promised that index. -/
structure Recorded (Hash : Type) where
  log : Log Hash
  placed : Nat → Option (LogEntry Hash)

namespace Recorded

def new (maxBytes : Nat) : Recorded Hash := ⟨Log.new maxBytes, fun _ => none⟩

def apply (s : Recorded Hash) (op : Log.Op Hash) : Recorded Hash where
  log := s.log.apply op
  placed := if (s.log.call op).2 ≠ .ok then s.placed else match op with
    | .append e _ => Function.update s.placed s.log.nextIdx (some e)
    | .cancelFrom i => fun j => if i ≤ j then none else s.placed j
    | .setNextIdx _ => s.placed

/-- A call that succeeds, a cancellation being one at a stored index. -/
def Succeeds (s : Recorded Hash) (op : Log.Op Hash) : Prop :=
  (s.log.call op).2 = .ok ∧ ∀ i, op = .cancelFrom i → (s.log.at? i).isSome

/-- An empty log starts at index 1 when something is appended. -/
def Anchored (s : Recorded Hash) (op : Log.Op Hash) : Prop :=
  ∀ e n, op = .append e n → s.log.entries = [] → s.log.oldestStoredIdx = 1

instance (s : Recorded Hash) : ∀ op, Decidable (s.Succeeds op)
  | .append e n => decidable_of_iff ((s.log.append e n).2 = .ok)
      ⟨fun h => ⟨h, nofun⟩, fun h => h.1⟩
  | .cancelFrom i => decidable_of_iff ((s.log.cancelFrom i).2 = .ok ∧ (s.log.at? i).isSome)
      ⟨fun h => ⟨h.1, fun _ hi => Log.Op.cancelFrom.inj hi ▸ h.2⟩, fun h => ⟨h.1, h.2 i rfl⟩⟩
  | .setNextIdx idx => decidable_of_iff ((s.log.setNextIdx idx).2 = .ok)
      ⟨fun h => ⟨h, nofun⟩, fun h => h.1⟩

instance (s : Recorded Hash) : ∀ op, Decidable (s.Anchored op)
  | .append e n => decidable_of_iff (s.log.entries = [] → s.log.oldestStoredIdx = 1)
      ⟨fun h _ _ _ => h, fun h => h e n rfl⟩
  | .cancelFrom _ => .isTrue nofun
  | .setNextIdx _ => .isTrue nofun

def Placed (s : Recorded Hash) : Prop :=
  ∀ j x, s.log.entries[j]? = some x → s.placed (s.log.oldestStoredIdx + j) = some x

end Recorded

namespace Log

omit [Platform Hash] in
theorem nextIdx_of_anchored {log : Log Hash} (h : log.entries = [] → log.oldestStoredIdx = 1) :
    log.nextIdx = log.oldestStoredIdx + log.entries.length := by
  rw [nextIdx, lastIdx]
  split_ifs with hnil
  · rw [h hnil, hnil]
    rfl
  · have hpos : 0 < log.entries.length := List.length_pos_iff.mpr hnil
    omega

theorem at?_append_nextIdx {log : Log Hash} {e : LogEntry Hash} {n : Nat}
    (h : log.entries = [] → log.oldestStoredIdx = 1) (hok : (log.append e n).2 = .ok) :
    (log.append e n).1.at? log.nextIdx = some e := by
  obtain ⟨k, ⟨hk, -⟩, holdest, ⟨-, herr⟩ | ⟨hentries, -, -⟩⟩ := log.append_drop e n
  · exact absurd hok herr
  · have hnext := nextIdx_of_anchored h
    refine at?_eq_some_iff.mpr ⟨log.entries.length - k, by omega, ?_⟩
    rw [hentries, List.getElem?_append_right (by rw [List.length_drop]), List.length_drop,
      Nat.sub_self, List.getElem?_cons_zero]

def Stores (log : Log Hash) (i : Nat) : Prop :=
  log.entries ≠ [] ∧ log.oldestStored ≤ i ∧ i ≤ log.lastIdx

omit [Platform Hash] in
theorem stores_iff {log : Log Hash} {i : Nat} :
    log.Stores i ↔ log.oldestStoredIdx ≤ i ∧ i < log.oldestStoredIdx + log.entries.length := by
  rw [Stores, oldestStored, lastIdx]
  by_cases hnil : log.entries = []
  · simp only [hnil, ne_eq, not_true_eq_false, false_and, List.length_nil, false_iff]
    omega
  · have hpos : 0 < log.entries.length := List.length_pos_iff.mpr hnil
    simp only [ne_eq, hnil, not_false_eq_true, if_false, true_and]
    omega

omit [Platform Hash] in
theorem at?_isSome_iff {log : Log Hash} {i : Nat} : (log.at? i).isSome ↔ log.Stores i := by
  rw [stores_iff, at?]
  split_ifs with hlt
  · simp only [Option.isSome_none, Bool.false_eq_true, false_iff]
    omega
  · simp only [isSome_getElem?]
    omega

end Log

namespace Recorded

variable {s : Recorded Hash}

theorem Placed.append (h : s.Placed) {e : LogEntry Hash} {n : Nat}
    (hok : (s.log.append e n).2 = .ok) (hanchored : s.log.entries = [] → s.log.oldestStoredIdx = 1) :
    (s.apply (.append e n)).Placed := by
  obtain ⟨k, ⟨hk, -⟩, holdest, ⟨-, herr⟩ | ⟨hentries, -, -⟩⟩ := s.log.append_drop e n
  · exact absurd hok herr
  have hplaced : (s.apply (.append e n)).placed =
      Function.update s.placed s.log.nextIdx (some e) := if_neg (not_not.mpr hok)
  intro j x hx
  change (s.log.append e n).1.entries[j]? = some x at hx
  change (s.apply (.append e n)).placed ((s.log.append e n).1.oldestStoredIdx + j) = some x
  rw [hplaced, Log.nextIdx_of_anchored hanchored, holdest]
  rw [hentries] at hx
  rcases Nat.lt_or_ge j (s.log.entries.drop k).length with hj | hj
  · -- an entry that was there before
    rw [List.getElem?_append_left hj, List.getElem?_drop] at hx
    rw [List.length_drop] at hj
    rw [Function.update_of_ne (by omega), Nat.add_assoc]
    exact h (k + j) x hx
  · rw [List.getElem?_append_right hj, List.getElem?_singleton] at hx
    split_ifs at hx with hlast
    rw [List.length_drop] at hj hlast
    rw [show s.log.oldestStoredIdx + k + j = s.log.oldestStoredIdx + s.log.entries.length by omega,
      Function.update_self]
    exact hx

theorem Placed.apply (h : s.Placed) {op : Log.Op Hash} (hop : s.Succeeds op ∧ s.Anchored op) :
    (s.apply op).Placed := by
  obtain ⟨⟨hok, -⟩, hanchored⟩ := hop
  cases op with
  | append e n => exact h.append hok (hanchored e n rfl)
  | cancelFrom i =>
    intro j x hx
    have hplaced : (s.apply (.cancelFrom i)).placed =
        fun j => if i ≤ j then none else s.placed j := if_neg (not_not.mpr hok)
    change (s.log.cancelFrom i).2 = .ok at hok
    change (s.log.cancelFrom i).1.entries[j]? = some x at hx
    change (s.apply (.cancelFrom i)).placed ((s.log.cancelFrom i).1.oldestStoredIdx + j) = some x
    rw [hplaced]
    rw [Log.cancelFrom] at hok hx ⊢
    split_ifs at hok hx ⊢ with hlt
    rw [List.getElem?_take] at hx
    split_ifs at hx with hj
    dsimp only
    rw [if_neg (by omega)]
    exact h j x hx
  | setNextIdx idx =>
    intro j x hx
    change (s.log.setNextIdx idx).2 = .ok at hok
    change (s.log.setNextIdx idx).1.entries[j]? = some x at hx
    rw [Log.setNextIdx] at hok hx
    split_ifs at hok hx with hnil
    rw [not_not.mp hnil] at hx
    cases hx

/-- A log to which nothing is appended while it is empty and starts elsewhere than at 1 is an
    indexed sequence: those who ask find at each stored index, and nowhere else, what was placed
    there, and the next entry goes where `next_idx()` says. -/
theorem log_refines_sequence (maxBytes : Nat) (ops : List (Log.Op Hash))
    (h : Along apply (fun s op => s.Succeeds op ∧ s.Anchored op) (new maxBytes) ops) :
    let s := ops.foldl apply (new maxBytes)
    (∀ i, (s.log.at? i).isSome ↔ s.log.Stores i) ∧
      (∀ i x, s.log.at? i = some x → s.placed i = some x) ∧
      (∀ e n, s.Anchored (.append e n) → (s.log.append e n).2 = .ok →
        (s.log.append e n).1.at? s.log.nextIdx = some e) ∧
      s.log.lastIdx = s.log.nextIdx - 1 ∧
      (s.log.entries ≠ [] → s.log.at? s.log.oldestStored = s.log.entries.head?) := by
  intro s
  have hplaced : s.Placed := h.invariant (fun _ _ hs hop => hs.apply hop) nofun
  refine ⟨fun i => Log.at?_isSome_iff, ?_, ?_, rfl, ?_⟩
  · intro i x hx
    obtain ⟨j, rfl, hj⟩ := Log.at?_eq_some_iff.mp hx
    exact hplaced j x hj
  · intro e n hanchored hok
    exact Log.at?_append_nextIdx (hanchored e n rfl) hok
  · intro hne
    rw [Log.oldestStored, if_neg hne, Log.at?, if_neg (lt_irrefl _), Nat.sub_self,
      List.head?_eq_getElem?]

end Recorded

namespace Sample

open Log

theorem log_refines_sequence_emptied :
    let s := [Op.append noopEntry 1, .cancelFrom 1, .append noopEntry 1].foldl Recorded.apply
      (Recorded.new 1000)
    s.log.at? 1 = some noopEntry ∧ s.placed 1 = some noopEntry := by
  have h := Recorded.log_refines_sequence 1000
    [Op.append noopEntry 1, .cancelFrom 1, .append noopEntry 1] (by decide)
  exact ⟨by decide, h.2.1 1 noopEntry (by decide)⟩

/-- After `SetNextIdx(5)` on an empty log `next_idx()` says 1 and `Append` places its entry at 5.
    When that entry is cancelled the log says 1 again. -/
theorem empty_log_forgets_its_index :
    let log := (Log.new 1000).apply (.setNextIdx 5)
    let log' := log.apply (.append noopEntry 1)
    let log'' := log'.apply (.cancelFrom 5)
    (log.call (.append noopEntry 1)).2 = .ok ∧ log.nextIdx = 1 ∧ log'.at? 1 = none ∧
      log'.at? 5 = some noopEntry ∧ (log'.call (.cancelFrom 5)).2 = .ok ∧ log''.nextIdx = 1 ∧
      (log''.apply (.append noopEntry 1)).at? 5 = some noopEntry := by
  decide

end Sample

end SVR2
