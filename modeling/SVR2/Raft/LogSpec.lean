import SVR2.Raft.Log

/-!
# The log as a list

What the functions of `raft/log.cc` do, said about the whole log: the list of all entries from
index 1 on, whether they are still stored or not.
-/

namespace SVR2

variable {Hash : Type}

/-! ### Logs as lists

Index `i ≥ 1` of a log is element `i - 1` of the list. -/

def entryAt (L : List (LogEntry Hash)) (i : Nat) : Option (LogEntry Hash) :=
  if i = 0 then none else L[i - 1]?

/-- The term of the entry at an index, `0` where there is none. -/
def termAt (L : List (LogEntry Hash)) (i : Nat) : Nat :=
  ((entryAt L i).map (·.term)).getD 0

def hashAt (L : List (LogEntry Hash)) (i : Nat) : Option Hash :=
  (entryAt L i).bind (·.hashChain)

/-- The hash that the next entry of a log is chained to. -/
def lastHash [Platform Hash] (L : List (LogEntry Hash)) : Hash :=
  (hashAt L L.length).getD Platform.zeroHash

@[simp] theorem entryAt_zero (L : List (LogEntry Hash)) : entryAt L 0 = none := rfl

@[simp] theorem entryAt_succ (L : List (LogEntry Hash)) (i : Nat) :
    entryAt L (i + 1) = L[i]? := by
  simp [entryAt]

theorem entryAt_append_self (L : List (LogEntry Hash)) (e : LogEntry Hash) :
    entryAt (L ++ [e]) (L.length + 1) = some e := by
  simp

theorem entryAt_mem {L : List (LogEntry Hash)} {i : Nat} {e : LogEntry Hash}
    (h : entryAt L i = some e) : e ∈ L := by
  cases i with
  | zero =>
    rw [entryAt_zero] at h
    cases h
  | succ i => exact List.mem_of_getElem? (by simpa using h)

theorem entryAt_le {L : List (LogEntry Hash)} {i : Nat} {e : LogEntry Hash}
    (h : entryAt L i = some e) : 1 ≤ i ∧ i ≤ L.length := by
  cases i with
  | zero =>
    rw [entryAt_zero] at h
    cases h
  | succ i =>
    rw [entryAt_succ] at h
    have := (List.getElem?_eq_some_iff.mp h).1
    omega

theorem entryAt_isSome {L : List (LogEntry Hash)} {i : Nat} (h1 : 1 ≤ i)
    (h : i ≤ L.length) : ∃ e, entryAt L i = some e := by
  obtain ⟨i, rfl⟩ : ∃ j, i = j + 1 := ⟨i - 1, by omega⟩
  exact ⟨L.get ⟨i, by omega⟩, by simp⟩

theorem take_congr {L L' : List (LogEntry Hash)} {n i : Nat} (h : L.take n = L'.take n)
    (hi : i ≤ n) : L.take i = L'.take i := by
  have htake := congrArg (List.take i) h
  rwa [List.take_take, List.take_take, Nat.min_eq_left hi] at htake

/-- Logs that agree up to `n` have the same entry at every index up to `n`. -/
theorem entryAt_congr {L L' : List (LogEntry Hash)} {n i : Nat} (h : L.take n = L'.take n)
    (hi : i ≤ n) : entryAt L i = entryAt L' i := by
  cases i with
  | zero => rfl
  | succ i =>
    have hn : i < n := by omega
    rw [entryAt_succ, entryAt_succ, ← List.getElem?_take_of_lt hn, h, List.getElem?_take_of_lt hn]

theorem termAt_congr {L L' : List (LogEntry Hash)} {n i : Nat} (h : L.take n = L'.take n)
    (hi : i ≤ n) : termAt L i = termAt L' i := by
  rw [termAt, termAt, entryAt_congr h hi]

theorem termAt_append_of_le {L : List (LogEntry Hash)} (e : LogEntry Hash) {i : Nat}
    (hi : i ≤ L.length) : termAt (L ++ [e]) i = termAt L i :=
  termAt_congr (List.take_append_of_le_length hi) (le_refl i)

theorem termAt_append_self (L : List (LogEntry Hash)) (e : LogEntry Hash) :
    termAt (L ++ [e]) (L.length + 1) = e.term := by
  rw [termAt, entryAt_append_self]
  rfl

theorem hashAt_congr {L L' : List (LogEntry Hash)} {n i : Nat} (h : L.take n = L'.take n)
    (hi : i ≤ n) : hashAt L i = hashAt L' i := by
  rw [hashAt, hashAt, entryAt_congr h hi]

/-! ### The whole log -/

namespace Log

/-- All entries from index 1 on. -/
def full (log : Log Hash) : List (LogEntry Hash) := log.removed ++ log.entries

/-- What has to hold of a log for a replica to start from it: it is stored from its first
    index on or was truncated somewhere inside, and its entries passed `Append`. -/
structure Ok (log : Log Hash) : Prop where
  oldest : log.removed.length + 1 = log.oldestStoredIdx
  empty : log.entries = [] → log.oldestStoredIdx = 1
  term_pos : ∀ e ∈ log.full, e.term ≠ 0
  hash_some : ∀ e ∈ log.full, e.hashChain ≠ none

theorem new_ok (maxBytes : Nat) : (new maxBytes : Log Hash).Ok :=
  ⟨rfl, fun _ => rfl, fun _ he => (nomatch he), fun _ he => (nomatch he)⟩

variable {log : Log Hash}

theorem mem_of_at? {i : Nat} {e : LogEntry Hash} (he : log.at? i = some e) : e ∈ log.entries := by
  rw [at?] at he
  split_ifs at he
  exact List.mem_of_getElem? he

namespace Ok

theorem lastIdx_eq (h : log.Ok) : log.lastIdx = log.full.length := by
  have h1 := h.oldest
  rw [lastIdx, full, List.length_append]
  split_ifs with he
  · have h2 := h.empty he
    rw [he, List.length_nil]
    omega
  · have : 0 < log.entries.length := List.length_pos_iff.mpr he
    omega

theorem nextIdx_eq (h : log.Ok) : log.nextIdx = log.full.length + 1 := by
  rw [nextIdx, h.lastIdx_eq]

theorem at?_eq (h : log.Ok) (i : Nat) :
    log.at? i = if i < log.oldestStoredIdx then none else entryAt log.full i := by
  have h1 := h.oldest
  rw [at?]
  split_ifs with hlt
  · rfl
  · obtain ⟨i, rfl⟩ : ∃ j, i = j + 1 := ⟨i - 1, by omega⟩
    rw [entryAt_succ, full, List.getElem?_append_right (by omega)]
    congr 1
    omega

theorem entryAt_of_at? (h : log.Ok) {i : Nat} {e : LogEntry Hash} (he : log.at? i = some e) :
    entryAt log.full i = some e := by
  rw [h.at?_eq] at he
  split_ifs at he
  exact he

theorem at?_of_le (h : log.Ok) {i : Nat} (hi : log.oldestStoredIdx ≤ i) :
    log.at? i = entryAt log.full i := by
  rw [h.at?_eq, if_neg (by omega)]

theorem oldestStored_le (h : log.Ok) {i : Nat} (h0 : i ≠ 0) (hi : ¬i < log.oldestStored) :
    log.oldestStoredIdx ≤ i := by
  rw [oldestStored] at hi
  split_ifs at hi with he
  · have := h.empty he
    omega
  · omega

theorem lastTerm_eq (h : log.Ok) : log.lastTerm = SVR2.termAt log.full log.full.length := by
  have h1 := h.oldest
  rw [lastTerm]
  split_ifs with he
  · have h2 := h.empty he
    have hr : log.removed = [] := List.length_eq_zero_iff.mp (by omega)
    simp [full, he, hr, SVR2.termAt]
  · have hpos : 0 < log.entries.length := List.length_pos_iff.mpr he
    have hle : log.oldestStoredIdx ≤ log.full.length := by
      rw [full, List.length_append]
      omega
    rw [termAt, h.lastIdx_eq, h.at?_of_le hle, SVR2.termAt]

theorem hashAt_lastIdx (h : log.Ok) :
    log.hashAt log.lastIdx = SVR2.hashAt log.full log.full.length := by
  have h1 := h.oldest
  rw [hashAt, SVR2.hashAt, h.lastIdx_eq]
  by_cases he : log.entries = []
  · have h2 := h.empty he
    have hr : log.removed = [] := List.length_eq_zero_iff.mp (by omega)
    simp [full, he, hr, h.at?_eq]
  · have hpos : 0 < log.entries.length := List.length_pos_iff.mpr he
    rw [h.at?_of_le]
    rw [full, List.length_append]
    omega

theorem mostRecentHash_eq [Platform Hash] (h : log.Ok) :
    log.mostRecentHash.getD Platform.zeroHash = lastHash log.full := by
  rw [lastHash]
  rcases List.eq_nil_or_concat log.entries with he | ⟨l, e, he⟩
  · have h2 := h.empty he
    have h1 := h.oldest
    have hr : log.removed = [] := List.length_eq_zero_iff.mp (by omega)
    simp [mostRecentHash, full, he, hr, SVR2.hashAt]
  · rw [List.concat_eq_append] at he
    have hfull : log.full = log.removed ++ l ++ [e] := by simp [full, he]
    have hsome : e.hashChain ≠ none := h.hash_some e (by simp [hfull])
    obtain ⟨x, hx⟩ := Option.ne_none_iff_exists'.mp hsome
    have hlast : entryAt log.full log.full.length = some e := by
      rw [hfull, List.length_append, List.length_singleton, entryAt_append_self]
    simp [mostRecentHash, he, SVR2.hashAt, hlast, hx]

end Ok

/-! ### Making room, appending and cancelling -/

/-- Making room gives up the oldest entries, none of them at or after index `n`. -/
theorem makeRoom_drop [Platform Hash] (mem n fuel : Nat) (log : Log Hash) :
    ∃ k, (k ≤ log.entries.length ∧ (k = 0 ∨ log.oldestStoredIdx + k ≤ n)) ∧
      (makeRoom mem n fuel log).1.oldestStoredIdx = log.oldestStoredIdx + k ∧
      (makeRoom mem n fuel log).1.entries = log.entries.drop k := by
  induction fuel generalizing log with
  | zero => exact ⟨0, ⟨Nat.zero_le _, .inl rfl⟩, rfl, rfl⟩
  | succ fuel ih =>
    rw [makeRoom]
    split_ifs
    · exact ⟨0, ⟨Nat.zero_le _, .inl rfl⟩, rfl, rfl⟩
    · cases hremove : log.removeOldestLogOlderThan n with
      | none => exact ⟨0, ⟨Nat.zero_le _, .inl rfl⟩, rfl, rfl⟩
      | some log' =>
        obtain ⟨k, hk, holdest, hentries⟩ := ih log'
        rw [removeOldestLogOlderThan] at hremove
        split_ifs at hremove with hlt
        cases hfirst : log.entries with
        | nil => simp [hfirst] at hremove
        | cons e rest =>
          simp only [hfirst, Option.some.injEq] at hremove
          subst hremove
          dsimp only at hk
          refine ⟨k + 1, ⟨?_, .inr ?_⟩, ?_, ?_⟩
          · rw [List.length_cons]
            omega
          · omega
          · exact holdest.trans (by simp only; omega)
          · exact hentries

/-- `mem` more bytes fit once every entry before index `n` has been given up. -/
def HasRoom [Platform Hash] (log : Log Hash) (mem n : Nat) : Prop :=
  log.currBytes - ((log.entries.take (n - log.oldestStoredIdx)).map logentryBytesInLog).sum + mem ≤
    log.maxBytes

instance [Platform Hash] (log : Log Hash) (mem n : Nat) : Decidable (log.HasRoom mem n) :=
  inferInstanceAs (Decidable (_ ≤ _))

/-- Room is made exactly where there is some: what is given up on the way is only ever more bytes
    that fit. -/
theorem makeRoom_snd [Platform Hash] (mem n : Nat) (log : Log Hash) :
    (makeRoom mem n log.entries.length log).2 = true ↔ log.HasRoom mem n := by
  generalize hfuel : log.entries.length = fuel
  induction fuel generalizing log with
  | zero =>
    rw [makeRoom, HasRoom, List.length_eq_zero_iff.mp hfuel, List.take_nil]
    exact decide_eq_true_iff
  | succ fuel ih =>
    obtain ⟨e, rest, hentries⟩ := List.exists_cons_of_length_eq_add_one hfuel
    rw [makeRoom]
    split_ifs with hfits
    · rw [HasRoom]
      exact iff_of_true rfl (by omega)
    · rw [removeOldestLogOlderThan]
      split_ifs with hn
      · rw [HasRoom, Nat.sub_eq_zero_of_le hn, List.take_zero]
        exact iff_of_false id hfits
      · rw [hentries]
        dsimp only
        rw [hentries, List.length_cons, Nat.add_right_cancel_iff] at hfuel
        rw [ih _ hfuel, HasRoom, HasRoom, hentries]
        dsimp only
        have hsub : n - log.oldestStoredIdx = n - (log.oldestStoredIdx + 1) + 1 := by omega
        rw [hsub, List.take_succ_cons, List.map_cons, List.sum_cons, Nat.sub_sub]

theorem append_snd_eq_ok [Platform Hash] (log : Log Hash) (e : LogEntry Hash) (n : Nat) :
    (log.append e n).2 = .ok ↔ e.term ≠ 0 ∧ e.hashChain ≠ none ∧
      log.HasRoom (logentryBytesInLog e) n ∧ Platform.byteSizeLong e ≤ INT_MAX := by
  rw [← makeRoom_snd, append]
  split_ifs with hterm hhash hlarge
  · simp [hterm]
  · simp [hhash]
  · dsimp only
    split <;> simp [not_le.mpr hlarge]
  · dsimp only
    split
    · rename_i hroom
      simp [hroom]
    · rename_i hroom
      simp [hterm, hhash, hroom, not_lt.mp hlarge]

/-- What `Append` leaves: all but the oldest entries and, if it succeeds, the new one, which carries
    a hash. -/
theorem append_drop [Platform Hash] (log : Log Hash) (e : LogEntry Hash) (n : Nat) :
    ∃ k, (k ≤ log.entries.length ∧ (k = 0 ∨ log.oldestStoredIdx + k ≤ n)) ∧
      (log.append e n).1.oldestStoredIdx = log.oldestStoredIdx + k ∧
      ((log.append e n).1.entries = log.entries.drop k ∧ (log.append e n).2 ≠ .ok ∨
        (log.append e n).1.entries = log.entries.drop k ++ [e] ∧ (log.append e n).2 = .ok ∧
          e.hashChain ≠ none) := by
  by_cases hterm : e.term = 0
  · exact ⟨0, ⟨Nat.zero_le _, .inl rfl⟩, by simp [append, hterm], .inl (by simp [append, hterm])⟩
  by_cases hhash : e.hashChain = none
  · exact ⟨0, ⟨Nat.zero_le _, .inl rfl⟩, by simp [append, hterm, hhash],
      .inl (by simp [append, hterm, hhash])⟩
  have hdrop := makeRoom_drop (logentryBytesInLog e) n log.entries.length log
  rcases hroom : makeRoom (logentryBytesInLog e) n log.entries.length log with ⟨log', room⟩
  rw [hroom] at hdrop
  obtain ⟨k, hk, holdest, hentries⟩ := hdrop
  dsimp only at holdest hentries
  refine ⟨k, hk, ?_⟩
  cases room with
  | false => simp [append, hterm, hhash, hroom, holdest, hentries]
  | true =>
    by_cases hsize : INT_MAX < Platform.byteSizeLong e
    · simp [append, hterm, hhash, hroom, hsize, holdest, hentries]
    · simp [append, hterm, hhash, hroom, hsize, holdest, hentries]

/-- `log'` is `log` with old entries given up, none of them at or after index `n`. -/
structure Trimmed (log log' : Log Hash) (n : Nat) : Prop where
  ok : log'.Ok
  full : log'.full = log.full
  oldest_ge : log.oldestStoredIdx ≤ log'.oldestStoredIdx
  oldest_le : log'.oldestStoredIdx ≤ max log.oldestStoredIdx n

theorem Trimmed.refl (h : log.Ok) (n : Nat) : Trimmed log log n :=
  ⟨h, rfl, le_refl _, le_max_left _ _⟩

theorem Trimmed.trans {log₁ log₂ : Log Hash} {n : Nat} (h₁ : Trimmed log log₁ n)
    (h₂ : Trimmed log₁ log₂ n) : Trimmed log log₂ n where
  ok := h₂.ok
  full := h₂.full.trans h₁.full
  oldest_ge := h₁.oldest_ge.trans h₂.oldest_ge
  oldest_le := by
    have h1 := h₁.oldest_le
    have h2 := h₂.oldest_le
    omega

theorem removeOldestLogOlderThan_trimmed [Platform Hash] {log' : Log Hash} {n : Nat} (h : log.Ok)
    (hn : n ≤ log.full.length) (hr : log.removeOldestLogOlderThan n = some log') :
    Trimmed log log' n := by
  rw [removeOldestLogOlderThan] at hr
  split_ifs at hr with hlt
  split at hr
  · cases hr
  · rename_i e rest he
    cases hr
    have h1 := h.oldest
    have hfull : log.full = log.removed ++ [e] ++ rest := by simp [full, he]
    refine ⟨⟨?_, ?_, ?_, ?_⟩, ?_, ?_, ?_⟩
    · simp only [List.length_append, List.length_singleton]; omega
    · -- the entry at index `n` is still stored
      intro hrest
      have hlen : log.full.length = log.removed.length + 1 := by
        rw [hfull, show rest = [] from hrest]
        simp
      omega
    · simpa [full, he] using h.term_pos
    · simpa [full, he] using h.hash_some
    · simp [full, he]
    · exact Nat.le_succ _
    · simp only; omega

theorem makeRoom_trimmed [Platform Hash] (mem fuel : Nat) {n : Nat} (h : log.Ok)
    (hn : n ≤ log.full.length) :
    Trimmed log (makeRoom mem n fuel log).1 n := by
  induction fuel generalizing log with
  | zero => exact Trimmed.refl h n
  | succ fuel ih =>
    rw [makeRoom]
    split_ifs
    · exact Trimmed.refl h n
    · cases hr : log.removeOldestLogOlderThan n with
      | none => exact Trimmed.refl h n
      | some log' =>
        have ht := removeOldestLogOlderThan_trimmed h hn hr
        exact ht.trans (ih ht.ok (by rw [ht.full]; exact hn))

def snoc (log : Log Hash) (e : LogEntry Hash) (bytes : Nat) : Log Hash :=
  { log with entries := log.entries ++ [e], currBytes := bytes }

theorem snoc_full (log : Log Hash) (e : LogEntry Hash) (bytes : Nat) :
    (log.snoc e bytes).full = log.full ++ [e] := by
  simp [snoc, full]

theorem Ok.snoc (h : log.Ok) {e : LogEntry Hash} (bytes : Nat) (hterm : e.term ≠ 0)
    (hhash : e.hashChain ≠ none) : (log.snoc e bytes).Ok where
  oldest := h.oldest
  empty := by simp [Log.snoc]
  term_pos := by
    intro x hx
    rw [snoc_full, List.mem_append, List.mem_singleton] at hx
    rcases hx with hx | rfl
    · exact h.term_pos x hx
    · exact hterm
  hash_some := by
    intro x hx
    rw [snoc_full, List.mem_append, List.mem_singleton] at hx
    rcases hx with hx | rfl
    · exact h.hash_some x hx
    · exact hhash

theorem append_cases [Platform Hash] {n : Nat} (h : log.Ok) (hn : n ≤ log.full.length)
    (e : LogEntry Hash) :
    ∃ log₁, Trimmed log log₁ n ∧
      ((∃ err, err ≠ .ok ∧ log.append e n = (log₁, err)) ∨
        (e.term ≠ 0 ∧ e.hashChain ≠ none ∧ ∃ bytes, log.append e n = (log₁.snoc e bytes, .ok))) := by
  by_cases hterm : e.term = 0
  · exact ⟨log, Trimmed.refl h n, Or.inl ⟨.raftAppendWithoutTerm, by decide, by simp [append, hterm]⟩⟩
  by_cases hhash : e.hashChain = none
  · exact ⟨log, Trimmed.refl h n,
      Or.inl ⟨.raftNoHashChainInAppend, by decide, by simp [append, hterm, hhash]⟩⟩
  have ht := makeRoom_trimmed (logentryBytesInLog e) log.entries.length h hn
  rcases hroom : makeRoom (logentryBytesInLog e) n log.entries.length log with ⟨log₁, room⟩
  rw [hroom] at ht
  refine ⟨log₁, ht, ?_⟩
  cases room with
  | false =>
    exact Or.inl ⟨.raftLogOutOfSpace, by decide, by simp only [append, hterm, hhash, hroom, if_false]⟩
  | true =>
    by_cases hsize : INT_MAX < Platform.byteSizeLong e
    · exact Or.inl ⟨.raftLogEntryTooLarge, by decide,
        by simp only [append, hterm, hhash, hroom, hsize, if_false, if_true]⟩
    · exact Or.inr ⟨hterm, hhash, log₁.currBytes + logentryBytesInLog e,
        by simp only [append, hterm, hhash, hroom, hsize, if_false, Log.snoc]⟩

/-- What `CancelFrom` does from an index above the oldest stored one. -/
theorem cancelFrom_spec {i : Nat} (h : log.Ok) (hi : log.oldestStoredIdx ≤ i)
    (hfirst : log.oldestStoredIdx = i → i = 1) :
    (log.cancelFrom i).2 = .ok ∧ (log.cancelFrom i).1.Ok ∧
      (log.cancelFrom i).1.full = log.full.take (i - 1) ∧
      (log.cancelFrom i).1.oldestStoredIdx = log.oldestStoredIdx := by
  have h1 := h.oldest
  rw [cancelFrom, if_neg (by omega)]
  have hfull : ({ log with entries := log.entries.take (i - log.oldestStoredIdx) } : Log Hash).full
      = log.full.take (i - 1) := by
    have hr : log.removed.take (i - 1) = log.removed := List.take_of_length_le (by omega)
    have hi' : i - 1 - log.removed.length = i - log.oldestStoredIdx := by omega
    simp only [full, List.take_append, hr, hi']
  refine ⟨rfl, ⟨h1, ?_, ?_, ?_⟩, hfull, rfl⟩
  · intro he
    simp only [List.take_eq_nil_iff] at he
    rcases he with he | he
    · simp only; omega
    · exact h.empty he
  · intro e he
    rw [hfull] at he
    exact h.term_pos e (List.mem_of_mem_take he)
  · intro e he
    rw [hfull] at he
    exact h.hash_some e (List.mem_of_mem_take he)

end Log

end SVR2
