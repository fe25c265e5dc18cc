import SVR2.Lib.BigEndian
import SVR2.Raft.Log

/-!
# Minimum limits

`minimums/minimums.cc`: the limits below which no attested value of a peer may lie.  The source
visits a protobuf map in an order of its own; here it is key order, which only decides which of
several errors is returned.
-/

namespace SVR2

open Lib

abbrev MinimumValues := OrdMap String Bytes

namespace Minimums

def checkLimit (old : MinimumLimits) (key : String) (vNew : Bytes) : Error :=
  if vNew = [] then .minimumsEntryEmpty
  else if key = "" then .minimumsKeyEmpty
  else match old.find? key with
    | none => .ok
    | some vOld =>
      if vNew < vOld then .minimumsLimitDecreased
      else if vOld.length ≠ vNew.length then .minimumsSizeMismatch
      else .ok

def firstError : List Error → Error
  | [] => .ok
  | .ok :: rest => firstError rest
  | err :: _ => err

def updateLimits (old s : MinimumLimits) : MinimumLimits × Error :=
  if old.toList.all (fun e => s.contains e.1) = false then (old, .minimumsKeyMissing)
  else match firstError (s.toList.map fun e => checkLimit old e.1 e.2) with
    | .ok => (s, .ok)
    | err => (old, err)

def checkValueAgainstSet (s : MinimumLimits) (key : String) (value : Bytes) : Error :=
  match s.find? key with
  | none => .ok
  | some limit =>
    if value < limit then .minimumsValueTooLow
    else if value.length ≠ limit.length then .minimumsValueSize
    else .ok

def checkValues (s : MinimumLimits) (v : MinimumValues) : Error :=
  firstError (v.toList.map fun e => checkValueAgainstSet s e.1 e.2)

/-- `U64`: eight bytes, big end first. -/
def U64 (value : Nat) : Bytes := BigEndian.digits 256 8 value

def combineValue (v : MinimumValues) (e : String × Bytes) : MinimumValues :=
  match v.find? e.1 with
  | none => v.insert e.1 e.2
  | some old => if e.2 < old then v.insert e.1 e.2 else v

/-- `CombineValues`: of two values for a key, the smaller one. -/
def combineValues (a b : MinimumValues) : MinimumValues := b.toList.foldl combineValue a

/-! ### Limits only tighten -/

theorem firstError_eq_ok {l : List Error} : firstError l = .ok ↔ ∀ err ∈ l, err = .ok := by
  induction l with
  | nil => simp [firstError]
  | cons err l ih => cases err <;> simp [firstError, ih]

theorem firstError_map_eq_ok {v : OrdMap String Bytes} {f : String → Bytes → Error} :
    firstError (v.toList.map fun e => f e.1 e.2) = .ok ↔
      ∀ key value, v.find? key = some value → f key value = .ok := by
  rw [firstError_eq_ok]
  refine ⟨fun h key value hv => ?_, fun h err herr => ?_⟩
  · exact h _ (List.mem_map.mpr ⟨(key, value), OrdMap.mem_toList.mpr hv, rfl⟩)
  · obtain ⟨e, he, rfl⟩ := List.mem_map.mp herr
    exact h e.1 e.2 (OrdMap.mem_toList.mp he)

theorem checkValues_eq_ok {s : MinimumLimits} {v : MinimumValues} :
    checkValues s v = .ok ↔
      ∀ key value, v.find? key = some value → checkValueAgainstSet s key value = .ok :=
  firstError_map_eq_ok

/-- Every limit has stayed, with its size, and is not lower. -/
def Tightens (old s : MinimumLimits) : Prop :=
  ∀ key vOld, old.find? key = some vOld →
    ∃ vNew, s.find? key = some vNew ∧ vNew.length = vOld.length ∧ vOld ≤ vNew

theorem Tightens.refl (s : MinimumLimits) : Tightens s s :=
  fun _ v hv => ⟨v, hv, rfl, le_refl v⟩

theorem Tightens.trans {a b c : MinimumLimits} (hab : Tightens a b) (hbc : Tightens b c) :
    Tightens a c := by
  intro key v hv
  obtain ⟨v', hv', hlen, hle⟩ := hab key v hv
  obtain ⟨v'', hv'', hlen', hle'⟩ := hbc key v' hv'
  exact ⟨v'', hv'', hlen'.trans hlen, hle.trans hle'⟩

theorem checkLimit_eq_ok {old : MinimumLimits} {key : String} {vNew : Bytes} :
    checkLimit old key vNew = .ok ↔ (vNew ≠ [] ∧ key ≠ "") ∧
      ∀ vOld, old.find? key = some vOld → vNew.length = vOld.length ∧ vOld ≤ vNew := by
  rw [checkLimit]
  split_ifs with hempty hkey
  · simp [hempty]
  · simp [hkey]
  · cases hold : old.find? key with
    | none => simp [hempty, hkey]
    | some vOld =>
      dsimp only
      split_ifs with hlower hsize
      · simp [hlower]
      · simp [Ne.symm hsize]
      · rw [not_not] at hsize
        simp [hempty, hkey, hsize, not_lt.mp hlower]

theorem updateLimits_eq_ok {old s : MinimumLimits} : (updateLimits old s).2 = .ok ↔
    (∀ key vNew, s.find? key = some vNew → vNew ≠ [] ∧ key ≠ "") ∧ Tightens old s := by
  have hkeys : old.toList.all (fun e => s.contains e.1) = true ↔
      ∀ key vOld, old.find? key = some vOld → ∃ vNew, s.find? key = some vNew := by
    rw [List.all_eq_true]
    refine ⟨fun h key vOld hold => ?_, fun h e he => ?_⟩
    · exact OrdMap.mem_iff.mp (h (key, vOld) (OrdMap.mem_toList.mpr hold))
    · exact OrdMap.mem_iff.mpr (h e.1 e.2 (OrdMap.mem_toList.mp he))
  rw [updateLimits]
  split_ifs with hall
  · refine iff_of_false nofun fun h => ?_
    rw [← Bool.not_eq_true, hkeys] at hall
    refine hall fun key vOld hold => ?_
    obtain ⟨vNew, hnew, -⟩ := h.2 key vOld hold
    exact ⟨vNew, hnew⟩
  · rw [Bool.not_eq_false, hkeys] at hall
    constructor
    · intro h
      split at h
      · rename_i hfirst
        have hchecks := fun key vNew hnew =>
          checkLimit_eq_ok.mp (firstError_map_eq_ok.mp hfirst key vNew hnew)
        refine ⟨fun key vNew hnew => (hchecks key vNew hnew).1, fun key vOld hold => ?_⟩
        obtain ⟨vNew, hnew⟩ := hall key vOld hold
        exact ⟨vNew, hnew, (hchecks key vNew hnew).2 vOld hold⟩
      · rename_i herr
        exact absurd h herr
    · rintro ⟨hnames, htightens⟩
      have hfirst : firstError (s.toList.map fun e => checkLimit old e.1 e.2) = .ok := by
        refine firstError_map_eq_ok.mpr fun key vNew hnew => ?_
        refine checkLimit_eq_ok.mpr ⟨hnames key vNew hnew, fun vOld hold => ?_⟩
        obtain ⟨v, hv, hle⟩ := htightens key vOld hold
        obtain rfl := Option.some.inj (hv.symm.trans hnew)
        exact hle
      rw [hfirst]

theorem updateLimits_cases (old s : MinimumLimits) :
    (updateLimits old s).2 ≠ .ok ∧ (updateLimits old s).1 = old ∨
      (updateLimits old s).2 = .ok ∧ (updateLimits old s).1 = s ∧ Tightens old s := by
  by_cases hok : (updateLimits old s).2 = .ok
  · refine .inr ⟨hok, ?_, (updateLimits_eq_ok.mp hok).2⟩
    rw [updateLimits] at hok ⊢
    split_ifs at hok ⊢
    split at hok
    · rfl
    · rename_i herr
      exact absurd hok herr
  · refine .inl ⟨hok, ?_⟩
    rw [updateLimits] at hok ⊢
    split_ifs at hok ⊢
    · rfl
    · split at hok
      · exact absurd rfl hok
      · rfl

/-- A value passes if it has the size of its limit, when there is one, and is not below it. -/
theorem checkValueAgainstSet_eq_ok {s : MinimumLimits} {key : String} {value : Bytes} :
    checkValueAgainstSet s key value = .ok ↔
      ∀ limit, s.find? key = some limit → limit ≤ value ∧ value.length = limit.length := by
  rw [checkValueAgainstSet]
  cases hlimit : s.find? key with
  | none => simp
  | some limit =>
    dsimp only
    split_ifs with hlow hsize
    · simp [hlow]
    · simp [hsize]
    · rw [not_not] at hsize
      simp [not_lt.mp hlow, hsize]

theorem Tightens.checkValues {old s : MinimumLimits} (h : Tightens old s) {v : MinimumValues}
    (hv : checkValues s v = .ok) : checkValues old v = .ok := by
  rw [checkValues_eq_ok] at hv ⊢
  intro key value hvalue
  rw [checkValueAgainstSet_eq_ok]
  intro limit hlimit
  obtain ⟨limit', hlimit', hlen, hle⟩ := h key limit hlimit
  obtain ⟨hlow, hsize⟩ := checkValueAgainstSet_eq_ok.mp (hv key value hvalue) limit' hlimit'
  exact ⟨hle.trans hlow, hsize.trans hlen⟩

def limitsAfter (start : MinimumLimits) (calls : List MinimumLimits) : MinimumLimits :=
  calls.foldl (fun s update => (updateLimits s update).1) start

theorem limitsAfter_append (start : MinimumLimits) (calls calls' : List MinimumLimits) :
    limitsAfter start (calls ++ calls') = limitsAfter (limitsAfter start calls) calls' :=
  List.foldl_append ..

theorem tightens_limitsAfter (start : MinimumLimits) (calls : List MinimumLimits) :
    Tightens start (limitsAfter start calls) := by
  induction calls generalizing start with
  | nil => exact .refl start
  | cons update calls ih =>
    have hstep : Tightens start (updateLimits start update).1 := by
      rcases updateLimits_cases start update with ⟨-, hsame⟩ | ⟨-, hnew, htightens⟩
      · rw [hsame]
        exact .refl start
      · rw [hnew]
        exact htightens
    exact hstep.trans (ih _)

theorem U64_le_U64 {x y : Nat} (hx : x < 2 ^ 64) (hy : y < 2 ^ 64) : U64 x ≤ U64 y ↔ x ≤ y := by
  rw [← not_lt, ← not_lt, U64, U64, BigEndian.lt_iff (by simp), BigEndian.value_digits,
    BigEndian.value_digits, Nat.mod_eq_of_lt (hx.trans_eq (by norm_num)),
    Nat.mod_eq_of_lt (hy.trans_eq (by norm_num))]

/-- Over any calls of `UpdateLimits`: one that fails changes nothing; between two points of the
    history no key disappears, no limit changes its size or decreases, as a number if it is one;
    and values that pass the check at the later point pass it at the earlier one. -/
theorem limits_only_tighten (start : MinimumLimits) (calls : List MinimumLimits) :
    (∀ k update, calls[k]? = some update →
      (updateLimits (limitsAfter start (calls.take k)) update).2 ≠ .ok →
      limitsAfter start (calls.take (k + 1)) = limitsAfter start (calls.take k)) ∧
    ∀ i j, i ≤ j →
      (∀ key limit, (limitsAfter start (calls.take i)).find? key = some limit →
        ∃ limit', (limitsAfter start (calls.take j)).find? key = some limit' ∧
          limit'.length = limit.length ∧ limit ≤ limit' ∧
          ∀ x y, x < 2 ^ 64 → y < 2 ^ 64 → limit = U64 x → limit' = U64 y → x ≤ y) ∧
      ∀ values, checkValues (limitsAfter start (calls.take j)) values = .ok →
        checkValues (limitsAfter start (calls.take i)) values = .ok := by
  refine ⟨fun k update hk hfail => ?_, fun i j hij => ?_⟩
  · rw [List.take_add_one, hk, Option.toList_some, limitsAfter_append]
    rcases updateLimits_cases (limitsAfter start (calls.take k)) update with ⟨-, hsame⟩ | ⟨hok, -, -⟩
    · exact hsame
    · exact absurd hok hfail
  · have hsplit : calls.take j = calls.take i ++ (calls.drop i).take (j - i) := by
      rw [← List.take_add, Nat.add_sub_cancel' hij]
    have htightens : Tightens (limitsAfter start (calls.take i)) (limitsAfter start (calls.take j)) := by
      rw [hsplit, limitsAfter_append]
      exact tightens_limitsAfter _ _
    refine ⟨fun key limit hlimit => ?_, fun values => htightens.checkValues⟩
    obtain ⟨limit', hlimit', hlen, hle⟩ := htightens key limit hlimit
    refine ⟨limit', hlimit', hlen, hle, ?_⟩
    rintro x y hx hy rfl rfl
    exact (U64_le_U64 hx hy).mp hle

/-! ### Combined values are a meet -/

theorem find?_combineValue (v : MinimumValues) (e : String × Bytes) (key : String) :
    (combineValue v e).find? key =
      if e.1 = key then Option.merge min (v.find? key) (some e.2) else v.find? key := by
  rw [combineValue]
  by_cases hkey : e.1 = key
  · subst hkey
    rw [if_pos rfl]
    cases hold : v.find? e.1 with
    | none => simp
    | some old =>
      dsimp only
      split_ifs with hless
      · simp [min_eq_right hless.le]
      · simp [hold, min_eq_left (not_lt.mp hless)]
  · rw [if_neg hkey]
    split
    · simp [hkey]
    · split_ifs
      · simp [hkey]
      · rfl

theorem find?_foldl_combineValue {l : List (String × Bytes)}
    (hl : l.Pairwise fun e e' => e.1 < e'.1) (v : MinimumValues) (key : String) :
    (l.foldl combineValue v).find? key =
      Option.merge min (v.find? key) (OrdMap.lookup key l) := by
  induction l generalizing v with
  | nil => simp [OrdMap.lookup]
  | cons e l ih =>
    obtain ⟨hfirst, hl⟩ := List.pairwise_cons.mp hl
    rw [List.foldl_cons, ih hl, find?_combineValue, OrdMap.lookup]
    by_cases hkey : e.1 = key
    · -- No later entry has this key again.
      subst hkey
      simp [OrdMap.lookup_eq_none_of_lt hfirst]
    · simp [hkey]

theorem find?_combineValues (a b : MinimumValues) (key : String) :
    (combineValues a b).find? key = Option.merge min (a.find? key) (b.find? key) :=
  find?_foldl_combineValue b.sorted a key

/-- Of two values of one size, the smaller passes if and only if both do. -/
theorem checkValueAgainstSet_min {s : MinimumLimits} {key : String} {x y : Bytes}
    (hlen : x.length = y.length) : checkValueAgainstSet s key (min x y) = .ok ↔
      checkValueAgainstSet s key x = .ok ∧ checkValueAgainstSet s key y = .ok := by
  have hmin : (min x y).length = y.length := by
    rcases min_choice x y with h | h
    · rw [h, hlen]
    · rw [h]
  simp only [checkValueAgainstSet_eq_ok, le_min_iff, hmin, hlen]
  refine ⟨fun h => ⟨fun limit hlimit => ?_, fun limit hlimit => ?_⟩, fun h limit hlimit => ?_⟩
  · exact ⟨(h limit hlimit).1.1, (h limit hlimit).2⟩
  · exact ⟨(h limit hlimit).1.2, (h limit hlimit).2⟩
  · exact ⟨⟨(h.1 limit hlimit).1, (h.2 limit hlimit).1⟩, (h.2 limit hlimit).2⟩

/-- `CombineValues` is a meet: it is commutative, associative and idempotent, and if the values
    that two maps have for one key are of one size, the limits accept the combined map exactly when
    they accept both. -/
theorem combineValues_meet (a b c : MinimumValues) :
    combineValues a b = combineValues b a ∧
    combineValues (combineValues a b) c = combineValues a (combineValues b c) ∧
    combineValues a a = a ∧
    ((∀ key x y, a.find? key = some x → b.find? key = some y → x.length = y.length) →
      ∀ s, checkValues s (combineValues a b) = .ok ↔
        checkValues s a = .ok ∧ checkValues s b = .ok) := by
  refine ⟨?_, ?_, ?_, fun hlen s => ?_⟩
  · refine OrdMap.ext_find? fun key => ?_
    rw [find?_combineValues, find?_combineValues]
    exact (inferInstance : Std.Commutative (Option.merge (min : Bytes → Bytes → Bytes))).comm _ _
  · refine OrdMap.ext_find? fun key => ?_
    simp only [find?_combineValues]
    exact (inferInstance : Std.Associative (Option.merge (min : Bytes → Bytes → Bytes))).assoc _ _ _
  · refine OrdMap.ext_find? fun key => ?_
    rw [find?_combineValues]
    exact (inferInstance : Std.IdempotentOp (Option.merge (min : Bytes → Bytes → Bytes))).idempotent _
  · rw [checkValues_eq_ok, checkValues_eq_ok, checkValues_eq_ok, ← forall_and]
    refine forall_congr' fun key => ?_
    rw [find?_combineValues]
    cases ha : a.find? key with
    | none => simp
    | some x =>
      cases hb : b.find? key with
      | none => simp
      | some y =>
        have hsame := hlen key x y ha hb
        simp [checkValueAgainstSet_min hsame]

theorem combineValues_meet_common_key :
    checkValues ((∅ : MinimumLimits).insert "a" [1, 2])
        (combineValues ((∅ : MinimumValues).insert "a" [1, 3]) ((∅ : MinimumValues).insert "a" [2, 0])) =
      .ok := by
  refine ((combineValues_meet _ _ ∅).2.2.2 (fun key x y hx hy => ?_) _).mpr
    ⟨by decide, by decide⟩
  rw [OrdMap.find?_insert] at hx hy
  split_ifs at hx hy with hkey
  · rw [← Option.some.inj hx, ← Option.some.inj hy]
    rfl
  · rw [OrdMap.find?_empty] at hx
    cases hx

end Minimums

end SVR2
