import SVR2.Lib.OrdMap
import SVR2.Lib.Runs
import SVR2.Timeout

/-!
# Timeouts run exactly once

`timeout/timeout.cc` keeps its functions in a map of maps, by tick and then by number.  A tick takes
the map of its own number out under the lock and runs its functions one by one without it, while
timeouts may be set and cancelled, by these functions too, and later ticks may begin.
-/

namespace SVR2

open Lib

variable {Fn : Type}

abbrev TimeoutSets (Fn : Type) := OrdMap Nat (OrdMap Nat Fn)

namespace TimeoutSets

def get (m : TimeoutSets Fn) (tc : Cancel) : Option Fn :=
  (OrdMap.find? m tc.atTick).bind (·.find? tc.cancelId)

/-- Puts a function into the set of its tick, which is made if there is none. -/
def add (m : TimeoutSets Fn) (tc : Cancel) (fn : Fn) : TimeoutSets Fn :=
  OrdMap.insert m tc.atTick (((OrdMap.find? m tc.atTick).getD ∅).insert tc.cancelId fn)

/-- Erases a function from the set of its tick, if it is there. -/
def remove (m : TimeoutSets Fn) (tc : Cancel) : TimeoutSets Fn :=
  match OrdMap.find? m tc.atTick with
  | none => m
  | some ts => if ts.contains tc.cancelId then OrdMap.insert m tc.atTick (ts.erase tc.cancelId) else m

theorem get_add (m : TimeoutSets Fn) (tc c : Cancel) (fn : Fn) :
    (m.add tc fn).get c = if c = tc then some fn else m.get c := by
  obtain ⟨atTick, id⟩ := tc
  obtain ⟨atTick', id'⟩ := c
  simp only [get, add, OrdMap.find?_insert, Cancel.mk.injEq]
  by_cases htick : atTick' = atTick
  · subst htick
    by_cases hid : id' = id
    · simp [hid]
    · cases hts : OrdMap.find? m atTick' <;> simp [hid, Ne.symm hid]
  · simp [htick, Ne.symm htick]

theorem get_remove (m : TimeoutSets Fn) (tc c : Cancel) :
    (m.remove tc).get c = if c = tc then none else m.get c := by
  obtain ⟨atTick, id⟩ := tc
  obtain ⟨atTick', id'⟩ := c
  rw [remove]
  dsimp only
  by_cases heq : (⟨atTick', id'⟩ : Cancel) = ⟨atTick, id⟩
  · obtain ⟨rfl, rfl⟩ := Cancel.mk.inj heq
    rw [if_pos rfl]
    split
    · rename_i hts
      simp [get, hts]
    · rename_i ts hts
      split_ifs with hid
      · simp [get]
      · rw [OrdMap.contains, Bool.not_eq_true, Option.isSome_eq_false_iff, Option.isNone_iff_eq_none] at hid
        simp [get, hts, hid]
  · rw [if_neg heq]
    split
    · rfl
    · rename_i ts hts
      split_ifs
      · by_cases htick : atTick' = atTick
        · subst htick
          have hid : id' ≠ id := fun h => heq (by rw [h])
          simp [get, hts, hid]
        · simp [get, Ne.symm htick]
      · rfl

end TimeoutSets

structure TimeoutMap (Fn : Type) where
  ticks : Nat := 0
  timeoutCancelGen : Nat := 0
  timeouts : TimeoutSets Fn := ∅

namespace TimeoutMap

/-- The critical section of `TimerTick`: the set that the call then runs. -/
def timerTick (t : TimeoutMap Fn) : TimeoutMap Fn × Option (OrdMap Nat Fn) :=
  let t := { t with ticks := t.ticks + 1 }
  match OrdMap.find? t.timeouts t.ticks with
  | none => (t, none)
  | some ts => ({ t with timeouts := OrdMap.erase t.timeouts t.ticks }, some ts)

/-- `SetTimeout`; its `CHECK` fails if no tick is waited for, or if the sum is not an `int64_t`. -/
def setTimeout (t : TimeoutMap Fn) (ticksFromNow : Nat) (fn : Fn) : Option (TimeoutMap Fn × Cancel) :=
  if t.ticks < ticksFromNow + t.ticks ∧ ticksFromNow + t.ticks < 2 ^ 63 then
    let tc : Cancel := ⟨ticksFromNow + t.ticks, t.timeoutCancelGen + 1⟩
    some ({ t with timeoutCancelGen := t.timeoutCancelGen + 1, timeouts := t.timeouts.add tc fn }, tc)
  else none

def cancelTimeout (t : TimeoutMap Fn) (tc : Cancel) : TimeoutMap Fn :=
  { t with timeouts := t.timeouts.remove tc }

theorem timerTick_gen (t : TimeoutMap Fn) :
    t.timerTick.1.timeoutCancelGen = t.timeoutCancelGen := by
  rw [timerTick]
  dsimp only
  split <;> rfl

theorem timerTick_ticks (t : TimeoutMap Fn) : t.timerTick.1.ticks = t.ticks + 1 := by
  rw [timerTick]
  dsimp only
  split <;> rfl

theorem get_timerTick (t : TimeoutMap Fn) (c : Cancel) :
    t.timerTick.1.timeouts.get c = if c.atTick = t.ticks + 1 then none else t.timeouts.get c := by
  rw [timerTick]
  dsimp only
  by_cases htick : c.atTick = t.ticks + 1
  · rw [if_pos htick]
    split
    · rename_i hts
      simp [TimeoutSets.get, htick, hts]
    · simp [TimeoutSets.get, htick]
  · rw [if_neg htick]
    split
    · rfl
    · simp [TimeoutSets.get, htick]

theorem find?_timerTick (t : TimeoutMap Fn) (id : Nat) :
    (t.timerTick.2.bind (·.find? id)) = t.timeouts.get ⟨t.ticks + 1, id⟩ := by
  rw [timerTick, TimeoutSets.get]
  dsimp only
  split
  · rename_i hts
    rw [hts]
  · rename_i ts hts
    rw [hts]

end TimeoutMap

/-! ### Runs -/

/-- A timeout that was set: its handle, when it was set, for how many ticks later, and what. -/
structure Job (Fn : Type) where
  handle : Cancel
  setAt : Nat
  ticksFromNow : Nat
  fn : Fn

/-- The timeouts, and what calls of `TimerTick` have still to run, by their tick.  The rest records
    the past: the functions that ran, each with the tick whose call ran it and its number, what was
    set, and the handles that were cancelled before their tick began. -/
structure TimeoutRun (Fn : Type) where
  table : TimeoutMap Fn := {}
  running : TimeoutSets Fn := ∅
  ran : List (Cancel × Fn) := []
  jobs : List (Job Fn) := []
  cancelled : List Cancel := []
  aborted : Bool := false

/-- What may happen next.  Functions run in any order; what they call are events too. -/
inductive TimeoutEvent (Fn : Type) where
  | setTimeout (ticksFromNow : Nat) (fn : Fn)
  | cancelTimeout (tc : Cancel)
  | timerTick
  | call (tick cancelId : Nat)

namespace TimeoutRun

def setTimeout (s : TimeoutRun Fn) (ticksFromNow : Nat) (fn : Fn) : TimeoutRun Fn :=
  match s.table.setTimeout ticksFromNow fn with
  | none => { s with aborted := true }
  | some (table, tc) =>
    { s with table := table, jobs := s.jobs ++ [⟨tc, s.table.ticks, ticksFromNow, fn⟩] }

def cancelTimeout (s : TimeoutRun Fn) (tc : Cancel) : TimeoutRun Fn :=
  { s with
    table := s.table.cancelTimeout tc
    cancelled := if s.table.ticks < tc.atTick ∧ tc ∈ s.jobs.map (·.handle) then tc :: s.cancelled
      else s.cancelled }

def timerTick (s : TimeoutRun Fn) : TimeoutRun Fn :=
  { s with
    table := s.table.timerTick.1
    running := match s.table.timerTick.2 with
      | none => s.running
      | some ts => OrdMap.insert s.running s.table.timerTick.1.ticks ts }

/-- The call of `TimerTick` for a tick runs one of the functions it has left. -/
def call (s : TimeoutRun Fn) (tick cancelId : Nat) : TimeoutRun Fn :=
  match s.running.get ⟨tick, cancelId⟩ with
  | none => s
  | some fn =>
    { s with running := s.running.remove ⟨tick, cancelId⟩, ran := s.ran ++ [(⟨tick, cancelId⟩, fn)] }

def act (s : TimeoutRun Fn) : TimeoutEvent Fn → TimeoutRun Fn
  | .setTimeout ticksFromNow fn => s.setTimeout ticksFromNow fn
  | .cancelTimeout tc => s.cancelTimeout tc
  | .timerTick => s.timerTick
  | .call tick cancelId => s.call tick cancelId

/-- Nothing happens after a failed `CHECK`. -/
def step (s : TimeoutRun Fn) (e : TimeoutEvent Fn) : TimeoutRun Fn :=
  if s.aborted then s else s.act e

def run (s : TimeoutRun Fn) (events : List (TimeoutEvent Fn)) : TimeoutRun Fn := events.foldl step s

/-! ### What the maps hold -/

def Set (s : TimeoutRun Fn) (c : Cancel) (fn : Fn) : Prop := ∃ job ∈ s.jobs, job.handle = c ∧ job.fn = fn

/-- A function that was set and not cancelled in time is in the table until its tick begins, then
    left to a call of `TimerTick`, then it has run. -/
structure Exact (s : TimeoutRun Fn) : Prop where
  ids : s.jobs.map (·.handle.cancelId) = List.range' 1 s.table.timeoutCancelGen
  at_tick : ∀ job ∈ s.jobs, job.handle.atTick = job.setAt + job.ticksFromNow
  table : ∀ c fn, s.table.timeouts.get c = some fn ↔
    s.Set c fn ∧ s.table.ticks < c.atTick ∧ c ∉ s.cancelled
  running : ∀ c fn, s.running.get c = some fn ↔
    s.Set c fn ∧ c.atTick ≤ s.table.ticks ∧ c ∉ s.cancelled ∧ (c, fn) ∉ s.ran
  ran : ∀ e ∈ s.ran, s.Set e.1 e.2 ∧ e.1.atTick ≤ s.table.ticks ∧ e.1 ∉ s.cancelled
  ran_nodup : s.ran.Nodup
  cancelled : ∀ c ∈ s.cancelled, c ∈ s.jobs.map (·.handle)

variable {s : TimeoutRun Fn}

namespace Exact

theorem job_eq (h : s.Exact) {job job' : Job Fn} (hj : job ∈ s.jobs) (hj' : job' ∈ s.jobs)
    (hid : job.handle.cancelId = job'.handle.cancelId) : job = job' := by
  have hnodup : (s.jobs.map (·.handle.cancelId)).Nodup := by
    rw [h.ids]
    exact List.nodup_range'
  exact List.inj_on_of_nodup_map hnodup hj hj' hid

theorem set_unique (h : s.Exact) {c : Cancel} {fn fn' : Fn} (hset : s.Set c fn)
    (hset' : s.Set c fn') : fn = fn' := by
  obtain ⟨job, hj, hhandle, rfl⟩ := hset
  obtain ⟨job', hj', hhandle', rfl⟩ := hset'
  rw [h.job_eq hj hj' (by rw [hhandle, hhandle'])]

theorem ne_fresh (h : s.Exact) {job : Job Fn} (hj : job ∈ s.jobs) :
    job.handle.cancelId ≠ s.table.timeoutCancelGen + 1 := by
  have hid : job.handle.cancelId ∈ s.jobs.map (·.handle.cancelId) := List.mem_map_of_mem hj
  rw [h.ids, List.mem_range'_1] at hid
  omega

theorem setTimeout (h : s.Exact) (ticksFromNow : Nat) (fn : Fn) :
    (s.setTimeout ticksFromNow fn).Exact := by
  rw [TimeoutRun.setTimeout, TimeoutMap.setTimeout]
  split_ifs with hcheck
  case neg => exact ⟨h.ids, h.at_tick, h.table, h.running, h.ran, h.ran_nodup, h.cancelled⟩
  dsimp only
  obtain ⟨tc, htc⟩ : ∃ tc : Cancel,
      tc = ⟨ticksFromNow + s.table.ticks, s.table.timeoutCancelGen + 1⟩ := ⟨_, rfl⟩
  rw [← htc]
  have hat : tc.atTick = ticksFromNow + s.table.ticks := by rw [htc]
  have hfresh : ∀ job ∈ s.jobs, job.handle ≠ tc := by
    intro job hj heq
    exact h.ne_fresh hj (by rw [heq, htc])
  have hset : ∀ c x, TimeoutRun.Set { s with
      table := { s.table with
        timeoutCancelGen := s.table.timeoutCancelGen + 1, timeouts := s.table.timeouts.add tc fn }
      jobs := s.jobs ++ [⟨tc, s.table.ticks, ticksFromNow, fn⟩] } c x ↔
      s.Set c x ∨ c = tc ∧ x = fn := by
    intro c x
    simp only [TimeoutRun.Set, List.mem_append, List.mem_singleton, or_and_right, exists_or,
      exists_eq_left]
    exact or_congr_right (and_congr eq_comm eq_comm)
  have hnot : ∀ {c x}, s.Set c x → c ≠ tc := by
    rintro c x ⟨job, hj, rfl, -⟩
    exact hfresh job hj
  refine ⟨?_, ?_, ?_, ?_, ?_, h.ran_nodup, ?_⟩
  · rw [List.map_append, h.ids, List.map_singleton, htc, List.range'_1_concat, Nat.add_comm 1]
  · intro job hj
    rcases List.mem_append.mp hj with hj | hj
    · exact h.at_tick job hj
    · rw [List.mem_singleton.mp hj, hat, Nat.add_comm]
  · intro c x
    rw [TimeoutSets.get_add, hset]
    by_cases hc : c = tc
    · subst hc
      have hncancelled : c ∉ s.cancelled := by
        intro hmem
        obtain ⟨job, hj, heq⟩ := List.mem_map.mp (h.cancelled c hmem)
        exact hfresh job hj heq
      rw [if_pos rfl, Option.some.injEq]
      constructor
      · rintro rfl
        exact ⟨.inr ⟨rfl, rfl⟩, by dsimp only; omega, hncancelled⟩
      · rintro ⟨hold | ⟨-, rfl⟩, -⟩
        · exact absurd rfl (hnot hold)
        · rfl
    · rw [if_neg hc, h.table]
      simp [hc]
  · intro c x
    rw [hset, h.running]
    constructor
    · rintro ⟨hold, hrest⟩
      exact ⟨.inl hold, hrest⟩
    · rintro ⟨hold | ⟨rfl, -⟩, hle, hrest⟩
      · exact ⟨hold, hle, hrest⟩
      · dsimp only at hle
        omega
  · intro e he
    obtain ⟨hold, hrest⟩ := h.ran e he
    exact ⟨(hset _ _).mpr (.inl hold), hrest⟩
  · intro c hc
    rw [List.map_append]
    exact List.mem_append_left _ (h.cancelled c hc)

theorem cancelTimeout (h : s.Exact) (tc : Cancel) : (s.cancelTimeout tc).Exact := by
  have hcancelled : ∀ c, c ∈ (s.cancelTimeout tc).cancelled ↔
      c ∈ s.cancelled ∨ c = tc ∧ s.table.ticks < tc.atTick ∧ tc ∈ s.jobs.map (·.handle) := by
    intro c
    rw [TimeoutRun.cancelTimeout]
    dsimp only
    split_ifs with hearly
    · rw [List.mem_cons, and_iff_left hearly, or_comm]
    · rw [or_iff_left fun hnew => hearly hnew.2]
  refine ⟨h.ids, h.at_tick, ?_, ?_, ?_, h.ran_nodup, ?_⟩
  · intro c fn
    change (s.table.timeouts.remove tc).get c = _ ↔ s.Set c fn ∧ s.table.ticks < c.atTick ∧ _
    rw [TimeoutSets.get_remove, hcancelled]
    by_cases hc : c = tc
    · subst hc
      rw [if_pos rfl]
      refine iff_of_false nofun ?_
      rintro ⟨⟨job, hj, hhandle, -⟩, hlt, hnot⟩
      exact hnot (.inr ⟨rfl, hlt, hhandle ▸ List.mem_map_of_mem hj⟩)
    · rw [if_neg hc, h.table]
      simp [hc]
  · intro c fn
    change s.running.get c = _ ↔ s.Set c fn ∧ c.atTick ≤ s.table.ticks ∧ _ ∧ (c, fn) ∉ s.ran
    rw [h.running, hcancelled]
    constructor
    · rintro ⟨hset, hle, hnot, hran⟩
      refine ⟨hset, hle, ?_, hran⟩
      rintro (hmem | ⟨rfl, hlt, -⟩)
      · exact hnot hmem
      · omega
    · rintro ⟨hset, hle, hnot, hran⟩
      exact ⟨hset, hle, fun hmem => hnot (.inl hmem), hran⟩
  · intro e he
    obtain ⟨hset, hle, hnot⟩ := h.ran e he
    refine ⟨hset, hle, ?_⟩
    rw [hcancelled]
    rintro (hmem | ⟨heq, hlt, -⟩)
    · exact hnot hmem
    · rw [heq] at hle
      omega
  · intro c hc
    rcases (hcancelled c).mp hc with hc | ⟨rfl, -, hmem⟩
    · exact h.cancelled c hc
    · exact hmem

theorem timerTick (h : s.Exact) : s.timerTick.Exact := by
  have hticks : s.timerTick.table.ticks = s.table.ticks + 1 := s.table.timerTick_ticks
  have hgen : s.timerTick.table.timeoutCancelGen = s.table.timeoutCancelGen :=
    s.table.timerTick_gen
  -- Nothing has been left to a call for the tick that begins now.
  have hnone : ∀ c : Cancel, c.atTick = s.table.ticks + 1 → s.running.get c = none := by
    intro c hc
    rw [Option.eq_none_iff_forall_ne_some]
    intro fn hfn
    have := ((h.running c fn).mp hfn).2.1
    omega
  have hrunning : ∀ c : Cancel, s.timerTick.running.get c =
      if c.atTick = s.table.ticks + 1 then s.table.timeouts.get c else s.running.get c := by
    intro c
    have hfind := s.table.find?_timerTick c.cancelId
    rw [TimeoutRun.timerTick]
    dsimp only
    split_ifs with hc
    · rw [← hc] at hfind
      change _ = s.table.timeouts.get ⟨c.atTick, c.cancelId⟩
      rw [← hfind]
      split
      · rename_i hts
        rw [hts]
        exact hnone c hc
      · rename_i ts hts
        rw [hts, TimeoutMap.timerTick_ticks, TimeoutSets.get, OrdMap.find?_insert, if_pos hc.symm]
    · split
      · rfl
      · rw [TimeoutMap.timerTick_ticks, TimeoutSets.get, OrdMap.find?_insert, if_neg (Ne.symm hc)]
        rfl
  refine ⟨hgen ▸ h.ids, h.at_tick, ?_, ?_, ?_, h.ran_nodup, h.cancelled⟩
  · intro c fn
    change s.table.timerTick.1.timeouts.get c = _ ↔ s.Set c fn ∧ _ ∧ c ∉ s.cancelled
    rw [TimeoutMap.get_timerTick, hticks]
    split_ifs with hc
    · refine iff_of_false nofun ?_
      rintro ⟨-, hlt, -⟩
      omega
    · rw [h.table]
      exact and_congr_right fun _ => and_congr_left fun _ => ⟨fun hlt => by omega, fun hlt => by omega⟩
  · intro c fn
    change _ ↔ s.Set c fn ∧ _ ∧ c ∉ s.cancelled ∧ (c, fn) ∉ s.ran
    rw [hrunning, hticks]
    split_ifs with hc
    · rw [h.table]
      constructor
      · rintro ⟨hset, -, hnot⟩
        refine ⟨hset, hc.le, hnot, fun hran => ?_⟩
        have := (h.ran _ hran).2.1
        dsimp only at this
        omega
      · rintro ⟨hset, -, hnot, -⟩
        exact ⟨hset, by omega, hnot⟩
    · rw [h.running]
      exact and_congr_right fun _ => and_congr_left fun _ => ⟨fun hle => by omega, fun hle => by omega⟩
  · intro e he
    obtain ⟨hset, hle, hnot⟩ := h.ran e he
    exact ⟨hset, by rw [hticks]; omega, hnot⟩

theorem call (h : s.Exact) (tick cancelId : Nat) : (s.call tick cancelId).Exact := by
  rw [TimeoutRun.call]
  split
  · exact h
  · rename_i fn hfn
    obtain ⟨hset, hle, hnot, hran⟩ := (h.running _ _).mp hfn
    refine ⟨h.ids, h.at_tick, h.table, ?_, ?_, ?_, h.cancelled⟩
    · intro c x
      change (s.running.remove ⟨tick, cancelId⟩).get c = _ ↔
        s.Set c x ∧ c.atTick ≤ s.table.ticks ∧ c ∉ s.cancelled ∧ (c, x) ∉ s.ran ++ [_]
      rw [TimeoutSets.get_remove, List.mem_append, List.mem_singleton, Prod.mk.injEq]
      by_cases hc : c = ⟨tick, cancelId⟩
      · subst hc
        rw [if_pos rfl]
        refine iff_of_false nofun ?_
        rintro ⟨hset', -, -, hnotran⟩
        exact hnotran (.inr ⟨rfl, h.set_unique hset' hset⟩)
      · rw [if_neg hc, h.running]
        simp [hc]
    · intro e he
      rcases List.mem_append.mp he with he | he
      · exact h.ran e he
      · rw [List.mem_singleton.mp he]
        exact ⟨hset, hle, hnot⟩
    · rw [← List.concat_eq_append]
      exact h.ran_nodup.concat hran

theorem step (h : s.Exact) (e : TimeoutEvent Fn) : (s.step e).Exact := by
  rw [TimeoutRun.step]
  split_ifs
  · exact h
  · cases e with
    | setTimeout ticksFromNow fn => exact h.setTimeout ticksFromNow fn
    | cancelTimeout tc => exact h.cancelTimeout tc
    | timerTick => exact h.timerTick
    | call tick cancelId => exact h.call tick cancelId

end Exact

theorem exact_run (events : List (TimeoutEvent Fn)) : (run {} events : TimeoutRun Fn).Exact :=
  foldl_invariant (fun _ e h => h.step e)
    ⟨rfl, nofun, fun _ _ => ⟨nofun, fun h => (by obtain ⟨⟨job, hj, -⟩, -⟩ := h; cases hj)⟩,
      fun _ _ => ⟨nofun, fun h => (by obtain ⟨⟨job, hj, -⟩, -⟩ := h; cases hj)⟩, nofun, List.nodup_nil,
      nofun⟩ events

/-! ### What ran -/

def runsOf (s : TimeoutRun Fn) (job : Job Fn) : List (Cancel × Fn) :=
  s.ran.filter fun e => e.1.cancelId = job.handle.cancelId

/-- A call of `TimerTick` has still to run the function. -/
def Waiting (s : TimeoutRun Fn) (job : Job Fn) : Prop := s.running.get job.handle = some job.fn

namespace Exact

theorem mem_ran_iff (h : s.Exact) {job : Job Fn} (hj : job ∈ s.jobs) :
    (job.handle, job.fn) ∈ s.ran ↔
      job.handle.atTick ≤ s.table.ticks ∧ job.handle ∉ s.cancelled ∧ ¬s.Waiting job := by
  have hset : s.Set job.handle job.fn := ⟨job, hj, rfl, rfl⟩
  rw [Waiting, h.running]
  constructor
  · intro hran
    obtain ⟨-, hle, hnot⟩ := h.ran _ hran
    exact ⟨hle, hnot, fun hwait => hwait.2.2.2 hran⟩
  · rintro ⟨hle, hnot, hwait⟩
    by_contra hran
    exact hwait ⟨hset, hle, hnot, hran⟩

theorem runsOf_eq_nil (h : s.Exact) {job : Job Fn} (hj : job ∈ s.jobs)
    (hran : (job.handle, job.fn) ∉ s.ran) : s.runsOf job = [] := by
  rw [runsOf, List.filter_eq_nil_iff]
  intro e he hid
  obtain ⟨⟨job', hj', hhandle, hfn⟩, -⟩ := h.ran e he
  obtain rfl := h.job_eq hj' hj (by rw [hhandle]; exact of_decide_eq_true hid)
  exact hran (by rw [hhandle, hfn]; exact he)

theorem runsOf_eq_singleton (h : s.Exact) {job : Job Fn} (hj : job ∈ s.jobs)
    (hran : (job.handle, job.fn) ∈ s.ran) : s.runsOf job = [(job.handle, job.fn)] := by
  have hmem : ∀ e, e ∈ s.runsOf job ↔ e ∈ [(job.handle, job.fn)] := by
    intro e
    rw [runsOf, List.mem_filter, List.mem_singleton]
    constructor
    · rintro ⟨he, hid⟩
      obtain ⟨⟨job', hj', hhandle, hfn⟩, -⟩ := h.ran e he
      obtain rfl := h.job_eq hj' hj (by rw [hhandle]; exact of_decide_eq_true hid)
      rw [hhandle, hfn]
    · rintro rfl
      exact ⟨hran, decide_eq_true rfl⟩
  have hperm := (List.perm_ext_iff_of_nodup (h.ran_nodup.filter _) (List.nodup_singleton _)).mpr hmem
  exact List.perm_singleton.mp hperm

end Exact

/-- Every call gets on: a function that waits has run after its call, unless a `CHECK` failed. -/
theorem runsOf_call {events : List (TimeoutEvent Fn)} {job : Job Fn}
    (halive : (run {} events : TimeoutRun Fn).aborted = false) (hj : job ∈ (run {} events).jobs)
    (hwait : (run {} events).Waiting job) :
    (run {} (events ++ [.call job.handle.atTick job.handle.cancelId])).runsOf job =
      [(job.handle, job.fn)] := by
  have hcall : run {} (events ++ [.call job.handle.atTick job.handle.cancelId]) =
      { (run {} events : TimeoutRun Fn) with
        running := (run {} events).running.remove job.handle
        ran := (run {} events).ran ++ [(job.handle, job.fn)] } := by
    rw [run, List.foldl_concat, step, if_neg (by rw [← run, halive]; decide), act, call]
    change (match (run {} events).running.get job.handle with | none => _ | some fn => _) = _
    rw [Waiting] at hwait
    rw [hwait]
    rfl
  have hexact := exact_run (events ++ [.call job.handle.atTick job.handle.cancelId])
  rw [hcall] at hexact ⊢
  exact hexact.runsOf_eq_singleton hj (List.mem_append_right _ (List.mem_singleton_self _))

/-- Timeouts are exact: whatever is set, cancelled, also more than once or through a handle that
    stands for nothing, and ticked in between, a function that was set runs in no other tick than the
    one that it was set for.  Not before that tick begins; never if its own handle was cancelled
    before; and otherwise exactly once, unless the call of that tick has still to run it.  Nothing
    else runs. -/
theorem timeouts_exact (events : List (TimeoutEvent Fn)) :
    let s : TimeoutRun Fn := run {} events
    (∀ job ∈ s.jobs, job.handle.atTick = job.setAt + job.ticksFromNow ∧
      (s.table.ticks < job.handle.atTick → s.runsOf job = []) ∧
      (job.handle ∈ s.cancelled → s.runsOf job = []) ∧
      (job.handle.atTick ≤ s.table.ticks → job.handle ∉ s.cancelled →
        (s.Waiting job → s.runsOf job = []) ∧
        (¬s.Waiting job → s.runsOf job = [(job.handle, job.fn)]))) ∧
    ∀ e ∈ s.ran, ∃ job ∈ s.jobs, job.handle = e.1 ∧ job.fn = e.2 := by
  intro s
  have h : s.Exact := exact_run events
  refine ⟨fun job hj => ⟨h.at_tick job hj, fun hlt => ?_, fun hcancelled => ?_, fun hle hnot =>
    ⟨fun hwait => ?_, fun hwait => ?_⟩⟩, fun e he => (h.ran e he).1⟩
  · refine h.runsOf_eq_nil hj fun hran => ?_
    have := ((h.mem_ran_iff hj).mp hran).1
    omega
  · exact h.runsOf_eq_nil hj fun hran => ((h.mem_ran_iff hj).mp hran).2.1 hcancelled
  · exact h.runsOf_eq_nil hj fun hran => ((h.mem_ran_iff hj).mp hran).2.2 hwait
  · exact h.runsOf_eq_singleton hj ((h.mem_ran_iff hj).mpr ⟨hle, hnot, hwait⟩)

/-- Two timeouts for the first tick and one for the second, which is cancelled. -/
def sampleEvents : List (TimeoutEvent String) :=
  [.setTimeout 1 "a", .setTimeout 2 "b", .setTimeout 1 "c", .cancelTimeout ⟨2, 2⟩, .timerTick,
    .call 1 3, .cancelTimeout ⟨1, 1⟩, .timerTick, .call 1 1]

theorem timeouts_exact_sampleEvents :
    (run {} sampleEvents).runsOf ⟨⟨1, 1⟩, 0, 1, "a"⟩ = [(⟨1, 1⟩, "a")] ∧
      (run {} sampleEvents).runsOf ⟨⟨2, 2⟩, 0, 2, "b"⟩ = [] := by
  obtain ⟨hjobs, -⟩ := timeouts_exact sampleEvents
  refine ⟨((hjobs ⟨⟨1, 1⟩, 0, 1, "a"⟩ ?_).2.2.2 ?_ ?_).2 ?_, (hjobs ⟨⟨2, 2⟩, 0, 2, "b"⟩ ?_).2.2.1 ?_⟩
  · exact .head _
  · decide
  · decide
  · exact nofun
  · exact .tail _ (.head _)
  · decide

end TimeoutRun

/-! ### The flat table of the core -/

namespace Timeout

/-- A table of handles stands for a map of sets. -/
structure Represents (t : Timeout Fn) (m : TimeoutMap Fn) : Prop where
  ticks : t.ticks = m.ticks
  gen : t.timeoutCancelGen = m.timeoutCancelGen
  entries : ∀ c fn, (c, fn) ∈ t.timeouts ↔ m.timeouts.get c = some fn
  used : ∀ c fn, (c, fn) ∈ t.timeouts → c.cancelId ≤ t.timeoutCancelGen

variable {t : Timeout Fn} {m : TimeoutMap Fn}

theorem Represents.setTimeout (h : t.Represents m) {ticksFromNow : Nat} {fn : Fn}
    {m' : TimeoutMap Fn} {tc : Cancel} (hset : m.setTimeout ticksFromNow fn = some (m', tc)) :
    (t.setTimeout ticksFromNow fn).2 = tc ∧ (t.setTimeout ticksFromNow fn).1.Represents m' := by
  rw [TimeoutMap.setTimeout] at hset
  split_ifs at hset
  obtain ⟨rfl, rfl⟩ := Prod.mk.inj (Option.some.inj hset)
  have htc : (t.setTimeout ticksFromNow fn).2 =
      ⟨ticksFromNow + m.ticks, m.timeoutCancelGen + 1⟩ := by
    rw [Timeout.setTimeout, h.ticks, h.gen]
  refine ⟨htc, h.ticks, by rw [← h.gen]; rfl, fun c x => ?_, fun c x hx => ?_⟩
  · change (c, x) ∈ t.timeouts ++ [((t.setTimeout ticksFromNow fn).2, fn)] ↔ _
    rw [htc, TimeoutSets.get_add, List.mem_append, List.mem_singleton, Prod.mk.injEq]
    split_ifs with hc
    · have hfresh : (c, x) ∉ t.timeouts := by
        intro hold
        have hle := h.used c x hold
        rw [h.gen, hc] at hle
        exact absurd hle (Nat.not_succ_le_self _)
      rw [or_iff_right hfresh, and_iff_right hc, Option.some.injEq]
      exact eq_comm
    · rw [or_iff_left fun hnew => hc hnew.1, h.entries]
  · rcases List.mem_append.mp hx with hx | hx
    · exact (h.used c x hx).trans (Nat.le_succ _)
    · rw [(Prod.mk.inj (List.mem_singleton.mp hx)).1]
      exact le_refl _

theorem Represents.cancelTimeout (h : t.Represents m) (tc : Cancel) :
    (t.cancelTimeout tc).Represents (m.cancelTimeout tc) := by
  refine ⟨h.ticks, h.gen, fun c fn => ?_, fun c fn hmem => h.used c fn (List.mem_of_mem_filter hmem)⟩
  change (c, fn) ∈ t.timeouts.filter _ ↔ (m.timeouts.remove tc).get c = some fn
  rw [TimeoutSets.get_remove, List.mem_filter, h.entries]
  split_ifs with hc
  · simp [hc]
  · simp [hc]

theorem Represents.timerTick (h : t.Represents m) :
    t.timerTick.1.Represents m.timerTick.1 ∧
      ∀ fn, fn ∈ t.timerTick.2 ↔ ∃ id, m.timerTick.2.bind (·.find? id) = some fn := by
  refine ⟨⟨?_, h.gen.trans m.timerTick_gen.symm, fun c fn => ?_,
    fun c fn hmem => h.used c fn (List.mem_of_mem_filter hmem)⟩, fun fn => ?_⟩
  · rw [TimeoutMap.timerTick_ticks, ← h.ticks]
    rfl
  · change (c, fn) ∈ t.timeouts.filter _ ↔ _
    rw [TimeoutMap.get_timerTick, List.mem_filter, h.entries, ← h.ticks]
    split_ifs with hc
    · simp [hc]
    · simp [hc]
  · change fn ∈ (t.timeouts.filter _).map _ ↔ _
    simp only [TimeoutMap.find?_timerTick, ← h.entries, ← h.ticks, List.mem_map, List.mem_filter,
      decide_eq_true_eq]
    constructor
    · rintro ⟨⟨c, x⟩, ⟨hmem, hc⟩, rfl⟩
      exact ⟨c.cancelId, by rw [← show c.atTick = t.ticks + 1 from hc]; exact hmem⟩
    · rintro ⟨id, hmem⟩
      exact ⟨_, ⟨hmem, rfl⟩, rfl⟩

def act (t : Timeout Fn) : TimeoutEvent Fn → Timeout Fn
  | .setTimeout ticksFromNow fn => (t.setTimeout ticksFromNow fn).1
  | .cancelTimeout tc => t.cancelTimeout tc
  | .timerTick => t.timerTick.1
  | .call _ _ => t

theorem Represents.act {s : TimeoutRun Fn} (h : t.Represents s.table) (e : TimeoutEvent Fn)
    (hok : (s.act e).aborted = false) : (t.act e).Represents (s.act e).table := by
  cases e with
  | setTimeout ticksFromNow fn =>
    simp only [TimeoutRun.act, TimeoutRun.setTimeout] at hok ⊢
    split at hok
    · cases hok
    · rename_i hset
      exact (h.setTimeout hset).2
  | cancelTimeout tc => exact h.cancelTimeout tc
  | timerTick => exact h.timerTick.1
  | call tick cancelId =>
    simp only [TimeoutRun.act, TimeoutRun.call]
    split
    · exact h
    · exact h

/-- After every run in which no `CHECK` fails, the core's table stands for the map. -/
theorem table_represents_map (events : List (TimeoutEvent Fn))
    (hok : (TimeoutRun.run {} events).aborted = false) :
    (events.foldl act {}).Represents (TimeoutRun.run {} events).table := by
  induction events using List.reverseRecOn with
  | nil => exact ⟨rfl, rfl, fun c fn => by simp [TimeoutRun.run, TimeoutSets.get], by simp⟩
  | append_singleton events e ih =>
    have hrun : TimeoutRun.run {} (events ++ [e]) = (TimeoutRun.run {} events).step e :=
      List.foldl_concat ..
    rw [hrun, TimeoutRun.step] at hok ⊢
    rw [List.foldl_concat]
    split_ifs at hok ⊢ with haborted
    · rw [hok] at haborted
      cases haborted
    · exact (ih (Bool.eq_false_of_not_eq_true haborted)).act e hok

theorem table_represents_map_sampleEvents :
    (TimeoutRun.sampleEvents.foldl act {}).Represents
      (TimeoutRun.run {} TimeoutRun.sampleEvents).table :=
  table_represents_map TimeoutRun.sampleEvents (by decide)

end Timeout

end SVR2
