import SVR2.Raft.Certificates

/-!
# Terms in a log

The terms of the entries that a run has added to a log never decrease, and candidates and
leaders are in terms above theirs.
-/

namespace SVR2

variable {Hash : Type} [Platform Hash]
variable {S : Setting Hash} {G : Rules Hash} {R : Set PeerId}
variable {w : World Hash} {p q : PeerId} {v : View Hash}

def TermsSorted (S : Setting Hash) (L : List (LogEntry Hash)) : Prop :=
  ∀ i j, S.base.length < i → i ≤ j → j ≤ L.length → termAt L i ≤ termAt L j

/-- The terms after the initial log are at most `t`. -/
def TermsBelow (S : Setting Hash) (L : List (LogEntry Hash)) (t : Nat) : Prop :=
  ∀ i, S.base.length < i → i ≤ L.length → termAt L i ≤ t

omit [Platform Hash] in
theorem TermsSorted.congr {L L' : List (LogEntry Hash)} {n : Nat} (h : TermsSorted S L)
    (hn : n ≤ L.length) (hL : L' = L.take n) : TermsSorted S L' := by
  intro i j hi hij hj
  have hlen : L'.length = n := by rw [hL, List.length_take, Nat.min_eq_left hn]
  have hsame : L'.take n = L.take n := by rw [hL, List.take_take, Nat.min_self]
  rw [termAt_congr hsame (by omega), termAt_congr hsame (by omega)]
  exact h i j hi hij (by omega)

omit [Platform Hash] in
theorem TermsBelow.snoc {L : List (LogEntry Hash)} {t : Nat} {e : LogEntry Hash}
    (h : TermsBelow S L t) (he : e.term ≤ t) : TermsBelow S (L ++ [e]) t := by
  intro i hi hle
  rw [List.length_append, List.length_singleton] at hle
  by_cases hiL : i ≤ L.length
  · rw [termAt_append_of_le e hiL]
    exact h i hi hiL
  · obtain rfl : i = L.length + 1 := by omega
    rw [termAt_append_self]
    exact he

omit [Platform Hash] in
theorem TermsSorted.snoc {L : List (LogEntry Hash)} {e : LogEntry Hash} (h : TermsSorted S L)
    (he : TermsBelow S L e.term) : TermsSorted S (L ++ [e]) := by
  intro i j hi hij hj
  rw [List.length_append, List.length_singleton] at hj
  by_cases hjL : j ≤ L.length
  · rw [termAt_append_of_le e (hij.trans hjL), termAt_append_of_le e hjL]
    exact h i j hi hij hjL
  · obtain rfl : j = L.length + 1 := by omega
    rw [termAt_append_self]
    exact he.snoc (le_refl _) i hi (by simpa using hij)

namespace World.Reachable

/-- The terms of a view that is neither a candidate nor a leader need not be below its own, for
    one that has joined; those of a candidate are, if the rules see to it. -/
theorem terms (htrust : ∀ w, Reachable S G R w → w.Trusted)
    (hcampaign : ∀ w p v, Reachable S G R w → v ∈ w.past p → TermsSorted S v.log →
      G.mayCampaign v.campaign → TermsBelow S v.log v.term)
    (h : Reachable S G R w) (hv : v ∈ w.past p) :
    TermsSorted S v.log ∧ (v.role = .leader → TermsBelow S v.log v.term) ∧
      (v.role = .candidate → 0 < v.term ∧ TermsBelow S v.log (v.term - 1)) := by
  refine past_induction (P := fun _ _ v => TermsSorted S v.log ∧
    (v.role = .leader → TermsBelow S v.log v.term) ∧
    (v.role = .candidate → 0 < v.term ∧ TermsBelow S v.log (v.term - 1))) ?_ ?_ ?_ ?_ h hv
  · intro _ _ _ _ _ hv
    exact hv
  · intro w p
    refine ⟨?_, fun hr => (nomatch hr), fun hr => (nomatch hr)⟩
    intro i j hi hij hj
    exact absurd hj (not_le.mpr (hi.trans_le hij))
  · intro w p v v' out hw hall hv hmove
    obtain ⟨hsorted, hlead, hcand⟩ := hall p v hv
    -- a leader appends an entry of its term
    have append : v.role = .leader → ∀ e : LogEntry Hash, e.term = v.term →
        TermsSorted S (v.log ++ [e]) ∧ TermsBelow S (v.log ++ [e]) v.term := by
      intro hr e he
      exact ⟨hsorted.snoc (he ▸ hlead hr), (hlead hr).snoc he.le⟩
    cases hmove with
    | campaign hrole hvoter hrule =>
      refine ⟨hsorted, fun hr => (nomatch hr), fun _ => ⟨Nat.succ_pos _, ?_⟩⟩
      exact hcampaign w p v hw hv hsorted hrule
    | newTerm => exact ⟨hsorted, fun hr => (nomatch hr), fun hr => (nomatch hr)⟩
    | stepDown => exact ⟨hsorted, fun hr => (nomatch hr), fun hr => (nomatch hr)⟩
    | becomeLeader hrole =>
      refine ⟨hsorted, fun _ i hi hle => ?_, fun hr => (nomatch hr)⟩
      exact ((hcand hrole).2 i hi hle).trans (Nat.sub_le _ _)
    | appendEntry e hrole hterm =>
      obtain ⟨h1, h2⟩ := append hrole e hterm
      exact ⟨h1, fun _ => h2, fun hr => by rw [show v.role = _ from hr] at hrole; cases hrole⟩
    | appendMembership e m hrole hterm =>
      obtain ⟨h1, h2⟩ := append hrole e hterm
      exact ⟨h1, fun _ => h2, fun hr => by rw [show v.role = _ from hr] at hrole; cases hrole⟩
    | truncate q m k e e' hrole hin hagree =>
      refine ⟨hsorted.congr hagree.length_le rfl, fun hr => ?_, fun hr => ?_⟩
      all_goals
        rw [show v.role = _ from hr] at hrole
        cases hrole
    | extend q m k e hrole hin hagree he hend =>
      refine ⟨?_, fun hr => ?_, fun hr => ?_⟩
      -- the longer log is the beginning of the leader's
      · obtain ⟨l, hl, hlrole, -, prev, n, hprev, rfl⟩ := hw.requested hin
        have hend : v.log.length = prev + k := hend
        have hentry := Agrees.getElem?_of_entries he
        have hsame := (htrust w hw).agree hv hl hlrole hprev hagree
        refine (hall q l hl).1.congr (List.getElem?_eq_some_iff.mp hentry).1 ?_
        rw [List.take_add_one, hentry, ← hsame, ← hend, List.take_length]
        rfl
      all_goals
        rw [show v.role = _ from hr] at hrole
        cases hrole
    | _ => exact ⟨hsorted, hlead, hcand⟩
  · intro w p q v _ hw hq hv
    have hok := hw.view_ok hq
    refine ⟨hv.1.congr (hok.commit_le.trans hok.promise_le) rfl, fun hr => (nomatch hr),
      fun hr => (nomatch hr)⟩

/-- If nobody joins, no replica has entries of a term it has not reached. -/
theorem termsBelow (h : Reachable S G R w) (hjoin : ¬G.mayJoin) (hv : v ∈ w.past p) :
    TermsBelow S v.log v.term := by
  refine past_induction (P := fun _ _ v => TermsBelow S v.log v.term) ?_ ?_ ?_ ?_ h hv
  · intro _ _ _ _ _ hv
    exact hv
  · intro w p i hi hle
    exact absurd hle (not_le.mpr hi)
  · intro w p v v' out hw hall hv hmove
    have hterm := hmove.term_le
    have hbelow : TermsBelow S v.log v'.term :=
      fun i hi hle => (hall p v hv i hi hle).trans hterm
    cases hmove with
    | appendEntry e hrole he => exact hbelow.snoc he.le
    | appendMembership e m hrole he => exact hbelow.snoc he.le
    | extend q m k e hrole hin hagree he hend =>
      obtain ⟨l, hl, -, hlterm, prev, n, hprev, rfl⟩ := hw.requested hin
      have hend : v.log.length = prev + k := hend
      have hbase := (hw.view_ok hv).base_start.length_le
      have hentry := Agrees.getElem?_of_entries he
      have hle := hall q l hl (prev + k + 1) (by omega) (List.getElem?_eq_some_iff.mp hentry).1
      rw [termAt, entryAt_succ, hentry, hlterm] at hle
      exact hbelow.snoc hle
    | truncate q m k e e' hrole hin hagree =>
      intro i hi hle
      have hle : i ≤ (v.log.take (m.prevLogIdx + k)).length := hle
      rw [List.length_take] at hle
      rw [termAt_congr (n := m.prevLogIdx + k) (List.take_take.trans (by rw [Nat.min_self])) (by omega)]
      exact hbelow i hi (by omega)
    | _ => exact hbelow
  · intro w p q v hrule
    exact absurd hrule hjoin

end World.Reachable

end SVR2
