import SVR2.Raft.Changes
import SVR2.Raft.Safety

/-!
# Recomputing the hash of an entry

A follower that receives an entry computes its hash anew and rejects the entry if the leader's
hash is another one.  The hash covers the serialised entry, and protobuf may serialise equal maps
in different orders, so leader and follower agree on every entry but a set of limits with several
keys.
-/

namespace SVR2

open Lib

variable {Hash : Type} [DecidableEq Hash] [Platform Hash]

namespace Log

/-- The logs that the operations of `Log` make from an empty one. -/
inductive Built : Log Hash → Prop where
  | new (maxBytes : Nat) : Built (Log.new maxBytes)
  | append {log : Log Hash} (e : LogEntry Hash) (truncateTo : Nat) :
      Built log → Built (log.append e truncateTo).1
  | cancelFrom {log : Log Hash} (idx : Nat) : Built log → Built (log.cancelFrom idx).1
  | setNextIdx {log : Log Hash} (idx : Nat) : Built log → Built (log.setNextIdx idx).1

omit [DecidableEq Hash] [Platform Hash] in
theorem at?_lastIdx (log : Log Hash) : log.at? log.lastIdx = log.entries.getLast? := by
  rw [at?, lastIdx]
  by_cases he : log.entries = []
  · simp [he]
  · have hpos : 0 < log.entries.length := List.length_pos_iff.mpr he
    rw [if_neg he, if_neg (by omega), List.getLast?_eq_getElem?]
    congr 1
    omega

omit [DecidableEq Hash] [Platform Hash] in
theorem termAt_nextIdx (log : Log Hash) : log.termAt (log.lastIdx + 1) = 0 := by
  have hnone : log.at? (log.lastIdx + 1) = none := by
    rw [at?, lastIdx]
    split_ifs with he
    · rfl
    · simp [he]
    · rfl
    · have hpos : 0 < log.entries.length := List.length_pos_iff.mpr he
      exact List.getElem?_eq_none (by omega)
  rw [termAt, hnone]
  rfl

omit [DecidableEq Hash] in
theorem Built.hash_some {log : Log Hash} (h : log.Built) : ∀ e ∈ log.entries, e.hashChain ≠ none := by
  induction h with
  | new => simp [Log.new]
  | @append log x truncateTo _ ih =>
    intro e he
    obtain ⟨k, -, -, ⟨heq, -⟩ | ⟨heq, -, hx⟩⟩ := log.append_drop x truncateTo
    · exact ih e (List.mem_of_mem_drop (heq ▸ he))
    · rw [heq, List.mem_append, List.mem_singleton] at he
      rcases he with he | rfl
      · exact ih e (List.mem_of_mem_drop he)
      · exact hx
  | @cancelFrom log idx _ ih =>
    intro e he
    rw [Log.cancelFrom] at he
    split_ifs at he
    · exact ih e he
    · exact ih e (List.mem_of_mem_take he)
  | @setNextIdx log idx _ ih =>
    intro e he
    rw [Log.setNextIdx] at he
    split_ifs at he <;> exact ih e he

omit [DecidableEq Hash] in
theorem Built.mostRecentHash_eq {log : Log Hash} (h : log.Built) :
    log.mostRecentHash = log.entries.getLast?.bind (·.hashChain) := by
  rcases List.eq_nil_or_concat log.entries with he | ⟨l, e, he⟩
  · simp [mostRecentHash, he]
  · rw [List.concat_eq_append] at he
    obtain ⟨x, hx⟩ := Option.ne_none_iff_exists'.mp (h.hash_some e (by simp [he]))
    simp [mostRecentHash, he, hx]

end Log

/-- Two surroundings serialise the entry alike, which is a question only of limits with several
    keys. -/
def Inner.SameOrder (inner : Inner) (o o' : Oracle) (idx : Nat) : Prop :=
  ∀ m, inner = .minimums m → m.size ≤ 1 ∨ o.mapOrder idx m = o'.mapOrder idx m

omit [DecidableEq Hash] [Platform Hash] in
theorem Inner.payload_eq_iff {inner : Inner} {o o' : Oracle} {idx : Nat} :
    inner.payload (o.mapOrder idx) = inner.payload (o'.mapOrder idx) ↔
      inner.SameOrder o o' idx := by
  constructor
  · rintro h m rfl
    exact .inr (HmacPayload.minimums.inj h)
  intro h
  cases inner with
  | minimums m =>
    rcases h m rfl with hsize | heq
    · have hperm := (o.mapOrder_perm idx m).trans (o'.mapOrder_perm idx m).symm
      have hlen : (o.mapOrder idx m).length ≤ 1 := (o.mapOrder_perm idx m).length_eq ▸ hsize
      rcases hlist : o.mapOrder idx m with _ | ⟨a, _ | ⟨b, t⟩⟩
      · rw [hlist] at hperm
        simp only [payload, hlist, hperm.nil_eq]
      · rw [hlist] at hperm
        simp only [payload, hlist, List.singleton_perm.mp hperm]
      · simp [hlist] at hlen
    · simp only [payload, heq]
  | _ => rfl

namespace Raft

omit [DecidableEq Hash] in
theorem logAppend_last {r r' : Raft Hash} {e : LogEntry Hash} {loc : LogLocation Hash}
    (h : r.logAppend e = (r', loc, .ok)) : r'.log.at? r'.log.lastIdx = some e := by
  have happend := (r.logAppend_ok h).1
  obtain ⟨k, -, -, ⟨-, herr⟩ | ⟨heq, -, -⟩⟩ := r.log.append_drop e r.lastApplied
  · rw [happend] at herr
    exact absurd rfl herr
  · rw [happend] at heq
    rw [Log.at?_lastIdx, heq, List.getLast?_concat]

end Raft

/-- A follower recomputes the leader's hash: if a leader appends an entry to its log and the last
    entry before it is the last one of the follower, the follower computes the hash that the leader
    put into the entry, if the two serialise the keys in the same order in case of several limits, and
    only then if HMAC never collides.  The follower stops at the entry exactly if it computes another
    hash. -/
theorem follower_recomputes_hash (l f : Raft Hash) (o o' : Oracle) (e : LogEntry Hash)
    {l' : Raft Hash} {loc : LogLocation Hash} (hl : l.log.Built) (hf : f.log.Built)
    (happend : l.clientRequestInternal o e = (l', loc, .ok)) (hidx : f.log.lastIdx = l.log.lastIdx)
    (hlast : f.log.at? f.log.lastIdx = l.log.at? l.log.lastIdx) :
    ∃ e', l'.log.at? l'.log.lastIdx = some e' ∧ e'.inner = e.inner ∧
      (e.inner.SameOrder o o' l.log.nextIdx → some (f.nextHash o' e') = e'.hashChain) ∧
      (CollisionFree Hash → some (f.nextHash o' e') = e'.hashChain →
        e.inner.SameOrder o o' l.log.nextIdx) ∧
      ∀ rest, f.processEntries o' f.log.lastIdx (e' :: rest) =
        if some (f.nextHash o' e') ≠ e'.hashChain then (f, f.log.lastIdx)
        else if (f.logAppend e').2.2 = .ok then
          (f.logAppend e').1.processEntries o' (f.log.lastIdx + 1) rest
        else ((f.logAppend e').1, f.log.lastIdx) := by
  have hroleok : ¬(l.role ≠ .leader ∨ l.leader.relinquishing = true) := by
    intro hrole
    simp [Raft.clientRequestInternal, hrole] at happend
  rw [Raft.clientRequestInternal] at happend
  dsimp only at happend
  rw [if_neg hroleok] at happend
  refine ⟨l.stamped o e, Raft.logAppend_last happend, rfl, ?_⟩
  -- both hash their payload on top of the same last hash
  have hrecent : f.log.mostRecentHash = l.log.mostRecentHash := by
    rw [hf.mostRecentHash_eq, hl.mostRecentHash_eq, ← Log.at?_lastIdx, ← Log.at?_lastIdx, hlast]
  have hnext : f.log.nextIdx = l.log.nextIdx := by rw [Log.nextIdx, Log.nextIdx, hidx]
  refine ⟨fun horder => ?_, fun hfree hhash => ?_, fun rest => ?_⟩
  · simp only [Raft.stamped, Raft.nextHash, hrecent, hnext, Inner.payload_eq_iff.mpr horder]
  · simp only [Raft.stamped, Raft.nextHash, hrecent, hnext, Option.some.injEq] at hhash
    have hinput := (hfree _ _ _ _ hhash).2
    exact Inner.payload_eq_iff.mp (congrArg HmacInput.payload hinput).symm
  · rw [Raft.processEntries]
    simp only [Log.termAt_nextIdx, ne_eq, not_true_eq_false, false_and, if_false, if_true]
    split_ifs with hhash herr
    · split <;> simp_all
    · split <;> simp_all
    · rfl

namespace Sample

def backwards : Oracle := { oracle with
  mapOrder := fun _ m => m.toList.reverse
  mapOrder_perm := fun _ m => m.toList.reverse_perm }

def limits (keys : List String) : LogEntry IdealHash :=
  ⟨0, .minimums (keys.foldl (fun m key => m.insert key [1]) ∅), none⟩

def noopLog : Log IdealHash :=
  ((Log.new 100000).append ⟨1, .notSet, some [⟨1, 1, .notSet⟩]⟩ 0).1

end Sample

open Sample

theorem follower_recomputes_hash_one_limit : ∃ l f e',
    ((group 0 [1, 2, 3]).start.run (handOver.take 4)).replicas 1 = some l ∧
    ((group 0 [1, 2, 3]).start.run (handOver.take 4)).replicas 2 = some f ∧
    (l.clientRequestInternal oracle (limits ["a"])).1.log.at?
      (l.clientRequestInternal oracle (limits ["a"])).1.log.lastIdx = some e' ∧
    some (f.nextHash backwards e') = e'.hashChain := by
  have h : (((group 0 [1, 2, 3]).start.run (handOver.take 4)).replicas 1).any (fun l =>
      (((group 0 [1, 2, 3]).start.run (handOver.take 4)).replicas 2).any fun f => decide (
        l.log = noopLog ∧ f.log = noopLog ∧
        (l.clientRequestInternal oracle (limits ["a"])).2.2 = .ok)) = true := by
    decide +kernel
  simp only [Option.any_eq_true, decide_eq_true_eq] at h
  obtain ⟨l, hl, f, hf, hllog, hflog, hok⟩ := h
  have hbuilt : noopLog.Built := .append _ _ (.new _)
  have hsize : ∀ m, (limits ["a"]).inner = .minimums m → m.size ≤ 1 := by
    intro m hm
    cases hm
    decide +kernel
  obtain ⟨e', he', -, hhash, -⟩ := follower_recomputes_hash l f oracle backwards (limits ["a"])
    (hllog ▸ hbuilt) (hflog ▸ hbuilt) (Prod.ext rfl (Prod.ext rfl hok)) (by rw [hllog, hflog])
    (by rw [hllog, hflog])
  exact ⟨l, f, e', hl, hf, he', hhash fun m hm => .inl (hsize m hm)⟩

/-- Two limits are serialised in one order by the leader and in the other by the follower, which
    rejects the entry. -/
theorem two_limits_rejected : ∃ l f e',
    ((group 0 [1, 2, 3]).start.run (handOver.take 4)).replicas 1 = some l ∧
    ((group 0 [1, 2, 3]).start.run (handOver.take 4)).replicas 2 = some f ∧
    f.log.lastIdx = l.log.lastIdx ∧ f.log.at? f.log.lastIdx = l.log.at? l.log.lastIdx ∧
    (l.clientRequestInternal oracle (limits ["a", "b"])).2.2 = .ok ∧
    (l.clientRequestInternal oracle (limits ["a", "b"])).1.log.at?
      (l.clientRequestInternal oracle (limits ["a", "b"])).1.log.lastIdx = some e' ∧
    some (f.nextHash backwards e') ≠ e'.hashChain ∧
    f.processEntries backwards f.log.lastIdx [e'] = (f, f.log.lastIdx) := by
  have h : (((group 0 [1, 2, 3]).start.run (handOver.take 4)).replicas 1).any (fun l =>
      (((group 0 [1, 2, 3]).start.run (handOver.take 4)).replicas 2).any fun f =>
        ((l.clientRequestInternal oracle (limits ["a", "b"])).1.log.at?
          (l.clientRequestInternal oracle (limits ["a", "b"])).1.log.lastIdx).any fun e' => decide (
            f.log.lastIdx = l.log.lastIdx ∧ f.log.at? f.log.lastIdx = l.log.at? l.log.lastIdx ∧
            (l.clientRequestInternal oracle (limits ["a", "b"])).2.2 = .ok ∧
            some (f.nextHash backwards e') ≠ e'.hashChain ∧
            f.processEntries backwards f.log.lastIdx [e'] = (f, f.log.lastIdx))) = true := by
    decide +kernel
  simp only [Option.any_eq_true, decide_eq_true_eq] at h
  obtain ⟨l, hl, f, hf, e', he', hidx, hlast, hok, hne, hrejected⟩ := h
  exact ⟨l, f, e', hl, hf, hidx, hlast, hok, he', hne, hrejected⟩

end SVR2
