import SVR2.Lib.Chain
import SVR2.Lib.Protobuf
import SVR2.Raft.Certificates

/-!
# What a hash tells

Every entry carries a hash over its own content and the hash of the entry before it.  If HMAC
never collides, two logs with the same hash at one index are the same up to that index, so
messages that carry hashes can be relied on.
-/

namespace SVR2

open Lib

variable {Hash : Type} [Platform Hash]
variable {S : Setting Hash} {G : Rules Hash} {R : Set PeerId}
variable {w : World Hash} {p : PeerId} {v : View Hash}

def CollisionFree (Hash : Type) [Platform Hash] : Prop :=
  ∀ (k k' : Hash) (m m' : HmacInput),
    Platform.hmacSha256 k m = Platform.hmacSha256 k' m' → k = k' ∧ m = m'

def replicaGroupByteSize (g : ReplicaGroup) : Nat :=
  (g.map fun r => Protobuf.messageSize
    ((if r.peerId.isSome then Protobuf.messageSize 32 else 0) + Protobuf.uintSize r.voting.toNat)).sum

/-- `MinimumLimits::ByteSizeLong`: each entry of the map is a message with key and value. -/
def minimumLimitsByteSize (m : MinimumLimits) : Nat :=
  (m.toList.map fun e => Protobuf.messageSize
    (Protobuf.messageSize e.1.utf8ByteSize + Protobuf.messageSize e.2.length)).sum

def logEntryByteSize {Hash : Type} (e : LogEntry Hash) : Nat :=
  let inner := match e.inner with
    | .notSet => 0
    | .data d => Protobuf.messageSize d.length
    | .membershipChange g => Protobuf.messageSize (replicaGroupByteSize g)
    | .minimums m => Protobuf.messageSize (minimumLimitsByteSize m)
  let hashChain := if e.hashChain.isSome then Protobuf.messageSize 32 else 0
  Protobuf.uintSize e.term + inner + hashChain

/-- The ideal hash: the list of all that was fed to it. -/
abbrev IdealHash := List HmacInput

instance : Platform IdealHash where
  hmacSha256 key input := input :: key
  zeroHash := []
  merklePrefix hash := hash.length
  byteSizeLong := logEntryByteSize
  sizeofReplicaGroup := 48
  sizeofReplica := 40
  sizeofLogEntry := 48
  sizeofString := 32

theorem collisionFree_idealHash : CollisionFree IdealHash := by
  intro k k' m m' h
  obtain ⟨hm, hk⟩ := List.cons.inj h
  exact ⟨hk, hm⟩

omit [Platform Hash] in
/-- The payload that is hashed tells the content, in whatever order a map is serialised. -/
theorem Inner.payload_injective {o o' : Oracle} {i : Nat} {a b : Inner}
    (h : a.payload (o.mapOrder i) = b.payload (o'.mapOrder i)) : a = b := by
  cases a <;> cases b <;> simp only [Inner.payload, HmacPayload.data.injEq,
    HmacPayload.membershipChange.injEq, HmacPayload.minimums.injEq, reduceCtorEq] at h
  · rfl
  · rw [h]
  · rw [h]
  · rename_i m m'
    have hperm : m.toList.Perm m'.toList :=
      (o.mapOrder_perm i m).symm.trans (h ▸ o'.mapOrder_perm i m')
    rw [OrdMap.ext_perm hperm]

theorem lastHash_append (L : List (LogEntry Hash)) (e : LogEntry Hash) :
    lastHash (L ++ [e]) = e.hashChain.getD Platform.zeroHash := by
  rw [lastHash, List.length_append, List.length_singleton, hashAt, entryAt_append_self]
  rfl

theorem lastHash_take {L : List (LogEntry Hash)} {i : Nat} (hi : i ≤ L.length) :
    lastHash (L.take i) = (hashAt L i).getD Platform.zeroHash := by
  have htake : (L.take i).take i = L.take i := by rw [List.take_take, Nat.min_self]
  rw [lastHash, List.length_take, Nat.min_eq_left hi, hashAt_congr htake (le_refl i)]

theorem ChainedTo.eq_of_lastHash_eq (hfree : CollisionFree Hash) {L L' : List (LogEntry Hash)}
    {e e' : LogEntry Hash} (hlen : L.length = L'.length) (h : ChainedTo L e)
    (h' : ChainedTo L' e') (heq : lastHash (L ++ [e]) = lastHash (L' ++ [e'])) :
    e = e' ∧ lastHash L = lastHash L' := by
  obtain ⟨o, ho⟩ := h
  obtain ⟨o', ho'⟩ := h'
  rw [lastHash_append, lastHash_append, ho, ho', Option.getD_some, Option.getD_some] at heq
  obtain ⟨hlast, hinput⟩ := hfree _ _ _ _ heq
  rw [hlen] at hinput
  simp only [HmacInput.mk.injEq, true_and] at hinput
  refine ⟨?_, hlast⟩
  obtain ⟨term, inner, hash⟩ := e
  obtain ⟨term', inner', hash'⟩ := e'
  simp only at hinput ho ho'
  obtain ⟨rfl, hpayload⟩ := hinput
  obtain rfl := Inner.payload_injective hpayload
  rw [ho, ho', heq]

namespace World.Reachable

/-- Every entry after the initial log is chained to what comes before it. -/
theorem chained (h : Reachable S G R w) (hv : v ∈ w.past p) :
    Chained ChainedTo S.base.length v.log := by
  refine past_induction (P := fun _ _ v => Chained ChainedTo S.base.length v.log) ?_ ?_ ?_ ?_ h hv
  · intro _ _ _ _ _ hv
    exact hv
  · intro w p
    exact Chained.of_length_le (le_refl _)
  · intro w p v v' out hw hall hv hmove
    have hold := hall p v hv
    cases hmove with
    | appendEntry e hrole hterm hpos hchain => exact hold.snoc hchain
    | appendMembership e m hrole hterm hpos hchain => exact hold.snoc hchain
    | extend q m k e hrole hin hagree he hend hchain => exact hold.snoc hchain
    | truncate q m k => exact hold.take _
    | _ => exact hold
  · intro w p q v _ hw hq hv
    exact hv.take _

/-- Two logs with the same hash at an index are the same up to there. -/
theorem take_eq_of_hashAt (hfree : CollisionFree Hash) (h : Reachable S G R w) {q : PeerId}
    {u : View Hash} (hu : u ∈ w.past p) (hv : v ∈ w.past q) {i : Nat} (hi : i ≤ u.log.length)
    (hi' : i ≤ v.log.length) (hhash : S.base.length < i → hashAt u.log i = hashAt v.log i) :
    u.log.take i = v.log.take i := by
  have hbase : ∀ {x : View Hash}, x.Ok S → x.log.take S.base.length = S.base := fun hx =>
    (List.prefix_iff_eq_take.mp hx.base_start).symm
  have hbases : u.log.take S.base.length = v.log.take S.base.length := by
    rw [hbase (h.view_ok hu), hbase (h.view_ok hv)]
  by_cases hlt : S.base.length < i
  · refine Chained.take_eq lastHash
      (fun _ _ _ _ hlen he he' => he.eq_of_lastHash_eq hfree hlen he') (h.chained hu)
      (h.chained hv) hbases hlt.le hi hi' ?_
    rw [lastHash_take hi, lastHash_take hi', hhash hlt]
  · exact take_congr hbases (not_lt.mp hlt)

theorem trusted_of_collisionFree (hfree : CollisionFree Hash) (h : Reachable S G R w) :
    w.Trusted where
  agree := by
    intro x v q l prev n k hv hl _ hprev hagree
    refine h.take_eq_of_hashAt hfree hv hl hagree.length_le (hagree.le_length hprev) ?_
    intro hlt
    exact (hagree.at_last (by omega)).2
  ack := by
    intro p v x u m req k hv _ hu hack hmatch
    have hlen : m.matchIdx ≤ u.log.length := by
      rw [hack.matchIdx]
      exact hack.agree.length_le
    by_cases h0 : m.matchIdx = 0
    · rw [h0]
      rfl
    obtain ⟨hle, hhash⟩ := hmatch.resolve_left h0
    refine h.take_eq_of_hashAt hfree hu hv hlen hle ?_
    intro hlt
    -- the leader's entry has a hash, so the response carried one
    obtain ⟨e, he⟩ := entryAt_isSome (Nat.pos_of_ne_zero h0) hle
    have hsome : hashAt v.log m.matchIdx ≠ none := by
      obtain ⟨i, hi⟩ : ∃ i, m.matchIdx = i + 1 := ⟨m.matchIdx - 1, by omega⟩
      rw [hi, entryAt_succ] at he
      obtain ⟨o, ho⟩ := h.chained hv i e (by omega) he
      rw [hashAt, hi, entryAt_succ, he, Option.bind_some, ho]
      simp
    rcases hack.hash with hnone | hsame
    · rw [hhash, hnone] at hsome
      exact absurd rfl hsome
    · rw [hhash, hsame]

end World.Reachable

end SVR2
