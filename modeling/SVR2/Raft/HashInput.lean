import Mathlib.Logic.Encodable.Basic
import Mathlib.Logic.Equiv.List
import SVR2.Raft.Safety
import SVR2.Util.Endian

/-!
# What is hashed, byte by byte

`NextHash` hashes one string: a byte that tells the kind of the entry, its index and its term in
eight bytes each, and its content.  The string tells all of them, so when HMAC-SHA256 does not
collide, the hash of one entry tells its index and everything before it.
-/

namespace SVR2

open Lib

variable {Hash : Type} [Platform Hash]

/-! ### The string -/

def HmacPayload.kindByte : HmacPayload → Byte
  | .data _ => 1
  | .membershipChange _ => 2
  | .notSet => 3
  | .minimums _ => 4

section Bytes

variable (group : ReplicaGroup → Bytes) (limits : List (String × Bytes) → Bytes)

/-- The content of an entry as `NextHash` appends it, with `group` and `limits` for
    `SerializeAsString`. -/
def HmacPayload.contentBytes : HmacPayload → Bytes
  | .data d => d
  | .membershipChange g => group g
  | .notSet => []
  | .minimums fields => limits fields

/-- The string that `NextHash` hashes. -/
def HmacInput.bytes (m : HmacInput) : Bytes :=
  m.payload.kindByte ::
    (bigEndian64Bytes m.idx ++ bigEndian64Bytes m.term ++ m.payload.contentBytes group limits)

variable {group limits}

/-- The first byte keeps the kinds apart, so that equal strings have one kind. -/
theorem HmacPayload.eq_of_bytes (hgroup : Function.Injective group)
    (hlimits : Function.Injective limits) {a b : HmacPayload} (hkind : a.kindByte = b.kindByte)
    (hbytes : a.contentBytes group limits = b.contentBytes group limits) : a = b := by
  cases a <;> cases b <;> simp only [kindByte, Fin.reduceEq] at hkind
  · exact congrArg HmacPayload.data hbytes
  · rw [hgroup hbytes]
  · rfl
  · rw [hlimits hbytes]

theorem HmacInput.eq_of_bytes (hgroup : Function.Injective group)
    (hlimits : Function.Injective limits) {a b : HmacInput} (ha : a.idx < 2 ^ 64 ∧ a.term < 2 ^ 64)
    (hb : b.idx < 2 ^ 64 ∧ b.term < 2 ^ 64)
    (h : a.bytes group limits = b.bytes group limits) : a = b := by
  obtain ⟨hkind, hrest⟩ := List.cons.inj h
  obtain ⟨hnumbers, hcontent⟩ := List.append_inj hrest (by simp)
  obtain ⟨hidx, hterm⟩ := List.append_inj hnumbers (by simp)
  obtain ⟨idx, term, payload⟩ := a
  obtain ⟨idx', term', payload'⟩ := b
  obtain rfl := bigEndian64Bytes_injective ha.1 hb.1 hidx
  obtain rfl := bigEndian64Bytes_injective ha.2 hb.2 hterm
  obtain rfl := HmacPayload.eq_of_bytes hgroup hlimits hkind hcontent
  rfl

end Bytes

/-! ### Logs that are made with it -/

/-- The logs that replicas make from an empty one by appending entries with `NextHash`.  What has
    been applied is in the log, and `LogIdx` and `TermId` have 64 bits. -/
inductive Log.Hashed : Log Hash → Prop where
  | new (maxBytes : Nat) : Hashed (Log.new maxBytes)
  | append (r : Raft Hash) (o : Oracle) (e : LogEntry Hash) : Hashed r.log →
      r.lastApplied ≤ r.log.lastIdx → r.log.nextIdx < 2 ^ 64 → e.term < 2 ^ 64 →
      Hashed (r.log.append { e with hashChain := some (r.nextHash o e) } r.lastApplied).1

structure HashedTo (L : List (LogEntry Hash)) (e : LogEntry Hash) : Prop where
  chained : ChainedTo L e
  idx_lt : L.length + 1 < 2 ^ 64
  term_lt : e.term < 2 ^ 64

theorem Log.Hashed.spec {log : Log Hash} (h : log.Hashed) :
    log.Ok ∧ Chained HashedTo 0 log.full := by
  induction h with
  | new maxBytes => exact ⟨Log.new_ok maxBytes, Chained.of_length_le (le_refl 0)⟩
  | append r o e _ happlied hidx hterm ih =>
    obtain ⟨hok, hchain⟩ := ih
    rw [hok.lastIdx_eq] at happlied
    rw [hok.nextIdx_eq] at hidx
    obtain ⟨log₁, htrim, ⟨err, -, heq⟩ | ⟨hterm₀, hhash, bytes, heq⟩⟩ := Log.append_cases hok
      happlied { e with hashChain := some (r.nextHash o e) }
    · rw [heq]
      exact ⟨htrim.ok, htrim.full ▸ hchain⟩
    · rw [heq, Log.snoc_full, htrim.full]
      refine ⟨htrim.ok.snoc bytes hterm₀ hhash, hchain.snoc ⟨⟨o, ?_⟩, hidx, hterm⟩⟩
      simp only [Raft.nextHash, hok.mostRecentHash_eq, hok.nextIdx_eq]

section Binding

variable {hmac : Hash → Bytes → Hash} {group : ReplicaGroup → Bytes}
  {limits : List (String × Bytes) → Bytes}

theorem HashedTo.eq_of_hashChain (hfree : ∀ k k' m m', hmac k m = hmac k' m' → k = k' ∧ m = m')
    (hgroup : Function.Injective group) (hlimits : Function.Injective limits)
    (hbytes : ∀ k m, Platform.hmacSha256 k m = hmac k (m.bytes group limits))
    {L L' : List (LogEntry Hash)} {e e' : LogEntry Hash} (h : HashedTo L e) (h' : HashedTo L' e')
    (heq : e.hashChain = e'.hashChain) :
    L.length = L'.length ∧ e = e' ∧ lastHash L = lastHash L' := by
  obtain ⟨o, ho⟩ := h.chained
  obtain ⟨o', ho'⟩ := h'.chained
  have hhash := Option.some.inj (ho.symm.trans (heq.trans ho'))
  rw [hbytes, hbytes] at hhash
  obtain ⟨hlast, hmessage⟩ := hfree _ _ _ _ hhash
  have hinput := HmacInput.eq_of_bytes hgroup hlimits ⟨h.idx_lt, h.term_lt⟩ ⟨h'.idx_lt, h'.term_lt⟩
    hmessage
  simp only [HmacInput.mk.injEq, Nat.add_right_cancel_iff] at hinput
  obtain ⟨hlen, hterm, hpayload⟩ := hinput
  refine ⟨hlen, ?_, hlast⟩
  rw [hlen] at hpayload
  obtain ⟨term, inner, hash⟩ := e
  obtain ⟨term', inner', hash'⟩ := e'
  obtain rfl : term = term' := hterm
  obtain rfl := Inner.payload_injective hpayload
  obtain rfl : hash = hash' := heq
  rfl

/-- The hash chain binds the whole history: if HMAC-SHA256 does not collide and what is serialised
    can be told from the serialisation, entries of two logs with one hash stand at one index, and
    up to there the two logs are the same, entry by entry. -/
theorem hash_binds_history (hmac : Hash → Bytes → Hash) (group : ReplicaGroup → Bytes)
    (limits : List (String × Bytes) → Bytes)
    (hfree : ∀ k k' m m', hmac k m = hmac k' m' → k = k' ∧ m = m')
    (hgroup : Function.Injective group) (hlimits : Function.Injective limits)
    (hbytes : ∀ k m, Platform.hmacSha256 k m = hmac k (m.bytes group limits))
    {log log' : Log Hash} (h : log.Hashed) (h' : log'.Hashed) {i j : Nat} {e e' : LogEntry Hash}
    (he : entryAt log.full i = some e) (he' : entryAt log'.full j = some e')
    (hhash : e.hashChain = e'.hashChain) :
    i = j ∧ ∀ k ≤ i, entryAt log.full k = entryAt log'.full k := by
  obtain ⟨-, hchain⟩ := h.spec
  obtain ⟨-, hchain'⟩ := h'.spec
  obtain ⟨hi₀, hi⟩ := entryAt_le he
  obtain ⟨hj₀, hj⟩ := entryAt_le he'
  obtain ⟨i, rfl⟩ : ∃ n, i = n + 1 := ⟨i - 1, by omega⟩
  obtain ⟨j, rfl⟩ : ∃ n, j = n + 1 := ⟨j - 1, by omega⟩
  rw [entryAt_succ] at he he'
  obtain ⟨hlen, hentry, hlast⟩ := (hchain i e (Nat.zero_le _) he).eq_of_hashChain hfree hgroup
    hlimits hbytes (hchain' j e' (Nat.zero_le _) he') hhash
  rw [List.length_take, List.length_take] at hlen
  obtain rfl : i = j := by omega
  refine ⟨rfl, fun k hk => entryAt_congr ?_ hk⟩
  refine Chained.take_eq lastHash ?_ hchain hchain' rfl (Nat.zero_le _) hi hj ?_
  · intro A A' x x' _ hx hx' hkey
    rw [lastHash_append, lastHash_append] at hkey
    obtain ⟨o, ho⟩ := hx.chained
    obtain ⟨o', ho'⟩ := hx'.chained
    rw [ho, ho', Option.getD_some, Option.getD_some] at hkey
    have hsame : x.hashChain = x'.hashChain := by rw [ho, ho', hkey]
    exact (hx.eq_of_hashChain hfree hgroup hlimits hbytes hx' hsame).2
  · rw [List.take_add_one, List.take_add_one, he, he', Option.toList_some, Option.toList_some,
      lastHash_append, lastHash_append, hhash]

end Binding

namespace Sample

abbrev ByteHash := List Bytes

/-- Serialisations that can be read back, as long as the number that stands for their object. -/
def groupBytes (g : ReplicaGroup) : Bytes :=
  List.replicate (Encodable.encode (g.map fun r => (r.peerId, r.voting))) 0

def limitsBytes (fields : List (String × Bytes)) : Bytes :=
  List.replicate (Encodable.encode (fields.map fun f => (f.1.toList.map Char.toNat, f.2))) 0

theorem groupBytes_injective : Function.Injective groupBytes := by
  intro g g' h
  refine List.map_injective_iff.mpr ?_ (Encodable.encode_injective (List.replicate_left_injective _ h))
  rintro ⟨peerId, voting⟩ ⟨peerId', voting'⟩ heq
  cases heq
  rfl

theorem limitsBytes_injective : Function.Injective limitsBytes := by
  intro fields fields' h
  refine List.map_injective_iff.mpr ?_ (Encodable.encode_injective (List.replicate_left_injective _ h))
  rintro ⟨key, value⟩ ⟨key', value'⟩ heq
  obtain ⟨hkey, rfl⟩ := Prod.mk.inj heq
  have hchars : key.toList = key'.toList :=
    List.map_injective_iff.mpr (fun _ _ => Char.toNat_inj.mp) hkey
  rw [String.toList_inj.mp hchars]

instance : Platform ByteHash where
  hmacSha256 key input := input.bytes groupBytes limitsBytes :: key
  zeroHash := []
  merklePrefix hash := hash.length
  byteSizeLong e := 36 + e.inner.dataSize
  sizeofReplicaGroup := 48
  sizeofReplica := 40
  sizeofLogEntry := 48
  sizeofString := 32

def follower (log : Log ByteHash) : Raft ByteHash :=
  Raft.newFollower 1 1 ⟨∅, ∅⟩ log ⟨1, 100, 1⟩ false 0 oracle

def appended (log : Log ByteHash) (inner : Inner) : Log ByteHash :=
  ((follower log).log.append
    ⟨1, inner, some ((follower log).nextHash oracle ⟨1, inner, none⟩)⟩ 0).1

theorem appended_hashed {log : Log ByteHash} (h : log.Hashed) (hidx : log.nextIdx < 2 ^ 64)
    (inner : Inner) : (appended log inner).Hashed :=
  .append (follower log) oracle ⟨1, inner, none⟩ h (Nat.zero_le _) hidx (by decide : 1 < 2 ^ 64)

end Sample

open Sample

theorem hash_binds_history_two_logs :
    entryAt (appended (Log.new 1000) (.data [7])).full 1 =
      entryAt (appended (appended (Log.new 1000) (.data [7])) .notSet).full 1 := by
  have hone : (appended (Log.new 1000) (.data [7])).Hashed :=
    appended_hashed (.new 1000) (by decide) _
  have htwo := appended_hashed hone (by decide +kernel) .notSet
  exact (hash_binds_history (fun key m => m :: key) groupBytes limitsBytes
    (fun _ _ _ _ h => ⟨(List.cons.inj h).2, (List.cons.inj h).1⟩) groupBytes_injective
    limitsBytes_injective (fun _ _ => rfl) hone htwo (i := 1) (j := 1) rfl rfl rfl).2 1 (le_refl 1)

end SVR2
