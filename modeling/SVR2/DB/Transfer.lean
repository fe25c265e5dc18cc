import SVR2.DB.Hash
import SVR2.DB.Wire
import SVR2.Merkle.Completeness

/-!
# Moving a database to another replica

`RowsAsProtos` cuts a database into chunks, each of which starts after the last key of the one
before, and `LoadRowsFromProtos` puts them together again in an empty database.  Every row that it
loads gets a leaf in the Merkle tree of the replica.
-/

namespace SVR2

open Lib RowDatabase Function

def MERKLE_NODE_SIZE : Nat := 5

def MERKLE_HASH_SIZE : Nat := 8

def merkleHashFrom (h : Bytes) : Bytes := h.take MERKLE_HASH_SIZE

/-- A database with the Merkle tree that its rows have their leaves in. -/
structure Store (DB : Type) where
  db : DB
  /-- Where the leaf of a row lies: `merkle_leaf_` of the row. -/
  leaf : OrdMap Bytes Merkle.LeafId
  tree : Merkle.Tree MERKLE_NODE_SIZE Bytes
  /-- From here on there are no leaves in memory. -/
  free : Merkle.LeafId

namespace Store

variable {DB : Type} [Database DB] [RowDatabase DB] [HashedRows DB]
  (K : Merkle.Hasher MERKLE_NODE_SIZE Bytes)

def leafHash (e : Bytes × Row DB) : Bytes := merkleHashFrom (HashedRows.hashRow e.1 e.2)

/-- What `LoadRowsFromProtos` does for one row: `Row r` makes a leaf, whose hash is set; it is moved
    with the row into the map; what is left in `r` is destroyed. -/
def addLeaf (s : Store DB) (e : Bytes × Row DB) : Option (Store DB) := do
  let tree ← [.create s.free (leafHash e), .move s.free (s.free + 1), .destroy s.free].foldlM
    (Merkle.Tree.apply K) s.tree
  some { s with leaf := s.leaf.insert e.1 (s.free + 1), tree := tree, free := s.free + 2 }

def loadRowsFromProtos (s : Store DB) (bytes : List Bytes) : Option (Store DB × Bytes × Error) := do
  let (db, last, err) := Database.loadRowsFromProtos s.db bytes
  let s ← ((rows db).toList.drop (rows s.db).size).foldlM (addLeaf K) s
  some ({ s with db := db }, last, err)

/-- The check of a row against its leaf that `Restore`, `Expose` and `Evaluate` begin with. -/
def verify (s : Store DB) (id : Bytes) : Option Error := do
  let row ← (rows s.db).find? id
  let l ← s.leaf.find? id
  s.tree.verify K l (leafHash (id, row))

/-- A chunk is loaded, unless it is empty, and has to be accepted. -/
def takeChunk (s : Store DB) (bytes : List Bytes) : Option (Store DB) :=
  if bytes = [] then some s else do
    let (s, _, err) ← s.loadRowsFromProtos K bytes
    guard (err = .ok)
    some s

/-- The chunks of `src`, of the sizes given from the `i`-th on and from the key `start` on, are put
    into `s`.  A chunk that is shorter than requested is the last. -/
def transfer (src : DB) (sizes : Nat → Nat) : Nat → Nat → Bytes → Store DB → Option (Store DB)
  | 0, _, _, _ => none
  | fuel + 1, i, start, s =>
    match Database.rowsAsProtos src start (sizes i) with
    | .error _ => none
    | .ok (bytes, last) => do
      let s ← s.takeChunk K bytes
      if bytes.length < sizes i then some s else transfer src sizes fuel (i + 1) last s

/-! ### Leaves -/

/-- The tree has a leaf for every row of a list, with the row's hash, and other leaves only below the
    free addresses. -/
def Leafed (s : Store DB) (l : List (Bytes × Row DB)) : Prop :=
  ∃ level m, Merkle.Tree.Represents K s.tree level m ∧ (∀ i, s.free ≤ i → m i = none) ∧
    ∀ e ∈ l, ∃ i, s.leaf.find? e.1 = some i ∧ m i = some (some (leafHash e))

/-- A new leaf that is moved to its place: all others stay as they are. -/
theorem values_addLeaf {m : Merkle.Values Bytes} {free : Merkle.LeafId} (h : Bytes)
    (hfree : ∀ i, free ≤ i → m i = none) :
    [.create free h, .move free (free + 1), .destroy free].foldlM Merkle.Values.apply m =
      some (update m (free + 1) (some (some h))) := by
  have hnext : free + 1 ≠ free := Nat.succ_ne_self free
  have hcreate : m.apply (.create free h) = some (update m free (some (some h))) := by
    simp [Merkle.Values.apply, hfree]
  have hmove : Merkle.Values.apply (update m free (some (some h))) (.move free (free + 1)) =
      some (update (update (update m free (some (some h))) (free + 1) (some (some h))) free
        (some none)) := by
    simp [Merkle.Values.apply, hfree]
  rw [List.foldlM_cons, hcreate, Option.bind_eq_bind, Option.bind_some, List.foldlM_cons, hmove,
    Option.bind_eq_bind, Option.bind_some, List.foldlM_cons]
  simp only [Merkle.Values.apply, update_self, Option.isSome_some, if_true, Option.bind_eq_bind,
    Option.bind_some, List.foldlM_nil]
  refine congrArg some (funext fun i => ?_)
  by_cases hi : i = free
  · rw [hi, update_self, update_of_ne hnext.symm, hfree free le_rfl]
  · simp only [update_apply, if_neg hi]

variable {K} {s : Store DB} {pre : List (Bytes × Row DB)}

theorem Leafed.addLeaf (h : s.Leafed K pre) {e : Bytes × Row DB} (hnew : ∀ e' ∈ pre, e'.1 ≠ e.1) :
    ∃ s', s.addLeaf K e = some s' ∧ s'.db = s.db ∧ s'.Leafed K (pre ++ [e]) := by
  obtain ⟨level, m, hrep, hfree, hleaf⟩ := h
  obtain ⟨tree, level', htree, hrep'⟩ := Merkle.Tree.represents_foldlM (by decide) hrep
    (values_addLeaf (leafHash e) hfree)
  refine ⟨{ s with leaf := s.leaf.insert e.1 (s.free + 1), tree := tree, free := s.free + 2 },
    by rw [Store.addLeaf, htree]; rfl, rfl, level', _, hrep', fun i hi => ?_, ?_⟩
  · rw [update_of_ne (Nat.lt_of_succ_le hi).ne']
    exact hfree i ((Nat.le_add_right _ 2).trans hi)
  · intro e' he'
    dsimp only
    rw [OrdMap.find?_insert]
    rcases List.mem_append.mp he' with he' | he'
    · obtain ⟨i, hi, hm⟩ := hleaf e' he'
      rw [if_neg (hnew e' he').symm]
      refine ⟨i, hi, ?_⟩
      have hne : i ≠ s.free + 1 := by
        rintro rfl
        rw [hfree _ (Nat.le_succ _)] at hm
        cases hm
      rw [update_of_ne hne, hm]
    · obtain rfl := List.mem_singleton.mp he'
      rw [if_pos rfl]
      exact ⟨_, rfl, update_self ..⟩

theorem Leafed.addLeaves {new : List (Bytes × Row DB)} (h : s.Leafed K pre)
    (hsorted : (pre ++ new).Pairwise fun a b => a.1 < b.1) :
    ∃ s', new.foldlM (Store.addLeaf K) s = some s' ∧ s'.db = s.db ∧ s'.Leafed K (pre ++ new) := by
  induction new generalizing s pre with
  | nil => exact ⟨s, rfl, rfl, by rwa [List.append_nil]⟩
  | cons e new ih =>
    have hnew : ∀ e' ∈ pre, e'.1 ≠ e.1 := fun e' he' =>
      ne_of_lt ((List.pairwise_append.mp hsorted).2.2 e' he' e List.mem_cons_self)
    obtain ⟨s₁, hadd, hdb, h₁⟩ := h.addLeaf hnew
    rw [List.append_cons] at hsorted
    obtain ⟨s', hrest, hdb', h'⟩ := ih h₁ hsorted
    refine ⟨s', ?_, hdb'.trans hdb, by rwa [List.append_cons]⟩
    rw [List.foldlM_cons, hadd]
    exact hrest

theorem Leafed.load {new : List (Bytes × Row DB)} (hne : new ≠ []) (h : s.Leafed K pre)
    (hpre : (rows s.db).toList = pre) (hsorted : (pre ++ new).Pairwise fun a b => a.1 < b.1)
    (hvalid : ∀ e ∈ new, ValidRow e.1 e.2) :
    ∃ s', s.loadRowsFromProtos K (new.map fun e => rowAsProto e.1 e.2) =
        some (s', (new.getLast?.map (·.1)).getD [], .ok) ∧
      (rows s'.db).toList = pre ++ new ∧ s'.Leafed K (pre ++ new) := by
  obtain ⟨-, hnew, habove⟩ := List.pairwise_append.mp hsorted
  obtain ⟨db', hload, htoList⟩ := loadRowsFromProtos_rowAsProto hne s.db hnew hvalid (by
    intro k hk e he
    obtain ⟨row, hrow⟩ := OrdMap.mem_iff.mp hk
    exact habove (k, row) (hpre ▸ OrdMap.mem_toList.mpr hrow) e he)
  rw [hpre] at htoList
  have hdrop : (rows db').toList.drop (rows s.db).size = new := by
    rw [OrdMap.size, hpre, htoList, List.drop_left]
  obtain ⟨s', hadd, -, hleafed⟩ := h.addLeaves hsorted
  refine ⟨{ s' with db := db' }, ?_, htoList, hleafed⟩
  rw [Store.loadRowsFromProtos, hload]
  dsimp only
  rw [hdrop, hadd]
  rfl

theorem Leafed.verify (h : s.Leafed K (rows s.db).toList) {id : Bytes} (hid : id ∈ rows s.db) :
    s.verify K id = some .ok := by
  obtain ⟨level, m, hrep, -, hleaf⟩ := h
  obtain ⟨row, hrow⟩ := OrdMap.mem_iff.mp hid
  obtain ⟨i, hi, hm⟩ := hleaf (id, row) (OrdMap.mem_toList.mpr hrow)
  rw [Store.verify, hrow, Option.bind_eq_bind, Option.bind_some, hi, Option.bind_eq_bind,
    Option.bind_some]
  exact (hrep.verify_ok_iff hm _).mpr rfl

/-! ### Chunks -/

theorem filter_after_getLast {β : Type} {pre post : List (Bytes × β)}
    (hsorted : (pre ++ post).Pairwise fun a b => a.1 < b.1) (hkeys : ∀ e ∈ pre, e.1 ≠ []) :
    ((pre ++ post).filter fun e => (pre.getLast?.map (·.1)).getD [] = [] ∨
      (pre.getLast?.map (·.1)).getD [] < e.1) = post := by
  cases hlast : pre.getLast? with
  | none =>
    obtain rfl := List.getLast?_eq_none_iff.mp hlast
    simp
  | some e =>
    obtain ⟨init, rfl⟩ := List.getLast?_eq_some_iff.mp hlast
    obtain ⟨hpre, -, habove⟩ := List.pairwise_append.mp hsorted
    have he : e.1 ≠ [] := hkeys e (by simp)
    have hbefore : ∀ e' ∈ init ++ [e], ¬e.1 < e'.1 := by
      intro e' he'
      rcases List.mem_append.mp he' with he' | he'
      · exact ((List.pairwise_append.mp hpre).2.2 e' he' e (List.mem_singleton_self e)).not_gt
      · rw [List.mem_singleton.mp he']
        exact lt_irrefl _
    simp only [Option.map_some, Option.getD_some, he, false_or]
    rw [List.filter_append, List.filter_eq_nil_iff.mpr (by simpa using hbefore), List.nil_append]
    refine List.filter_eq_self.mpr fun e' he' => ?_
    exact decide_eq_true (habove e (by simp) e' he')

theorem Leafed.chunk {page : List (Bytes × Row DB)} (h : s.Leafed K pre)
    (hpre : (rows s.db).toList = pre) (hsorted : (pre ++ page).Pairwise fun a b => a.1 < b.1)
    (hvalid : ∀ e ∈ page, ValidRow e.1 e.2) :
    ∃ s', s.takeChunk K (page.map fun e => rowAsProto e.1 e.2) = some s' ∧
      (rows s'.db).toList = pre ++ page ∧ s'.Leafed K (pre ++ page) := by
  rw [takeChunk]
  by_cases hpage : page = []
  · subst hpage
    refine ⟨s, if_pos rfl, ?_, ?_⟩
    · rw [hpre, List.append_nil]
    · rwa [List.append_nil]
  · obtain ⟨s', hload, htoList, h'⟩ := h.load hpage hpre hsorted hvalid
    rw [if_neg (by simpa using hpage), hload]
    exact ⟨s', rfl, htoList, h'⟩

/-- Every chunk that is as long as requested takes a row at least, and the one that is not takes
    the rest. -/
theorem transfer_spec {src : DB} (hsrc : Valid src) {sizes : Nat → Nat} (hsizes : ∀ i, 0 < sizes i)
    (fuel i : Nat) (s : Store DB) {pre post : List (Bytes × Row DB)}
    (hrows : (rows src).toList = pre ++ post) (hpre : (rows s.db).toList = pre)
    (h : s.Leafed K pre) (hfuel : post.length < fuel) :
    ∃ s', transfer K src sizes fuel i ((pre.getLast?.map (·.1)).getD []) s = some s' ∧
      (rows s'.db).toList = (rows src).toList ∧ s'.Leafed K (rows src).toList := by
  induction fuel generalizing i s pre post with
  | zero => omega
  | succ fuel ih =>
    have hsorted := (rows src).sorted
    rw [hrows] at hsorted
    have hvalid : ∀ e ∈ pre ++ post, ValidRow e.1 e.2 := fun e he =>
      hsrc e.1 e.2 (OrdMap.mem_toList.mp (hrows ▸ he))
    have hstart : (pre.getLast?.map (·.1)).getD [] = [] ∨
        ∃ row : Row DB, ValidRow ((pre.getLast?.map (·.1)).getD []) row := by
      cases hlast : pre.getLast? with
      | none => exact Or.inl rfl
      | some e => exact Or.inr ⟨e.2, hvalid e (List.mem_append_left _ (List.mem_of_getLast? hlast))⟩
    have hpage := rowsAsProtos_eq src (sizes i) hstart
    dsimp only at hpage
    rw [hrows, filter_after_getLast hsorted
      fun e he => key_ne_nil (hvalid e (List.mem_append_left _ he))] at hpage
    -- what is sent is the beginning of what is left
    obtain ⟨page, hpage_eq⟩ : ∃ page, page = post.take (sizes i) := ⟨_, rfl⟩
    have hpost : page ++ post.drop (sizes i) = post := hpage_eq ▸ List.take_append_drop ..
    have hlen : page.length = min (sizes i) post.length := by rw [hpage_eq, List.length_take]
    rw [← hpage_eq] at hpage
    rw [← hpost, ← List.append_assoc] at hsorted hrows hvalid
    obtain ⟨s₁, hchunk, htoList, h₁⟩ := h.chunk hpre
      (List.pairwise_append.mp hsorted).1
      fun e he => hvalid e (List.mem_append_left _ (List.mem_append_right _ he))
    rw [transfer, hpage]
    dsimp only
    rw [hchunk, Option.bind_eq_bind, Option.bind_some, List.length_map]
    have hpositive := hsizes i
    split_ifs with hshort
    · have hrest : post.drop (sizes i) = [] := List.drop_eq_nil_of_le (by omega)
      rw [hrest, List.append_nil] at hrows
      rw [hrows]
      exact ⟨s₁, rfl, htoList, h₁⟩
    · have hne : page ≠ [] := by
        rintro rfl
        simp only [List.length_nil] at hlen hshort
        omega
      have hlast : (page.getLast?.map (·.1)).getD [] = ((pre ++ page).getLast?.map (·.1)).getD [] := by
        rw [List.getLast?_append_of_ne_nil _ hne]
      rw [hlast]
      refine ih (i + 1) s₁ hrows htoList h₁ ?_
      rw [List.length_drop]
      omega

theorem leafed_newDB {treeOps : List (Merkle.Op Bytes)} {t : Merkle.Tree MERKLE_NODE_SIZE Bytes}
    {m : Merkle.Values Bytes} {free : Merkle.LeafId} (ht : Merkle.Tree.run K treeOps = some t)
    (hm : Merkle.Values.run treeOps = some m) (hfree : ∀ i, free ≤ i → m i = none) :
    (Store.mk (Database.newDB : DB) ∅ t free).Leafed K [] := by
  obtain ⟨t', level, ht', hrep⟩ := Merkle.Tree.represents_run (by decide) K hm
  obtain rfl := Option.some.inj (ht'.symm.trans ht)
  exact ⟨level, m, hrep, hfree, nofun⟩

theorem transfer_complete {src : DB} (hsrc : Valid src) {sizes : Nat → Nat}
    (hsizes : ∀ i, 0 < sizes i) (hs : s.db = Database.newDB) (h : s.Leafed K []) :
    ∃ s', transfer K src sizes ((rows src).size + 1) 0 [] s = some s' ∧ s'.db = src ∧
      ∀ id ∈ rows s'.db, s'.verify K id = some .ok := by
  have hempty : (rows s.db).toList = [] := by
    rw [hs, rows_newDB]
    rfl
  obtain ⟨s', hrun, htoList, h'⟩ := transfer_spec hsrc hsizes ((rows src).size + 1) 0 s
    (List.nil_append _).symm hempty h (Nat.lt_succ_self _)
  have hdb : s'.db = src := rows_injective (OrdMap.ext_perm (by rw [htoList]))
  refine ⟨s', hrun, hdb, fun id hid => Leafed.verify ?_ hid⟩
  rwa [hdb]

end Store

theorem DB2.valid_after [Wire DB2RowState] [Wire Log2] {ops : List DB2.Op}
    (hops : ∀ op ∈ ops, op.Valid) : Valid (DB2.newDB.after ops) := by
  refine List.foldlRecOn (motive := Valid) ops DB2.apply valid_newDB fun db hdb op hop => ?_
  exact OrdMap.forall_of_frame (fun _ => DB2.apply_find?_of_ne) hdb
    (DB2.validRow_apply (hops op hop) (hdb _))

theorem DB3.valid_after [Ristretto] [Wire DB3RowState] [Wire Log3] {ops : List DB3.Op}
    (hops : ∀ op ∈ ops, op.Valid) : Valid (DB3.newDB.after ops) := by
  refine List.foldlRecOn (motive := Valid) ops DB3.apply valid_newDB fun db hdb op hop => ?_
  exact OrdMap.forall_of_frame (fun _ => DB3.apply_find?_of_ne) hdb
    (DB3.validRow_apply (hops op hop) (hdb _))

/-- A database that client logs have made is put together again from its chunks, of whatever sizes:
    the same rows in the same order, with the same hash, and with leaves that verify. -/
theorem transfer_round_trip [Digests] [Ristretto] [Wire DB2.DB2RowState] [Wire DB2.Log2]
    [Wire DB3.DB3RowState] [Wire DB3.Log3] (K : Merkle.Hasher MERKLE_NODE_SIZE Bytes)
    (sizes : Nat → Nat) (hsizes : ∀ i, 0 < sizes i) (treeOps : List (Merkle.Op Bytes))
    (t : Merkle.Tree MERKLE_NODE_SIZE Bytes) (ht : Merkle.Tree.run K treeOps = some t)
    (m : Merkle.Values Bytes) (hm : Merkle.Values.run treeOps = some m) (free : Merkle.LeafId)
    (hfree : ∀ i, free ≤ i → m i = none) :
    (∀ ops : List DB2.Op, (∀ op ∈ ops, op.Valid) →
      ∃ s, Store.transfer K (DB2.newDB.after ops) sizes ((DB2.newDB.after ops).rows.size + 1) 0 []
          ⟨DB2.newDB, ∅, t, free⟩ = some s ∧
        s.db.rows.toList = (DB2.newDB.after ops).rows.toList ∧
        s.db.hash = (DB2.newDB.after ops).hash ∧ ∀ id ∈ s.db.rows, s.verify K id = some .ok) ∧
    ∀ ops : List DB3.Op, (∀ op ∈ ops, op.Valid) →
      ∃ s, Store.transfer K (DB3.newDB.after ops) sizes ((DB3.newDB.after ops).rows.size + 1) 0 []
          ⟨DB3.newDB, ∅, t, free⟩ = some s ∧
        s.db.rows.toList = (DB3.newDB.after ops).rows.toList ∧
        s.db.hash = (DB3.newDB.after ops).hash ∧ ∀ id ∈ s.db.rows, s.verify K id = some .ok := by
  refine ⟨fun ops hops => ?_, fun ops hops => ?_⟩
  · obtain ⟨s, hrun, hdb, hverify⟩ := Store.transfer_complete (DB2.valid_after hops) hsizes rfl
      (Store.leafed_newDB ht hm hfree)
    exact ⟨s, hrun, by rw [hdb], by rw [hdb], hverify⟩
  · obtain ⟨s, hrun, hdb, hverify⟩ := Store.transfer_complete (DB3.valid_after hops) hsizes rfl
      (Store.leafed_newDB ht hm hfree)
    exact ⟨s, hrun, by rw [hdb], by rw [hdb], hverify⟩

namespace Sample

/-- Digests that forget nothing. -/
@[reducible] def plainDigests : Digests := ⟨fun b => b, fun b => b⟩

def plainHasher : Merkle.Hasher MERKLE_NODE_SIZE Bytes where
  compute f := (List.finRange MERKLE_NODE_SIZE).flatMap f
  zero := [0]

def threeBackups : List DB2.Op :=
  [2, 1, 3].map fun b =>
    ⟨⟨.replicate 16 b, .backup (.replicate 16 b) (.replicate 32 b) 3⟩, true⟩

def otherLeaf : List (Merkle.Op Bytes) := [.create 0 [1]]

theorem transfer_round_trip_threeBackups :
    letI := plainDigests
    ∃ t s, Merkle.Tree.run plainHasher otherLeaf = some t ∧
      Store.transfer plainHasher (DB2.newDB.after threeBackups) (fun _ => 2) 4 0 []
        ⟨DB2.newDB, ∅, t, 1⟩ = some s ∧
      s.db.rows.size = 3 ∧ ∀ id ∈ s.db.rows, s.verify plainHasher id = some .ok := by
  let := plainDigests
  have := DB3.sampleRistretto
  obtain ⟨t, ht⟩ : ∃ t, Merkle.Tree.run plainHasher otherLeaf = some t := ⟨_, rfl⟩
  obtain ⟨s, hrun, hrows, -, hverify⟩ := (transfer_round_trip plainHasher (fun _ => 2)
    (fun _ => Nat.two_pos) otherLeaf t ht _ rfl 1
    (fun i hi => update_of_ne (Nat.pos_iff_ne_zero.mp hi) _ _)).1 threeBackups (by decide)
  refine ⟨t, s, ht, hrun, ?_, hverify⟩
  rw [OrdMap.size, hrows]
  decide

end Sample

end SVR2
