import SVR2.Merkle.Shape

/-!
# What the operations on the tree do

Each operation keeps the shape of the tree, leaves the hash of every node right, and does not
touch the hash of a leaf other than its own.
-/

namespace SVR2.Merkle.Tree

open Function

variable {N : Nat} {Hash : Type}

variable {t t' : Tree N Hash} {level : Addr → Nat} {D : Set Part} {a b p : Addr} {n m : Node N}
  {i j : Fin N} {q r : Part} {K : Hasher N Hash}

section SetChild

/-! ### One slot of one node -/

variable (hp : t.nodes p = some n) (o : Option Part)

include hp

theorem child_setChild (b : Addr) (i : Fin N) :
    (t.setNode p (some (n.setChild j o))).child b i =
      if b = p ∧ i = j then o else t.child b i := by
  by_cases hb : b = p
  · subst hb
    rw [child_of_node (nodes_setNode_self ..), child_of_node hp, Node.setChild]
    by_cases hi : i = j
    · subst hi
      rw [if_pos ⟨rfl, rfl⟩]
      exact update_self ..
    · rw [if_neg fun h => hi h.2]
      exact update_of_ne hi _ _
  · rw [if_neg fun h => hb h.1, child, child, nodes_setNode_ne t hb]

theorem parentOf_setChild (r : Part) :
    (t.setNode p (some (n.setChild j o))).parentOf r = t.parentOf r := by
  cases r with
  | leaf l => rfl
  | node b =>
    by_cases hb : b = p
    · subst hb
      rw [parentOf_node (nodes_setNode_self ..), parentOf_node hp]
      rfl
    · rw [parentOf, parentOf, nodes_setNode_ne t hb]

theorem hptrOf_setChild (r : Part) :
    (t.setNode p (some (n.setChild j o))).hptrOf r = t.hptrOf r := by
  cases r with
  | leaf l => rfl
  | node b =>
    by_cases hb : b = p
    · subst hb
      rw [hptrOf_node (nodes_setNode_self ..), hptrOf_node hp]
      rfl
    · rw [hptrOf, hptrOf, nodes_setNode_ne t hb]

theorem nodes_setChild (h : (t.setNode p (some (n.setChild j o))).nodes b = some m) :
    ∃ m', t.nodes b = some m' ∧ m.parent = m'.parent ∧ m.hptr = m'.hptr ∧ m.isRoot = m'.isRoot ∧
      m.isCurr = m'.isCurr := by
  by_cases hb : b = p
  · subst hb
    rw [nodes_setNode_self] at h
    obtain rfl := Option.some.inj h
    exact ⟨n, hp, rfl, rfl, rfl, rfl⟩
  · rw [nodes_setNode_ne t hb] at h
    exact ⟨m, h, rfl, rfl, rfl, rfl⟩

theorem detached_setChild (hashes : HashPtr N → Hash) :
    Detached t { t.setNode p (some (n.setChild j none)) with hashes := hashes } p j where
  child := child_setChild hp none
  parent := parentOf_setChild hp none
  hptr := hptrOf_setChild hp none
  root := rfl
  curr := rfl
  allocated := rfl
  nodes _ _ hm :=
    have ⟨m', hm', _, _, hr, hc⟩ := nodes_setChild hp none hm
    ⟨m', hm', hr, hc⟩

end SetChild

/-! ### Destroying a part -/

theorem removePart_spec (hs : Shape t level D) (hh : t.Hashed K D fun _ => False)
    (hpD : .node p ∉ D) (hq : t.child p i = some q)
    (hempty : ∀ b, q = .node b → ∀ i, t.child b i = none) (hcurr : q ≠ .node t.curr) :
    ∃ t' j, t.removePart K p q = some t' ∧ t.child p j = some q ∧ Detached t t' p j ∧
      t'.leaves = t.leaves ∧ t'.Hashed K (insert q D) (fun _ => False) ∧
      ∀ c, c ≠ .slot p j → (∀ b m, t.nodes b = some m → .node b ∉ D → m.hptr ≠ c) →
        t'.hashes c = t.hashes c := by
  obtain ⟨n, hn, hi⟩ := node_of_child hq
  obtain ⟨j, hslot, hj⟩ := Node.slotOf_eq_some ⟨i, hi⟩
  have hchild : t.child p j = some q := (child_of_node hn j).trans hj
  have hdet := detached_setChild (j := j) hn (update t.hashes (.slot p j) K.zero)
  have hshape := hs.detach hdet hpD hchild hempty hcurr
  obtain ⟨hqD, hqparent, hqptr, hlevel⟩ := hs.down p j q hpD hchild
  obtain ⟨np, hnp⟩ : ∃ np, (t.setNode p (some (n.setChild j none))).nodes p = some np :=
    ⟨_, nodes_setNode_self ..⟩
  have hpD' : .node p ∉ insert q D := by
    rw [Set.mem_insert_iff, not_or]
    refine ⟨?_, hpD⟩
    rintro rfl
    exact absurd hlevel (Nat.lt_succ_self _).ne
  have hexcept : Hashed K { t.setNode p (some (n.setChild j none)) with
      hashes := update t.hashes (.slot p j) K.zero } (insert q D)
      (Above (t.setNode p (some (n.setChild j none))).nodes p) := by
    intro b m hb hbD hbX
    obtain ⟨m', hm', -, hptr, -, -⟩ := nodes_setChild hn none hb
    rw [Set.mem_insert_iff, not_or] at hbD
    have hcell : m'.hptr ≠ .slot p j := by
      intro heq
      rcases hs.node_cases hm' hbD.2 with ⟨-, -, hroot⟩ | ⟨-, p', i', -, hslot', hi', -⟩
      · exact absurd (hroot.symm.trans heq) nofun
      · obtain ⟨rfl, rfl⟩ := HashPtr.slot.inj (hslot'.symm.trans heq)
        exact hbD.1 (Option.some.inj (hi'.symm.trans hchild))
    change (t.setHash (.slot p j) K.zero).hashes m.hptr =
      (t.setHash (.slot p j) K.zero).computeCurrent K b
    rw [hptr, hashes_setHash_ne t hcell, computeCurrent_setHash K]
    · exact hh b m' hm' hbD.2 not_false
    · rintro i' heq
      obtain ⟨rfl, -⟩ := HashPtr.slot.inj heq
      exact hbX (.refl p)
  obtain ⟨hashes, hrun, hhashed, hframe⟩ := updateLoop_spec K t.allocated hshape hnp hpD' hexcept
    (lt_of_lt_of_le hs.fits (Nat.le_add_left ..))
  refine ⟨_, j, ?_, hchild, detached_setChild hn hashes, rfl, hhashed, ?_⟩
  · simp only [removePart, hn, Option.bind_eq_bind, Option.bind_some, hslot, updateNode]
    exact hrun
  · intro c hc hcell
    refine (hframe c fun b m hb hbD => ?_).trans (hashes_setHash_ne t hc K.zero)
    obtain ⟨m', hm', -, hptr, -, -⟩ := nodes_setChild hn none hb
    rw [hptr]
    exact hcell b m' hm' fun hD => hbD (Set.mem_insert_of_mem q hD)

/-- Only the root and the current node may be empty, and those in `X`. -/
def Pruned (t : Tree N Hash) (D : Set Part) (X : Addr → Prop) : Prop :=
  ∀ a, .node a ∉ D → (t.nodes a).isSome → (∀ i, t.child a i = none) →
    a = t.root ∨ a = t.curr ∨ X a

/-- A part that is being destroyed and the leaves that are not. -/
structure LeavesKept (t t' : Tree N Hash) (D : Set Part) (q : Part) : Prop where
  leaves : ∀ l, .leaf l ≠ q → t'.leaves l = t.leaves l
  hashes : ∀ l f a c, .leaf l ≠ q → .leaf l ∉ D → t.leaves l = some f → f.parent = some a →
    f.hptr = some c → t'.hashes c = t.hashes c

theorem Shape.leaf_slot (hs : Shape t level D) {l : LeafId} {f : Leaf N} (hlD : .leaf l ∉ D)
    (hf : t.leaves l = some f) (hparent : f.parent = some a) {c : HashPtr N}
    (hc : f.hptr = some c) : ∃ i, c = .slot a i ∧ t.child a i = some (.leaf l) ∧ .node a ∉ D := by
  have hp : t.parentOf (.leaf l) = some (some a) := by
    rw [parentOf, hf, Option.map_some, hparent]
  obtain ⟨haD, i, hi⟩ := hs.up _ a hlD hp
  obtain ⟨-, -, hptr, -⟩ := hs.down a i _ haD hi
  rw [hptrOf, hf, Option.bind_some, hc] at hptr
  exact ⟨i, Option.some.inj hptr, hi, haD⟩

theorem Hashed.free {X : Addr → Prop} (h : t.Hashed K (insert q D) X) :
    (t.free q).Hashed K D X := by
  intro a n ha haD haX
  have haq := ne_of_nodes_free ha
  rw [nodes_free t haq] at ha
  rw [computeCurrent, free_hashes]
  refine h a n ha ?_ haX
  rw [Set.mem_insert_iff, not_or]
  exact ⟨haq, haD⟩

theorem Pruned.free {X : Addr → Prop} (h : t.Pruned (insert q D) X) : (t.free q).Pruned D X := by
  intro a haD ha hchildren
  obtain ⟨n, hn⟩ := Option.isSome_iff_exists.mp ha
  have haq := ne_of_nodes_free hn
  rw [nodes_free t haq] at ha
  rw [free_root, free_curr]
  refine h a ?_ ha fun i => (child_free t haq i).symm.trans (hchildren i)
  rw [Set.mem_insert_iff, not_or]
  exact ⟨haq, haD⟩

theorem leaves_free (t : Tree N Hash) {l : LeafId} (h : .leaf l ≠ q) :
    (t.free q).leaves l = t.leaves l := by
  cases q with
  | node a => rfl
  | leaf k => exact leaves_setLeaf_ne t (fun heq => h (congrArg _ heq)) _

theorem LeavesKept.free (h : LeavesKept t t' D q) : LeavesKept t (t'.free q) D q where
  leaves l hl := (leaves_free t' hl).trans (h.leaves l hl)
  hashes := by
    rw [free_hashes]
    exact h.hashes

/-- A part is taken out of the tree, and then its parent is destroyed. -/
theorem LeavesKept.trans {t'' : Tree N Hash} (h : LeavesKept t t' D q)
    (h' : LeavesKept t' t'' (insert q D) (.node p)) : LeavesKept t t'' D q where
  leaves l hl := (h'.leaves l nofun).trans (h.leaves l hl)
  hashes := by
    intro l f a c hlq hlD hf hparent hc
    have hf' := (h.leaves l hlq).trans hf
    have hlD' : .leaf l ∉ insert q D := by
      rw [Set.mem_insert_iff, not_or]
      exact ⟨hlq, hlD⟩
    exact (h'.hashes l f a c nofun hlD' hf' hparent hc).trans
      (h.hashes l f a c hlq hlD hf hparent hc)

/-- Once a part is out of the tree, its parent is the only node that can have been left empty. -/
theorem Pruned.detach {j : Fin N} (h : t.Pruned D fun b => q = .node b)
    (hdet : Detached t t' p j) : t'.Pruned (insert q D) fun b => Part.node p = .node b := by
  intro b hbD hb hchildren
  rw [Set.mem_insert_iff, not_or] at hbD
  rw [hdet.root, hdet.curr]
  by_cases hbp : p = b
  · exact .inr (.inr (congrArg _ hbp))
  · have hbt : (t.nodes b).isSome := by
      rw [isSome_nodes, ← hdet.parent]
      exact isSome_nodes.mp hb
    have hbchildren : ∀ k, t.child b k = none := fun k => by
      rw [← hchildren k, hdet.child, if_neg fun h => hbp h.1.symm]
    rcases h b hbD.2 hbt hbchildren with h | h | h
    · exact .inl h
    · exact .inr (.inl h)
    · exact absurd h.symm hbD.1

/-- `~Part`, for a part that is in the tree: it is gone, and with it all nodes that would have
    been left empty. -/
theorem destroyLoop_spec (fuel : Nat) (hs : Shape t level D) (hh : t.Hashed K D fun _ => False)
    (hprune : t.Pruned D fun b => q = .node b) (hqD : q ∉ D) (hq : t.parentOf q = some (some p))
    (hempty : ∀ b, q = .node b → ∀ i, t.child b i = none) (hcurr : q ≠ .node t.curr)
    (hfuel : level t.root < rank level q + fuel) :
    ∃ t', destroyLoop K fuel t q = some t' ∧ Shape t' level D ∧
      t'.Hashed K D (fun _ => False) ∧ t'.Pruned D (fun _ => False) ∧ t'.parentOf q = none ∧
      LeavesKept t t' D q := by
  induction fuel generalizing t q D p with
  | zero =>
    obtain ⟨hpD, i, hi⟩ := hs.up q p hqD hq
    obtain ⟨-, -, -, hlevel⟩ := hs.down p i q hpD hi
    have := hs.le_root p hpD (by
      obtain ⟨n, hn, -⟩ := node_of_child hi
      rw [hn]
      rfl)
    omega
  | succ fuel ih =>
    obtain ⟨hpD, i, hi⟩ := hs.up q p hqD hq
    obtain ⟨t₁, j, hremove, hj, hdet, hleaves, hhashed, hframe⟩ :=
      removePart_spec hs hh hpD hi hempty hcurr
    have hs₁ := hs.detach hdet hpD hj hempty hcurr
    have hkept : LeavesKept t t₁ D q := by
      refine ⟨fun l _ => congrFun hleaves l, fun l f a c hlq hlD hf hparent hc => ?_⟩
      obtain ⟨k, rfl, hk, -⟩ := hs.leaf_slot hlD hf hparent hc
      refine hframe _ (fun heq => ?_) fun b m hb hbD => hs.hptr_ne_slot hb hbD hk
      obtain ⟨rfl, rfl⟩ := HashPtr.slot.inj heq
      exact hlq (Option.some.inj (hk.symm.trans hj))
    have hpD₁ : .node p ∉ insert q D := by
      rw [Set.mem_insert_iff, not_or]
      refine ⟨?_, hpD⟩
      rintro rfl
      exact absurd ((hempty p rfl i).symm.trans hi) nofun
    obtain ⟨n, hn, -⟩ := node_of_child hi
    obtain ⟨n₁, hn₁, -⟩ := node_of_parentOf ((hdet.parent (.node p)).trans (parentOf_node hn))
    obtain ⟨hroot, hcurr'⟩ := hs₁.flags p n₁ hpD₁ hn₁
    have hprune₁ := hprune.detach hdet
    simp only [destroyLoop, hq, Option.bind_eq_bind, Option.bind_some, hremove, hn₁]
    by_cases hdelete : n₁.empty = true ∧ n₁.isRoot = false ∧ n₁.isCurr = false
    · obtain ⟨hempty₁, hnotRoot, hnotCurr⟩ := hdelete
      have hpcurr : p ≠ t₁.curr := fun h => absurd (hcurr'.mpr h) (hnotCurr ▸ nofun)
      rcases hs₁.node_cases hn₁ hpD₁ with ⟨h, -⟩ | ⟨-, pp, -, hpp, -, -, -, -⟩
      · exact absurd (hroot.mpr h) (hnotRoot ▸ nofun)
      obtain ⟨-, -, -, hlevel⟩ := hs.down p i q hpD hi
      obtain ⟨t₂, hrun, hs₂, hh₂, hprune₂, -, hkept₂⟩ := ih hs₁ hhashed hprune₁ hpD₁
        ((parentOf_node hn₁).trans (congrArg some hpp))
        (by
          rintro b ⟨⟩ k
          rw [child_of_node hn₁]
          exact Node.empty_iff.mp hempty₁ k)
        (fun h => hpcurr (Part.node.inj h))
        (by
          rw [hdet.root, rank]
          omega)
      rw [if_pos ⟨hempty₁, hnotRoot, hnotCurr⟩, hrun]
      exact ⟨_, rfl, hs₂.free, hh₂.free, hprune₂.free, parentOf_free_self ..,
        (hkept.trans hkept₂).free⟩
    · rw [if_neg hdelete]
      refine ⟨_, rfl, hs₁.free, hhashed.free, Pruned.free ?_, parentOf_free_self .., hkept.free⟩
      intro b hbD hb hchildren
      rcases hprune₁ b hbD hb hchildren with h | h | h
      · exact .inl h
      · exact .inr (.inl h)
      · obtain rfl := Part.node.inj h
        have hempty₁ : n₁.empty = true := Node.empty_iff.mpr fun k =>
          (child_of_node hn₁ k).symm.trans (hchildren k)
        by_cases hr : n₁.isRoot = true
        · exact .inl (hroot.mp hr)
        · refine .inr (.inl (hcurr'.mp ?_))
          by_contra hc
          exact hdelete ⟨hempty₁, Bool.eq_false_of_not_eq_true hr, Bool.eq_false_of_not_eq_true hc⟩

end SVR2.Merkle.Tree
