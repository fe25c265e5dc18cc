import SVR2.Merkle.Operations

/-!
# Making room for a leaf

`CurrentWithSpace` climbs from the current node to one that has space, or adds a root, and grows
an empty branch from there down to the level of the leaves.  The hashes along the new branch are
not right until the leaf that is put there gets its own.
-/

namespace SVR2.Merkle.Tree

open Function

variable {N : Nat} {Hash : Type}

variable {t t' t'' : Tree N Hash} {level : Addr → Nat} {a b p : Addr} {n m : Node N}
  {i j : Fin N} {q r : Part} {K : Hasher N Hash}

/-- What was there stays as it is. -/
structure Grown (t t' : Tree N Hash) : Prop where
  leaves : t'.leaves = t.leaves
  slots : ∀ b i, b < t.allocated → t'.hashes (.slot b i) = t.hashes (.slot b i)
  allocated : t.allocated ≤ t'.allocated
  parent : ∀ a p, t.parentOf (.node a) = some (some p) → t'.parentOf (.node a) = some (some p)
  child : ∀ b i q, t.child b i = some q → t'.child b i = some q

theorem Grown.refl (t : Tree N Hash) : Grown t t :=
  ⟨rfl, fun _ _ _ => rfl, le_rfl, fun _ _ => id, fun _ _ _ => id⟩

theorem Grown.trans (h : Grown t t') (h' : Grown t' t'') : Grown t t'' where
  leaves := h'.leaves.trans h.leaves
  slots b i hb := (h'.slots b i (hb.trans_le h.allocated)).trans (h.slots b i hb)
  allocated := h.allocated.trans h'.allocated
  parent a p hp := h'.parent a p (h.parent a p hp)
  child b i q hq := h'.child b i q (h.child b i q hq)

theorem Above.mono (hab : Above t.nodes a b) (h : ∀ a p, t.parentOf (.node a) = some (some p) →
    t'.parentOf (.node a) = some (some p)) : Above t'.nodes a b := by
  induction hab with
  | refl a => exact .refl a
  | step ha hp _ ih =>
    obtain ⟨n', hn', hp'⟩ := node_of_parentOf (h _ _ ((parentOf_node ha).trans (congrArg some hp)))
    exact .step hn' hp' ih

/-- The hash of a node that was there stays right, also where it is kept in another place. -/
theorem Hashed.grown {X X' : Addr → Prop} (hs : Shape t level ∅) (hh : t.Hashed K ∅ X)
    (hg : Grown t t')
    (hnodes : ∀ b m, t'.nodes b = some m → ¬ X' b →
      ∃ n, t.nodes b = some n ∧ ¬ X b ∧ t'.hashes m.hptr = t.hashes n.hptr) :
    t'.Hashed K ∅ X' := by
  intro b m hb _ hX'
  obtain ⟨n, hn, hX, heq⟩ := hnodes b m hb hX'
  have hlt : b < t.allocated := hs.lt_allocated b (by rw [hn]; rfl)
  rw [heq, hh b n hn (Set.notMem_empty _) hX, computeCurrent, computeCurrent]
  congr
  funext i
  exact (hg.slots b i hlt).symm

/-! ### A new node -/

theorem nodes_allocated (hs : Shape t level ∅) : t.nodes t.allocated = none := by
  by_contra h
  exact (hs.lt_allocated _ (Option.isSome_iff_ne_none.mpr h)).false

theorem child_allocated (hs : Shape t level ∅) (i : Fin N) : t.child t.allocated i = none := by
  rw [child, nodes_allocated hs]
  rfl

/-- A part below another one is not the root, and not a new node. -/
theorem Shape.ne_of_parent (hs : Shape t level ∅) (hq : t.parentOf q = some (some p)) :
    q ≠ .node t.root ∧ q ≠ .node t.allocated := by
  constructor
  · rintro rfl
    exact absurd (hs.root_parent.symm.trans hq) nofun
  · rintro rfl
    rw [parentOf, nodes_allocated hs] at hq
    cases hq

theorem insertPart_spec (hp : t.nodes p = some n) (hspace : n.full = false) (q : Part) :
    ∃ j, n.children j = none ∧
      t.insertPart p q (some p) = some (t.setNode p (some (n.setChild j (some q))), .slot p j) := by
  have hfree : ∃ i, n.children i = none := by
    by_contra h
    rw [not_exists] at h
    rw [Node.full_iff.mpr h] at hspace
    cases hspace
  obtain ⟨j, hslot, hj⟩ := Node.slotOf_eq_some hfree
  refine ⟨j, hj, ?_⟩
  simp [insertPart, hp, hslot]

theorem child_setNode_ne (t : Tree N Hash) (h : b ≠ a) (o : Option (Node N)) (i : Fin N) :
    (t.setNode a o).child b i = t.child b i := by
  rw [child, nodes_setNode_ne t h, child]

theorem parentOf_setNode_ne (t : Tree N Hash) (h : r ≠ .node a) (o : Option (Node N)) :
    (t.setNode a o).parentOf r = t.parentOf r := by
  cases r with
  | leaf l => rfl
  | node b => rw [parentOf, nodes_setNode_ne t fun hb => h (congrArg _ hb), parentOf]

theorem hptrOf_setNode_ne (t : Tree N Hash) (h : r ≠ .node a) (o : Option (Node N)) :
    (t.setNode a o).hptrOf r = t.hptrOf r := by
  cases r with
  | leaf l => rfl
  | node b => rw [hptrOf, nodes_setNode_ne t fun hb => h (congrArg _ hb), hptrOf]

/-- The branch that ends with the node `a`, `i` levels above the leaves' own, is to be continued:
    only the hashes on it need not be right, and `a` may be empty. -/
structure Growing (K : Hasher N Hash) (t : Tree N Hash) (level : Addr → Nat) (a : Addr) (i : Nat) :
    Prop where
  shape : Shape t level ∅
  hashed : t.Hashed K ∅ (Above t.nodes a)
  pruned : t.Pruned ∅ (· = a)
  space : ∃ n, t.nodes a = some n ∧ n.full = false
  depth : level a = i
  old : t.curr = a ∨ ∃ i q, t.child t.curr i = some q

def addNode (K : Hasher N Hash) (t : Tree N Hash) (p : Addr) (n : Node N) (j : Fin N) :
    Tree N Hash :=
  { ((t.setNode p (some (n.setChild j (some (.node t.allocated))))).setNode t.allocated
      (some { parent := some p, hptr := .slot p j, children := fun _ => none })).initHashes K
        t.allocated with allocated := t.allocated + 1 }

theorem nodes_addNode_self : (addNode K t p n j).nodes t.allocated =
    some { parent := some p, hptr := .slot p j, children := fun _ => none } :=
  nodes_setNode_self ..

section AddNode

variable (hs : Shape t level ∅) (hp : t.nodes p = some n)

include hs hp

theorem ne_allocated : p ≠ t.allocated :=
  (hs.lt_allocated p (by rw [hp]; rfl)).ne

theorem attached_addNode : Attached t (addNode K t p n j) p j (.node t.allocated) where
  child b i := by
    by_cases hb : b = t.allocated
    · subst hb
      rw [child_of_node nodes_addNode_self, child_allocated hs,
        if_neg fun h => ne_allocated hs hp h.1.symm]
    · exact (child_setNode_ne _ hb _ i).trans (child_setChild hp _ b i)
  parent r hr := (parentOf_setNode_ne _ hr _).trans (parentOf_setChild hp _ r)
  hptr r hr := (hptrOf_setNode_ne _ hr _).trans (hptrOf_setChild hp _ r)
  parent_new := parentOf_node nodes_addNode_self
  hptr_new := hptrOf_node nodes_addNode_self
  root := rfl
  curr := rfl
  allocated := Nat.le_succ _
  new_lt := by
    rintro a ⟨⟩
    exact Nat.lt_succ_self _
  nodes b m hm := by
    by_cases hb : b = t.allocated
    · subst hb
      rw [nodes_addNode_self] at hm
      obtain rfl := Option.some.inj hm
      exact .inl ⟨rfl, rfl, rfl⟩
    · have ⟨m', hm', _, _, hr, hc⟩ := nodes_setChild hp _ ((nodes_setNode_ne _ hb _).symm.trans hm)
      exact .inr ⟨m', hm', hr, hc⟩

theorem grown_addNode (hj : t.child p j = none) : Grown t (addNode K t p n j) where
  leaves := rfl
  slots b i hb := if_neg hb.ne
  allocated := Nat.le_succ _
  parent a p' hp' := by
    refine ((attached_addNode hs hp).parent _ ?_).trans hp'
    rintro ⟨⟩
    rw [parentOf, nodes_allocated hs] at hp'
    cases hp'
  child b i q hq := by
    refine ((attached_addNode hs hp).child b i).trans ((if_neg ?_).trans hq)
    rintro ⟨rfl, rfl⟩
    rw [hj] at hq
    cases hq

end AddNode

theorem newNode_spec (hN : 0 < N) {k : Nat} (h : Growing K t level p (k + 1)) :
    ∃ t' b level', t.newNode K p = some (t', b) ∧ Growing K t' level' b k ∧ Grown t t' := by
  obtain ⟨n, hn, hspace⟩ := h.space
  obtain ⟨j, hj, hinsert⟩ := insertPart_spec hn hspace (.node t.allocated)
  have hs := h.shape
  have hfree : t.child p j = none := (child_of_node hn j).trans hj
  have hgrown := grown_addNode (K := K) hs hn hfree
  have hat := attached_addNode (K := K) (j := j) hs hn
  have habove : ∀ b, Above t.nodes p b → Above (addNode K t p n j).nodes t.allocated b :=
    fun b hb => .step nodes_addNode_self rfl (hb.mono hgrown.parent)
  refine ⟨addNode K t p n j, t.allocated, update level t.allocated k, ?_, ?_, hgrown⟩
  · simp only [newNode, hinsert, Option.bind_eq_bind, Option.bind_some]
    rfl
  constructor
  case shape =>
    refine hs.attach hat (Set.notMem_empty _) (by rw [hn]; rfl) hfree ?_ (Set.notMem_empty _) ?_ ?_
    · rw [parentOf, nodes_allocated hs]
      rfl
    · exact fun b hb => update_of_ne (hs.lt_allocated b hb).ne _ _
    · rw [rank, update_self]
      exact h.depth
  case hashed =>
    refine h.hashed.grown hs hgrown fun b m hm hb => ?_
    have hba : b ≠ t.allocated := by
      rintro rfl
      exact hb (.refl _)
    obtain ⟨m', hm', -, hptr, -, -⟩ :=
      nodes_setChild hn _ ((nodes_setNode_ne _ hba _).symm.trans hm)
    refine ⟨m', hm', fun h => hb (habove b h), ?_⟩
    rw [hptr]
    rcases hs.node_cases hm' (Set.notMem_empty _) with ⟨-, -, hroot⟩ | ⟨-, p', i, -, hslot, hi, -⟩
    · rw [hroot]
      rfl
    · obtain ⟨np, hnp, -⟩ := node_of_child hi
      rw [hslot]
      exact hgrown.slots p' i (hs.lt_allocated p' (by rw [hnp]; rfl))
  case pruned =>
    intro b _ hb hchildren
    by_cases hba : b = t.allocated
    · exact .inr (.inr hba)
    have hbt : (t.nodes b).isSome := by
      rw [isSome_nodes, ← hat.parent _ fun h => hba (Part.node.inj h)]
      exact isSome_nodes.mp hb
    have hbp : b ≠ p := by
      rintro rfl
      have := (hat.child b j).symm.trans (hchildren j)
      rw [if_pos ⟨rfl, rfl⟩] at this
      cases this
    have hempty : ∀ i, t.child b i = none := fun i => by
      rw [← hchildren i, hat.child, if_neg fun h => hbp h.1]
    rcases h.pruned b (Set.notMem_empty _) hbt hempty with h | h | h
    · exact .inl h
    · exact .inr (.inl h)
    · exact absurd h hbp
  case space =>
    refine ⟨_, nodes_addNode_self, ?_⟩
    rw [Bool.eq_false_iff, Ne, Node.full_iff]
    exact fun h => h ⟨0, hN⟩ rfl
  case depth => exact update_self ..
  case old =>
    refine .inr ?_
    rcases h.old with hp | ⟨i, q, hq⟩
    · have := hs.curr_level
      rw [hp, h.depth] at this
      cases this
    · exact ⟨i, q, hgrown.child _ i q hq⟩

/-- The second loop of `CurrentWithSpace` ends at the level of the leaves. -/
theorem growBranch_spec (hN : 0 < N) {k : Nat} (h : Growing K t level a k) :
    ∃ t' b level', growBranch K k t a = some (t', b) ∧ Growing K t' level' b 0 ∧ Grown t t' := by
  induction k generalizing t level a with
  | zero => exact ⟨t, a, level, rfl, h, .refl t⟩
  | succ k ih =>
    obtain ⟨t₁, b, level₁, hnew, h₁, hg₁⟩ := newNode_spec hN h
    obtain ⟨t₂, c, level₂, hrun, h₂, hg₂⟩ := ih h₁
    refine ⟨t₂, c, level₂, ?_, h₂, hg₁.trans hg₂⟩
    rw [growBranch, hnew]
    exact hrun

/-! ### A new root -/

/-- The old root `n` has become the child of a new one. -/
structure Rooted (t t' : Tree N Hash) (n : Node N) (j : Fin N) : Prop where
  old : t.nodes t.root = some n
  new_node : t'.nodes t.allocated = some
    { parent := none, hptr := .roothash
      children := update (fun _ => none) j (some (.node t.root)), isRoot := true }
  old_node : t'.nodes t.root = some
    { n with parent := some t.allocated, hptr := .slot t.allocated j, isRoot := false }
  nodes : ∀ b, b ≠ t.root → b ≠ t.allocated → t'.nodes b = t.nodes b
  leaves : t'.leaves = t.leaves
  hash : t'.hashes (.slot t.allocated j) = t.hashes .roothash
  slots : ∀ b i, b ≠ t.allocated → t'.hashes (.slot b i) = t.hashes (.slot b i)
  root : t'.root = t.allocated
  curr : t'.curr = t.curr
  allocated : t'.allocated = t.allocated + 1

def freshRoot (K : Hasher N Hash) (t : Tree N Hash) : Tree N Hash :=
  { (t.setNode t.allocated (some { parent := none, hptr := .roothash, children := fun _ => none })
      ).initHashes K t.allocated with allocated := t.allocated + 1 }

theorem growRoot_rooted (hN : 0 < N) (hs : Shape t level ∅) :
    ∃ t' n j, t.growRoot K = some t' ∧ Rooted t t' n j := by
  obtain ⟨n, hn, -⟩ := node_of_parentOf hs.root_parent
  have hne : t.root ≠ t.allocated := ne_allocated hs hn
  have hold : (freshRoot K t).nodes t.root = some n := (nodes_setNode_ne t hne _).trans hn
  obtain ⟨j, -, hinsert⟩ := insertPart_spec (p := t.allocated) (t := freshRoot K t)
    (nodes_setNode_self ..) (by
      rw [Bool.eq_false_iff, Ne, Node.full_iff]
      exact fun h => h ⟨0, hN⟩ rfl) (.node t.root)
  refine ⟨_, n, j, Option.bind_eq_some_iff.mpr ⟨n, hold, Option.bind_eq_some_iff.mpr ⟨_, hinsert,
    Option.bind_eq_some_iff.mpr ⟨_, (nodes_setNode_ne _ hne.symm _).trans (nodes_setNode_self ..),
      rfl⟩⟩⟩, ?_⟩
  constructor
  case old => exact hn
  case new_node => exact nodes_setNode_self ..
  case old_node => exact (nodes_setNode_ne _ hne _).trans (nodes_setNode_self ..)
  case nodes =>
    intro b hbr hba
    refine (nodes_setNode_ne _ hba _).trans ((nodes_setNode_ne _ hbr _).trans ?_)
    exact (nodes_setNode_ne _ hba _).trans (nodes_setNode_ne _ hba _)
  case leaves => rfl
  case hash => exact hashes_setHash_self ..
  case slots =>
    intro b i hb
    refine (hashes_setHash_ne _ ?_ _).trans (if_neg hb)
    rintro ⟨⟩
    exact hb rfl
  case root => rfl
  case curr => rfl
  case allocated => rfl

namespace Rooted

variable (h : Rooted t t' n j)

include h

theorem parent_old : t'.parentOf (.node t.root) = some (some t.allocated) :=
  parentOf_node h.old_node

theorem hptr_old : t'.hptrOf (.node t.root) = some (.slot t.allocated j) :=
  hptrOf_node h.old_node

theorem parent (hr : r ≠ .node t.root) (hr' : r ≠ .node t.allocated) :
    t'.parentOf r = t.parentOf r := by
  cases r with
  | leaf l => rw [parentOf, h.leaves, parentOf]
  | node b =>
    rw [parentOf, h.nodes b (fun hb => hr (congrArg _ hb)) fun hb => hr' (congrArg _ hb), parentOf]

theorem hptr (hr : r ≠ .node t.root) (hr' : r ≠ .node t.allocated) :
    t'.hptrOf r = t.hptrOf r := by
  cases r with
  | leaf l => rw [hptrOf, h.leaves, hptrOf]
  | node b =>
    rw [hptrOf, h.nodes b (fun hb => hr (congrArg _ hb)) fun hb => hr' (congrArg _ hb), hptrOf]

theorem isSome_nodes_iff : (t'.nodes b).isSome ↔ b = t.allocated ∨ (t.nodes b).isSome := by
  by_cases hb : b = t.allocated
  · subst hb
    rw [h.new_node]
    simp
  · by_cases hbr : b = t.root
    · subst hbr
      rw [h.old_node, h.old]
      simp
    · rw [h.nodes b hbr hb]
      simp [hb]

theorem child (hs : Shape t level ∅) (b : Addr) (i : Fin N) :
    t'.child b i = if b = t.allocated ∧ i = j then some (.node t.root) else t.child b i := by
  by_cases hb : b = t.allocated
  · subst hb
    rw [child_of_node h.new_node, child_allocated hs]
    simp [update_apply]
  · rw [if_neg fun h => hb h.1]
    by_cases hbr : b = t.root
    · subst hbr
      rw [child_of_node h.old_node, child_of_node h.old]
    · rw [Tree.child, h.nodes b hbr hb, Tree.child]

theorem grown (hs : Shape t level ∅) : Grown t t' where
  leaves := h.leaves
  slots b i hb := h.slots b i hb.ne
  allocated := h.allocated.symm ▸ Nat.le_succ _
  parent a p hp :=
    have ⟨hr, hr'⟩ := hs.ne_of_parent hp
    (h.parent hr hr').trans hp
  child b i q hq := by
    refine (h.child hs b i).trans ((if_neg ?_).trans hq)
    rintro ⟨rfl, rfl⟩
    rw [child_allocated hs] at hq
    cases hq

theorem shape (hs : Shape t level ∅) : Shape t' (update level t.allocated (level t.root + 1)) ∅ := by
  have hlevel : ∀ {b}, (t.nodes b).isSome →
      update level t.allocated (level t.root + 1) b = level b :=
    fun hb => update_of_ne (hs.lt_allocated _ hb).ne _ _
  have hroot : (t.nodes t.root).isSome := isSome_nodes.mpr ⟨_, hs.root_parent⟩
  constructor
  case down =>
    intro a i q _ hchild
    rw [h.child hs] at hchild
    split_ifs at hchild with hnew
    · obtain ⟨rfl, rfl⟩ := hnew
      obtain rfl := Option.some.inj hchild
      refine ⟨Set.notMem_empty _, h.parent_old, h.hptr_old, ?_⟩
      rw [update_self, rank, hlevel hroot]
    · obtain ⟨-, hparent, hptr, hrank⟩ := hs.down a i q (Set.notMem_empty _) hchild
      obtain ⟨hq, hq'⟩ := hs.ne_of_parent hparent
      obtain ⟨na, hna, -⟩ := node_of_child hchild
      refine ⟨Set.notMem_empty _, (h.parent hq hq').trans hparent,
        (h.hptr hq hq').trans hptr, ?_⟩
      rw [hlevel (by rw [hna]; rfl), hrank]
      cases q with
      | leaf l => rfl
      | node b => exact congrArg (· + 1) (hlevel (isSome_nodes.mpr ⟨_, hparent⟩)).symm
  case up =>
    intro q a _ hparent
    refine ⟨Set.notMem_empty _, ?_⟩
    by_cases hq : q = .node t.root
    · subst hq
      obtain rfl := Option.some.inj (Option.some.inj (h.parent_old.symm.trans hparent))
      exact ⟨j, (h.child hs _ j).trans (if_pos ⟨rfl, rfl⟩)⟩
    · by_cases hq' : q = .node t.allocated
      · subst hq'
        cases (parentOf_node h.new_node).symm.trans hparent
      · rw [h.parent hq hq'] at hparent
        obtain ⟨-, i, hi⟩ := hs.up q a (Set.notMem_empty _) hparent
        exact ⟨i, (h.grown hs).child a i q hi⟩
  case top =>
    intro a _ hparent
    rw [h.root]
    by_contra ha
    by_cases har : a = t.root
    · subst har
      cases h.parent_old.symm.trans hparent
    · rw [h.parent (fun h => har (Part.node.inj h)) fun h => ha (Part.node.inj h)] at hparent
      exact har (hs.top a (Set.notMem_empty _) hparent)
  case root_mem => exact Set.notMem_empty _
  case root_parent => exact h.root.symm ▸ parentOf_node h.new_node
  case root_hptr => exact h.root.symm ▸ hptrOf_node h.new_node
  case curr_mem => exact Set.notMem_empty _
  case curr_live => exact h.curr.symm ▸ h.isSome_nodes_iff.mpr (.inr hs.curr_live)
  case curr_level => exact h.curr.symm ▸ (hlevel hs.curr_live).trans hs.curr_level
  case le_root =>
    intro a _ ha
    rw [h.root, update_self]
    rcases h.isSome_nodes_iff.mp ha with rfl | ha
    · rw [update_self]
    · rw [hlevel ha]
      exact (hs.le_root a (Set.notMem_empty _) ha).trans (Nat.le_succ _)
  case lt_allocated =>
    intro a ha
    rw [h.allocated]
    rcases h.isSome_nodes_iff.mp ha with rfl | ha
    · exact Nat.lt_succ_self _
    · exact (hs.lt_allocated a ha).trans (Nat.lt_succ_self _)
  case fits =>
    rw [h.root, h.allocated, update_self]
    exact Nat.succ_lt_succ hs.fits
  case flags =>
    intro a m _ hm
    rw [h.root, h.curr]
    by_cases ha : a = t.allocated
    · subst ha
      obtain rfl := Option.some.inj (h.new_node.symm.trans hm)
      exact ⟨iff_of_true rfl rfl, iff_of_false Bool.false_ne_true (hs.lt_allocated _ hs.curr_live).ne'⟩
    · by_cases har : a = t.root
      · subst har
        obtain rfl := Option.some.inj (h.old_node.symm.trans hm)
        exact ⟨iff_of_false Bool.false_ne_true ha, (hs.flags t.root n (Set.notMem_empty _) h.old).2⟩
      · rw [h.nodes a har ha] at hm
        obtain ⟨hr, hc⟩ := hs.flags a m (Set.notMem_empty _) hm
        exact ⟨iff_of_false (fun hm => har (hr.mp hm)) ha, hc⟩

end Rooted

/-- The new root has space for a second branch. -/
theorem growRoot_spec (hN : 2 ≤ N) (hs : Shape t level ∅) (hh : t.Hashed K ∅ fun _ => False)
    (hprune : t.Pruned ∅ fun _ => False) (hroot : ∃ i q, t.child t.root i = some q)
    (hcurr : ∃ i q, t.child t.curr i = some q) :
    ∃ t' level', t.growRoot K = some t' ∧ Growing K t' level' t'.root (level t.root + 1) ∧
      Grown t t' := by
  obtain ⟨t', n, j, hgrow, h⟩ := growRoot_rooted (K := K) (by omega) hs
  refine ⟨t', update level t.allocated (level t.root + 1), hgrow, ?_, h.grown hs⟩
  constructor
  case shape => exact h.shape hs
  case hashed =>
    refine hh.grown hs (h.grown hs) fun b m hm hb => ?_
    have hba : b ≠ t.allocated := by
      rintro rfl
      exact hb (h.root ▸ .refl _)
    by_cases hbr : b = t.root
    · subst hbr
      obtain rfl := Option.some.inj (h.old_node.symm.trans hm)
      have hptr := Option.some.inj ((hptrOf_node h.old).symm.trans hs.root_hptr)
      exact ⟨n, h.old, not_false, h.hash.trans (congrArg t.hashes hptr.symm)⟩
    · rw [h.nodes b hbr hba] at hm
      refine ⟨m, hm, not_false, ?_⟩
      rcases hs.node_cases hm (Set.notMem_empty _) with ⟨hb, -⟩ | ⟨-, p, i, -, hslot, hi, -⟩
      · exact absurd hb hbr
      · obtain ⟨np, hnp, -⟩ := node_of_child hi
        rw [hslot]
        exact h.slots p i (ne_allocated hs hnp)
  case pruned =>
    intro b _ hb hchildren
    rcases (h.isSome_nodes_iff).mp hb with rfl | hb
    · exact .inl h.root.symm
    have hempty : ∀ i, t.child b i = none := by
      intro i
      by_contra hne
      obtain ⟨q, hq⟩ := Option.ne_none_iff_exists'.mp hne
      exact absurd ((h.grown hs).child b i q hq ▸ hchildren i) nofun
    rcases hprune b (Set.notMem_empty _) hb hempty with rfl | rfl | h'
    · obtain ⟨i, q, hq⟩ := hroot
      exact absurd ((hempty i).symm.trans hq) nofun
    · exact .inr (.inl h.curr.symm)
    · exact h'.elim
  case space =>
    obtain ⟨k, hk⟩ : ∃ k : Fin N, k ≠ j := by
      have : Nontrivial (Fin N) := Fin.nontrivial_iff_two_le.mpr hN
      exact exists_ne j
    refine ⟨_, h.root ▸ h.new_node, ?_⟩
    rw [Bool.eq_false_iff, Ne, Node.full_iff]
    exact fun h => h k (by simp [hk])
  case depth => rw [h.root, update_self]
  case old =>
    obtain ⟨i, q, hq⟩ := hcurr
    exact .inr ⟨i, q, h.curr.symm ▸ (h.grown hs).child _ i q hq⟩

/-! ### The current node -/

theorem exists_child_of_full (hN : 0 < N) (ha : t.nodes a = some n) (hfull : n.full = true) :
    ∃ i q, t.child a i = some q :=
  have ⟨q, hq⟩ := Option.ne_none_iff_exists'.mp (Node.full_iff.mp hfull ⟨0, hN⟩)
  ⟨⟨0, hN⟩, q, (child_of_node ha _).trans hq⟩

/-- The first loop of `CurrentWithSpace` stops at a node with space, or at a full root. -/
theorem climb_spec (hN : 0 < N) (hs : Shape t level ∅) (fuel : Nat) (ha : t.nodes a = some n)
    (hold : t.curr = a ∨ ∃ i q, t.child t.curr i = some q)
    (hfuel : level t.root < level a + fuel) :
    ∃ b m, climb t fuel (level a) a = some (level b, b) ∧ t.nodes b = some m ∧
      (m.full = true → b = t.root) ∧ (t.curr = b ∨ ∃ i q, t.child t.curr i = some q) := by
  induction fuel generalizing a n with
  | zero =>
    have := hs.le_root a (Set.notMem_empty _) (by rw [ha]; rfl)
    omega
  | succ fuel ih =>
    simp only [climb, ha, Option.bind_eq_bind, Option.bind_some]
    by_cases hup : a ≠ t.root ∧ n.full = true
    · rcases hs.node_cases ha (Set.notMem_empty _) with ⟨h, -⟩ | ⟨-, p, i, hp, -, hi, -, hlevel⟩
      · exact absurd h hup.1
      obtain ⟨np, hnp, -⟩ := node_of_child hi
      rw [if_pos hup, hp, Option.bind_some, ← hlevel]
      refine ih hnp (.inr ?_) (by omega)
      rcases hold with rfl | hold
      · exact exists_child_of_full hN ha hup.2
      · exact hold
    · rw [if_neg hup]
      refine ⟨a, n, rfl, ha, fun hfull => ?_, hold⟩
      by_contra har
      exact hup ⟨har, hfull⟩

/-- Only the flags that say which node is the current one have changed. -/
structure Flagged (t t' : Tree N Hash) (a : Addr) : Prop where
  nodes : ∀ b, t'.nodes b = (t.nodes b).map fun n => { n with isCurr := decide (b = a) }
  leaves : t'.leaves = t.leaves
  hashes : t'.hashes = t.hashes
  root : t'.root = t.root
  curr : t'.curr = a
  allocated : t'.allocated = t.allocated

theorem Shape.isCurr_eq (hs : Shape t level ∅) (hb : t.nodes b = some m) :
    m.isCurr = decide (b = t.curr) := by
  rw [Bool.eq_iff_iff, decide_eq_true_iff]
  exact (hs.flags b m (Set.notMem_empty _) hb).2

theorem setCurr_flagged (hs : Shape t level ∅) (ha : t.nodes a = some n) :
    ∃ t', t.setCurr a = some t' ∧ Flagged t t' a := by
  by_cases hcurr : t.curr = a
  · refine ⟨t, if_pos hcurr, fun b => ?_, rfl, rfl, rfl, hcurr, rfl⟩
    cases hb : t.nodes b with
    | none => rfl
    | some m => rw [Option.map_some, ← hcurr, ← hs.isCurr_eq hb]
  · obtain ⟨old, hold⟩ := Option.isSome_iff_exists.mp hs.curr_live
    refine ⟨_, (if_neg hcurr).trans (Option.bind_eq_some_iff.mpr ⟨old, hold,
      Option.bind_eq_some_iff.mpr ⟨n, (nodes_setNode_ne _ (Ne.symm hcurr) _).trans ha, rfl⟩⟩),
      fun b => ?_, rfl, rfl, rfl, rfl, rfl⟩
    by_cases hba : b = a
    · subst hba
      rw [ha, Option.map_some, decide_eq_true rfl]
      exact nodes_setNode_self ..
    · refine (nodes_setNode_ne _ hba _).trans ?_
      rw [decide_eq_false hba]
      by_cases hbc : b = t.curr
      · subst hbc
        rw [hold]
        exact nodes_setNode_self ..
      · rw [nodes_setNode_ne _ hbc]
        cases hb : t.nodes b with
        | none => rfl
        | some m => rw [Option.map_some, ← decide_eq_false hbc, ← hs.isCurr_eq hb]

namespace Flagged

variable (h : Flagged t t' a)

include h

theorem child (b : Addr) (i : Fin N) : t'.child b i = t.child b i := by
  rw [Tree.child, h.nodes, Option.bind_map, Tree.child]
  rfl

theorem parent (r : Part) : t'.parentOf r = t.parentOf r := by
  cases r with
  | leaf l => rw [parentOf, h.leaves, parentOf]
  | node b =>
    rw [parentOf, h.nodes, Option.map_map, parentOf]
    rfl

theorem hptr (r : Part) : t'.hptrOf r = t.hptrOf r := by
  cases r with
  | leaf l => rw [hptrOf, h.leaves, hptrOf]
  | node b =>
    rw [hptrOf, h.nodes, Option.map_map, hptrOf]
    rfl

theorem isSome_nodes_iff : (t'.nodes b).isSome ↔ (t.nodes b).isSome := by
  rw [h.nodes, Option.isSome_map]

theorem grown : Grown t t' where
  leaves := h.leaves
  slots _ _ _ := congrFun h.hashes _
  allocated := h.allocated.ge
  parent _ _ hp := (h.parent _).trans hp
  child b i _ hq := (h.child b i).trans hq

theorem shape (hs : Shape t level ∅) (ha : (t.nodes a).isSome) (hlevel : level a = 0) :
    Shape t' level ∅ where
  down b i q hb hq := by
    rw [h.child] at hq
    rw [h.parent, h.hptr]
    exact hs.down b i q hb hq
  up q b hq hp := by
    rw [h.parent] at hp
    simp only [h.child]
    exact hs.up q b hq hp
  top b hb hp := by
    rw [h.parent] at hp
    exact h.root ▸ hs.top b hb hp
  root_mem := Set.notMem_empty _
  root_parent := h.root.symm ▸ (h.parent _).trans hs.root_parent
  root_hptr := h.root.symm ▸ (h.hptr _).trans hs.root_hptr
  curr_mem := Set.notMem_empty _
  curr_live := h.curr.symm ▸ h.isSome_nodes_iff.mpr ha
  curr_level := h.curr.symm ▸ hlevel
  le_root b hb hlive := h.root.symm ▸ hs.le_root b hb (h.isSome_nodes_iff.mp hlive)
  lt_allocated b hlive := h.allocated.symm ▸ hs.lt_allocated b (h.isSome_nodes_iff.mp hlive)
  fits := h.root.symm ▸ h.allocated.symm ▸ hs.fits
  flags b m hb hm := by
    rw [h.nodes] at hm
    obtain ⟨m', hm', rfl⟩ := Option.map_eq_some_iff.mp hm
    rw [h.root, h.curr]
    exact ⟨(hs.flags b m' hb hm').1, decide_eq_true_iff⟩

end Flagged

/-- `CurrentWithSpace` leaves the current node with space for a leaf. -/
structure Roomy (K : Hasher N Hash) (t : Tree N Hash) (level : Addr → Nat) : Prop where
  shape : Shape t level ∅
  hashed : t.Hashed K ∅ (Above t.nodes t.curr)
  pruned : t.Pruned ∅ fun _ => False
  space : ∃ n, t.nodes t.curr = some n ∧ n.full = false

theorem setCurr_spec (h : Growing K t level a 0) :
    ∃ t', t.setCurr a = some t' ∧ t'.curr = a ∧ Roomy K t' level ∧ Grown t t' := by
  obtain ⟨n, hn, hspace⟩ := h.space
  obtain ⟨t', hset, hf⟩ := setCurr_flagged h.shape hn
  refine ⟨t', hset, hf.curr, ?_, hf.grown⟩
  constructor
  case shape => exact hf.shape h.shape (by rw [hn]; rfl) h.depth
  case hashed =>
    refine h.hashed.grown h.shape hf.grown fun b m hm hb => ?_
    rw [hf.nodes] at hm
    obtain ⟨m', hm', rfl⟩ := Option.map_eq_some_iff.mp hm
    exact ⟨m', hm', fun habove => hb (hf.curr ▸ habove.mono hf.grown.parent), congrFun hf.hashes _⟩
  case pruned =>
    intro b _ hb hchildren
    simp only [hf.child] at hchildren
    rw [hf.root, hf.curr]
    rcases h.pruned b (Set.notMem_empty _) (hf.isSome_nodes_iff.mp hb) hchildren with hr | hc | ha
    · exact .inl hr
    · rcases h.old with ha | ⟨i, q, hq⟩
      · exact .inr (.inl (hc.trans ha))
      · rw [← hc, hchildren i] at hq
        cases hq
    · exact .inr (.inl ha)
  case space =>
    rw [hf.curr, hf.nodes, hn]
    exact ⟨_, rfl, hspace⟩

theorem growBranch_setCurr_spec (hN : 0 < N) {k : Nat} (h : Growing K t level a k) :
    ∃ t' level', ((growBranch K k t a).bind fun r => (r.1.setCurr r.2).bind fun t => some (t, r.2)) =
      some (t', t'.curr) ∧ Roomy K t' level' ∧ Grown t t' := by
  obtain ⟨t₁, a₁, level₁, hbranch, h₁, hg₁⟩ := growBranch_spec hN h
  obtain ⟨t₂, hset, hcurr, h₂, hg₂⟩ := setCurr_spec h₁
  refine ⟨t₂, level₁, ?_, h₂, hg₁.trans hg₂⟩
  rw [hbranch, Option.bind_some, hset, Option.bind_some, hcurr]

theorem currentWithSpace_spec (hN : 2 ≤ N) (hs : Shape t level ∅)
    (hh : t.Hashed K ∅ fun _ => False) (hprune : t.Pruned ∅ fun _ => False) :
    ∃ t' level', t.currentWithSpace K = some (t', t'.curr) ∧ Roomy K t' level' ∧ Grown t t' := by
  have hpos : 0 < N := by omega
  obtain ⟨n, hn⟩ := Option.isSome_iff_exists.mp hs.curr_live
  obtain ⟨a, m, hclimb, hm, hfull, hold⟩ := climb_spec hpos hs t.allocated hn (.inl rfl)
    (hs.fits.trans_le (Nat.le_add_left ..))
  rw [hs.curr_level] at hclimb
  simp only [currentWithSpace, hclimb, hm, Option.bind_eq_bind, Option.bind_some]
  by_cases hmfull : m.full = true
  · -- the tree is full up to its root
    obtain rfl := hfull hmfull
    have hroot := exists_child_of_full hpos hm hmfull
    have hcurr : ∃ i q, t.child t.curr i = some q := by
      rcases hold with hcurr | hcurr
      · exact hcurr.symm ▸ hroot
      · exact hcurr
    obtain ⟨t₁, level₁, hgrow, h₁, hg₁⟩ := growRoot_spec hN hs hh hprune hroot hcurr
    obtain ⟨t', level', hrun, h', hg'⟩ := growBranch_setCurr_spec hpos h₁
    refine ⟨t', level', ?_, h', hg₁.trans hg'⟩
    simp only [hmfull, guard_true, if_true, hgrow, Option.pure_def, Option.bind_some]
    exact hrun
  · have h : Growing K t level a (level a) := by
      refine ⟨hs, fun b n hb hbD _ => hh b n hb hbD not_false, fun b hbD hb hchildren => ?_,
        ⟨m, hm, Bool.eq_false_of_not_eq_true hmfull⟩, rfl, hold⟩
      rcases hprune b hbD hb hchildren with h | h | h
      · exact .inl h
      · exact .inr (.inl h)
      · exact h.elim
    rw [if_neg hmfull]
    exact growBranch_setCurr_spec hpos h

end SVR2.Merkle.Tree
