import Mathlib.Data.Set.Insert
import SVR2.Merkle.Tree

/-!
# The shape of the tree

Parents and children point to each other, and every part has a level that is one below that of
its parent, so that all leaves are as deep as each other.  While a part is being destroyed it
is still in memory but no longer part of the tree: the invariant is stated for all parts outside
the set of those.
-/

namespace SVR2.Merkle

variable {N : Nat} {Hash : Type}

/-- The level of the node that a part belongs to. -/
def rank (level : Addr → Nat) : Part → Nat
  | .node a => level a + 1
  | .leaf _ => 0

namespace Node

variable {n : Node N}

theorem slotOf_eq_some {q : Option Part} (h : ∃ i, n.children i = q) :
    ∃ i, n.slotOf q = some i ∧ n.children i = q := by
  obtain ⟨i, hi⟩ := h
  have hsome : (n.slotOf q).isSome := List.find?_isSome.mpr ⟨i, List.mem_finRange i, decide_eq_true hi⟩
  obtain ⟨j, hj⟩ := Option.isSome_iff_exists.mp hsome
  exact ⟨j, hj, of_decide_eq_true (List.find?_some (p := fun i => decide (n.children i = q)) hj)⟩

theorem empty_iff : n.empty = true ↔ ∀ i, n.children i = none := by
  rw [empty, decide_eq_true_iff, parts, List.countP_eq_zero]
  simp

theorem full_iff : n.full = true ↔ ∀ i, n.children i ≠ none := by
  rw [full, decide_eq_true_iff, parts]
  conv_lhs => rhs; rw [← List.length_finRange (n := N)]
  rw [List.countP_eq_length]
  simp [Option.isSome_iff_ne_none]

end Node

namespace Tree

variable {t t' : Tree N Hash} {level : Addr → Nat} {D : Set Part} {a b p : Addr} {n m : Node N}
  {i j : Fin N} {q r : Part}

def child (t : Tree N Hash) (a : Addr) (i : Fin N) : Option Part :=
  (t.nodes a).bind fun n => n.children i

def hptrOf (t : Tree N Hash) : Part → Option (HashPtr N)
  | .node a => (t.nodes a).map Node.hptr
  | .leaf l => (t.leaves l).bind Leaf.hptr

theorem parentOf_node (h : t.nodes a = some n) : t.parentOf (.node a) = some n.parent := by
  rw [parentOf, h]
  rfl

theorem hptrOf_node (h : t.nodes a = some n) : t.hptrOf (.node a) = some n.hptr := by
  rw [hptrOf, h]
  rfl

theorem child_of_node (h : t.nodes a = some n) (i : Fin N) : t.child a i = n.children i := by
  rw [child, h]
  rfl

theorem node_of_child (h : t.child a i = some q) : ∃ n, t.nodes a = some n ∧ n.children i = some q :=
  Option.bind_eq_some_iff.mp h

theorem node_of_parentOf {o : Option Addr} (h : t.parentOf (.node a) = some o) :
    ∃ n, t.nodes a = some n ∧ n.parent = o :=
  Option.map_eq_some_iff.mp h

structure Shape (t : Tree N Hash) (level : Addr → Nat) (D : Set Part) : Prop where
  down : ∀ a i q, .node a ∉ D → t.child a i = some q →
    q ∉ D ∧ t.parentOf q = some (some a) ∧ t.hptrOf q = some (.slot a i) ∧ level a = rank level q
  up : ∀ q a, q ∉ D → t.parentOf q = some (some a) → .node a ∉ D ∧ ∃ i, t.child a i = some q
  top : ∀ a, .node a ∉ D → t.parentOf (.node a) = some none → a = t.root
  root_mem : .node t.root ∉ D
  root_parent : t.parentOf (.node t.root) = some none
  root_hptr : t.hptrOf (.node t.root) = some .roothash
  curr_mem : .node t.curr ∉ D
  curr_live : (t.nodes t.curr).isSome
  curr_level : level t.curr = 0
  le_root : ∀ a, .node a ∉ D → (t.nodes a).isSome → level a ≤ level t.root
  lt_allocated : ∀ a, (t.nodes a).isSome → a < t.allocated
  fits : level t.root < t.allocated
  flags : ∀ a n, .node a ∉ D → t.nodes a = some n →
    (n.isRoot = true ↔ a = t.root) ∧ (n.isCurr = true ↔ a = t.curr)

theorem Shape.withHashes (h : Shape t level D) (hashes : HashPtr N → Hash) :
    Shape { t with hashes := hashes } level D :=
  ⟨h.down, h.up, h.top, h.root_mem, h.root_parent, h.root_hptr, h.curr_mem, h.curr_live,
    h.curr_level, h.le_root, h.lt_allocated, h.fits, h.flags⟩

theorem Shape.node_cases (h : Shape t level D) (ha : t.nodes a = some n) (haD : .node a ∉ D) :
    a = t.root ∧ n.parent = none ∧ n.hptr = .roothash ∨
      a ≠ t.root ∧ ∃ p i, n.parent = some p ∧ n.hptr = .slot p i ∧ t.child p i = some (.node a) ∧
        .node p ∉ D ∧ level p = level a + 1 := by
  have hparent := parentOf_node ha
  cases hp : n.parent with
  | none =>
    rw [hp] at hparent
    obtain rfl := h.top a haD hparent
    have hptr := h.root_hptr
    rw [hptrOf_node ha] at hptr
    exact .inl ⟨rfl, rfl, Option.some.inj hptr⟩
  | some p =>
    rw [hp] at hparent
    obtain ⟨hpD, i, hi⟩ := h.up _ p haD hparent
    obtain ⟨-, -, hptr, hlevel⟩ := h.down p i _ hpD hi
    rw [hptrOf_node ha] at hptr
    refine .inr ⟨?_, p, i, rfl, Option.some.inj hptr, hi, hpD, hlevel⟩
    rintro rfl
    rw [h.root_parent] at hparent
    cases hparent

/-- Two nodes do not keep their hashes in the same place. -/
theorem Shape.hptr_inj (h : Shape t level D) (ha : t.nodes a = some n) (haD : .node a ∉ D)
    (hb : t.nodes b = some m) (hbD : .node b ∉ D) (heq : n.hptr = m.hptr) : a = b := by
  rcases h.node_cases ha haD with ⟨rfl, -, hroot⟩ | ⟨-, p, i, -, hslot, hi, -⟩ <;>
    rcases h.node_cases hb hbD with ⟨rfl, -, hroot'⟩ | ⟨-, p', i', -, hslot', hi', -⟩
  · rfl
  · exact absurd (hroot.symm.trans (heq.trans hslot')) nofun
  · exact absurd (hslot.symm.trans (heq.trans hroot')) nofun
  · obtain ⟨rfl, rfl⟩ := HashPtr.slot.inj (hslot.symm.trans (heq.trans hslot'))
    exact Part.node.inj (Option.some.inj (hi.symm.trans hi'))

theorem Shape.hptr_ne_slot (h : Shape t level D) (ha : t.nodes a = some n) (haD : .node a ∉ D)
    {l : LeafId} (hchild : t.child p i = some (.leaf l)) : n.hptr ≠ .slot p i := by
  intro heq
  rcases h.node_cases ha haD with ⟨-, -, hroot⟩ | ⟨-, p', i', -, hslot, hi, -⟩
  · exact absurd (hroot.symm.trans heq) nofun
  · obtain ⟨rfl, rfl⟩ := HashPtr.slot.inj (hslot.symm.trans heq)
    exact absurd (hi.symm.trans hchild) nofun

/-! ### Hashes along a path -/

inductive Above (nodes : Addr → Option (Node N)) : Addr → Addr → Prop where
  | refl (a : Addr) : Above nodes a a
  | step {a p b : Addr} {n : Node N} (ha : nodes a = some n) (hp : n.parent = some p)
      (h : Above nodes p b) : Above nodes a b

def Hashed (K : Hasher N Hash) (t : Tree N Hash) (D : Set Part) (X : Addr → Prop) : Prop :=
  ∀ a n, t.nodes a = some n → .node a ∉ D → ¬ X a → t.hashes n.hptr = t.computeCurrent K a

theorem computeCurrent_setHash (K : Hasher N Hash) {c : HashPtr N} (hc : ∀ i, c ≠ .slot a i)
    (h : Hash) : (t.setHash c h).computeCurrent K a = t.computeCurrent K a := by
  rw [computeCurrent, computeCurrent]
  congr
  funext i
  exact hashes_setHash_ne t (hc i).symm h

/-- Putting the hash of one node right: what was right stays so, except at the node that keeps it
    among its children's. -/
theorem Hashed.set_self {K : Hasher N Hash} {X Y : Addr → Prop} (hs : Shape t level D)
    (ha : t.nodes a = some n) (haD : .node a ∉ D) (hh : t.Hashed K D X)
    (hX : ∀ b, ¬ Y b → b ≠ a → ¬ X b) (hY : ∀ b i, ¬ Y b → n.hptr ≠ .slot b i) :
    Hashed K (t.setHash n.hptr (t.computeCurrent K a)) D Y := by
  intro b m hb hbD hbY
  rw [computeCurrent_setHash K fun i => hY b i hbY]
  by_cases hba : b = a
  · subst hba
    obtain rfl := Option.some.inj (ha.symm.trans hb)
    exact hashes_setHash_self ..
  · have hne : m.hptr ≠ n.hptr := fun heq => hba (hs.hptr_inj hb hbD ha haD heq)
    exact (hashes_setHash_ne t hne _).trans (hh b m hb hbD (hX b hbY hba))

/-- `Update` puts the hashes right along the path to the root, and touches nothing else. -/
theorem updateLoop_spec (K : Hasher N Hash) (fuel : Nat) (hs : Shape t level D)
    (ha : t.nodes a = some n) (haD : .node a ∉ D) (hh : t.Hashed K D (Above t.nodes a))
    (hfuel : level t.root < level a + fuel) :
    ∃ hashes, updateLoop K fuel t a = some { t with hashes := hashes } ∧
      Hashed K { t with hashes := hashes } D (fun _ => False) ∧
      ∀ c, (∀ b m, t.nodes b = some m → .node b ∉ D → m.hptr ≠ c) → hashes c = t.hashes c := by
  induction fuel generalizing t a n with
  | zero =>
    have := hs.le_root a haD (by rw [ha]; rfl)
    omega
  | succ fuel ih =>
    have hframe : ∀ c, (∀ b m, t.nodes b = some m → .node b ∉ D → m.hptr ≠ c) →
        (t.setHash n.hptr (t.computeCurrent K a)).hashes c = t.hashes c :=
      fun c hc => hashes_setHash_ne t (hc a n ha haD).symm _
    simp only [updateLoop, ha, Option.bind_eq_bind, Option.bind_some]
    rcases hs.node_cases ha haD with ⟨rfl, hparent, hptr⟩ | ⟨-, p, i, hparent, hptr, hi, hpD, hlevel⟩
    · rw [hparent]
      refine ⟨_, rfl, hh.set_self hs ha haD (fun b _ hne habove => ?_) (fun b i _ => hptr ▸ nofun),
        hframe⟩
      -- nothing is above the root
      cases habove with
      | refl => exact hne rfl
      | step ha' hp' =>
        obtain rfl := Option.some.inj (ha.symm.trans ha')
        exact absurd (hparent.symm.trans hp') nofun
    · obtain ⟨np, hnp, -⟩ := node_of_child hi
      rw [hparent]
      have hstep : Hashed K (t.setHash n.hptr (t.computeCurrent K a)) D (Above t.nodes p) := by
        refine hh.set_self hs ha haD (fun b hb hne habove => ?_) (fun b j hb heq => ?_)
        · cases habove with
          | refl => exact hne rfl
          | step ha' hp' habove' =>
            obtain rfl := Option.some.inj (ha.symm.trans ha')
            obtain rfl := Option.some.inj (hparent.symm.trans hp')
            exact hb habove'
        · obtain ⟨rfl, -⟩ := HashPtr.slot.inj (hptr.symm.trans heq)
          exact hb (.refl p)
      obtain ⟨hashes, hrun, hhashed, hkeep⟩ :=
        ih (t := t.setHash n.hptr (t.computeCurrent K a)) (hs.withHashes _) hnp hpD hstep
          (show level t.root < level p + fuel by omega)
      exact ⟨hashes, hrun, hhashed, fun c hc => (hkeep c hc).trans (hframe c hc)⟩

/-! ### Adding a part -/

/-- A part has been put into a slot of a node, and points back to it. -/
structure Attached (t t' : Tree N Hash) (p : Addr) (j : Fin N) (q : Part) : Prop where
  child : ∀ b i, t'.child b i = if b = p ∧ i = j then some q else t.child b i
  parent : ∀ r, r ≠ q → t'.parentOf r = t.parentOf r
  hptr : ∀ r, r ≠ q → t'.hptrOf r = t.hptrOf r
  parent_new : t'.parentOf q = some (some p)
  hptr_new : t'.hptrOf q = some (.slot p j)
  root : t'.root = t.root
  curr : t'.curr = t.curr
  allocated : t.allocated ≤ t'.allocated
  new_lt : ∀ a, q = .node a → a < t'.allocated
  nodes : ∀ b m, t'.nodes b = some m →
    q = .node b ∧ m.isRoot = false ∧ m.isCurr = false ∨
      ∃ n, t.nodes b = some n ∧ m.isRoot = n.isRoot ∧ m.isCurr = n.isCurr

theorem isSome_nodes : (t.nodes a).isSome ↔ ∃ o, t.parentOf (.node a) = some o := by
  rw [parentOf, Option.isSome_iff_exists]
  constructor
  · rintro ⟨n, hn⟩
    exact ⟨n.parent, by rw [hn]; rfl⟩
  · rintro ⟨o, ho⟩
    obtain ⟨n, hn, -⟩ := Option.map_eq_some_iff.mp ho
    exact ⟨n, hn⟩

theorem Shape.attach (h : Shape t level D) (hat : Attached t t' p j q) (hpD : .node p ∉ D)
    (hp : (t.nodes p).isSome) (hfree : t.child p j = none) (hq : t.parentOf q = none) (hqD : q ∉ D)
    {level' : Addr → Nat} (hlevel : ∀ b, (t.nodes b).isSome → level' b = level b)
    (hrank : level p = rank level' q) : Shape t' level' D := by
  -- nothing of the old tree is the new part
  have hold : ∀ {r o}, t.parentOf r = some o → r ≠ q := by
    rintro r o hr rfl
    exact absurd (hr.symm.trans hq) nofun
  have hlive : ∀ {b}, (t.nodes b).isSome → .node b ≠ q := fun hb =>
    have ⟨_, ho⟩ := isSome_nodes.mp hb
    hold ho
  have hroot : (t.nodes t.root).isSome := isSome_nodes.mpr ⟨_, h.root_parent⟩
  have hrankOld : ∀ {r o}, t.parentOf r = some o → rank level' r = rank level r := by
    intro r o hr
    cases r with
    | leaf l => rfl
    | node b => exact congrArg (· + 1) (hlevel b (isSome_nodes.mpr ⟨o, hr⟩))
  have hnodes : ∀ b, .node b ≠ q → ((t'.nodes b).isSome ↔ (t.nodes b).isSome) := fun b hb => by
    rw [isSome_nodes, isSome_nodes, hat.parent _ hb]
  constructor
  case down =>
    intro a i r haD hchild
    rw [hat.child] at hchild
    split_ifs at hchild with hpj
    · obtain ⟨rfl, rfl⟩ := hpj
      obtain rfl := Option.some.inj hchild
      exact ⟨hqD, hat.parent_new, hat.hptr_new, (hlevel a hp).trans hrank⟩
    · obtain ⟨hrD, hparent, hptr, hlev⟩ := h.down a i r haD hchild
      obtain ⟨n, hn, -⟩ := node_of_child hchild
      refine ⟨hrD, (hat.parent r (hold hparent)).trans hparent, (hat.hptr r (hold hparent)).trans hptr, ?_⟩
      rw [hlevel a (by rw [hn]; rfl), hlev, hrankOld hparent]
  case up =>
    intro r a hrD hparent
    by_cases hr : r = q
    · subst hr
      obtain rfl := Option.some.inj (Option.some.inj (hat.parent_new.symm.trans hparent))
      exact ⟨hpD, j, (hat.child p j).trans (if_pos ⟨rfl, rfl⟩)⟩
    · rw [hat.parent r hr] at hparent
      obtain ⟨haD, i, hi⟩ := h.up r a hrD hparent
      refine ⟨haD, i, (hat.child a i).trans ((if_neg ?_).trans hi)⟩
      rintro ⟨rfl, rfl⟩
      exact absurd (hfree.symm.trans hi) nofun
  case top =>
    intro a haD hparent
    have hne : .node a ≠ q := by
      rintro rfl
      exact absurd (hat.parent_new.symm.trans hparent) nofun
    rw [hat.root]
    exact h.top a haD ((hat.parent _ hne).symm.trans hparent)
  case root_mem => exact hat.root ▸ h.root_mem
  case root_parent => exact hat.root ▸ (hat.parent _ (hlive hroot)).trans h.root_parent
  case root_hptr => exact hat.root ▸ (hat.hptr _ (hlive hroot)).trans h.root_hptr
  case curr_mem => exact hat.curr ▸ h.curr_mem
  case curr_live => exact hat.curr ▸ (hnodes _ (hlive h.curr_live)).mpr h.curr_live
  case curr_level => exact hat.curr ▸ (hlevel _ h.curr_live).trans h.curr_level
  case le_root =>
    intro a haD ha
    rw [hat.root, hlevel _ hroot]
    by_cases haq : .node a = q
    · subst haq
      have := h.le_root p hpD hp
      have : level p = level' a + 1 := hrank
      omega
    · rw [hlevel a ((hnodes a haq).mp ha)]
      exact h.le_root a haD ((hnodes a haq).mp ha)
  case lt_allocated =>
    intro a ha
    by_cases haq : .node a = q
    · exact hat.new_lt a haq.symm
    · exact (h.lt_allocated a ((hnodes a haq).mp ha)).trans_le hat.allocated
  case fits =>
    rw [hat.root, hlevel _ hroot]
    exact h.fits.trans_le hat.allocated
  case flags =>
    intro a m haD hm
    rw [hat.root, hat.curr]
    rcases hat.nodes a m hm with ⟨rfl, hr, hc⟩ | ⟨n, hn, hr, hc⟩
    · rw [hr, hc]
      refine ⟨iff_of_false nofun ?_, iff_of_false nofun ?_⟩
      · rintro rfl
        exact hlive hroot rfl
      · rintro rfl
        exact hlive h.curr_live rfl
    · rw [hr, hc]
      exact h.flags a n haD hn

/-! ### Taking a part away -/

/-- A slot of a node has been emptied. -/
structure Detached (t t' : Tree N Hash) (p : Addr) (j : Fin N) : Prop where
  child : ∀ b i, t'.child b i = if b = p ∧ i = j then none else t.child b i
  parent : ∀ r, t'.parentOf r = t.parentOf r
  hptr : ∀ r, t'.hptrOf r = t.hptrOf r
  root : t'.root = t.root
  curr : t'.curr = t.curr
  allocated : t'.allocated = t.allocated
  nodes : ∀ b m, t'.nodes b = some m →
    ∃ n, t.nodes b = some n ∧ m.isRoot = n.isRoot ∧ m.isCurr = n.isCurr

/-- The part that is taken out of the tree has to be empty, and may not be the current node. -/
theorem Shape.detach (h : Shape t level D) (hdet : Detached t t' p j) (hpD : .node p ∉ D)
    (hq : t.child p j = some q) (hempty : ∀ b, q = .node b → ∀ i, t.child b i = none)
    (hcurr : q ≠ .node t.curr) : Shape t' level (insert q D) := by
  obtain ⟨hqD, hqparent, hqptr, -⟩ := h.down p j q hpD hq
  have hnodes : ∀ b, (t'.nodes b).isSome ↔ (t.nodes b).isSome := fun b => by
    rw [isSome_nodes, isSome_nodes, hdet.parent]
  have hmem : ∀ {r}, r ∉ insert q D ↔ r ≠ q ∧ r ∉ D := by
    intro r
    rw [Set.mem_insert_iff, not_or]
  constructor
  case down =>
    intro a i r haD hchild
    rw [hdet.child] at hchild
    split_ifs at hchild with hpj
    obtain ⟨hrD, hparent, hptr, hlevel⟩ := h.down a i r (hmem.mp haD).2 hchild
    refine ⟨hmem.mpr ⟨?_, hrD⟩, (hdet.parent r).trans hparent, (hdet.hptr r).trans hptr, hlevel⟩
    rintro rfl
    obtain ⟨rfl, rfl⟩ := HashPtr.slot.inj (Option.some.inj (hptr.symm.trans hqptr))
    exact hpj ⟨rfl, rfl⟩
  case up =>
    intro r a hrD hparent
    obtain ⟨hrq, hrD⟩ := hmem.mp hrD
    obtain ⟨haD, i, hi⟩ := h.up r a hrD ((hdet.parent r).symm.trans hparent)
    refine ⟨hmem.mpr ⟨?_, haD⟩, i, (hdet.child a i).trans ((if_neg ?_).trans hi)⟩
    · rintro rfl
      exact absurd ((hempty a rfl i).symm.trans hi) nofun
    · rintro ⟨rfl, rfl⟩
      exact hrq (Option.some.inj (hi.symm.trans hq))
  case top =>
    intro a haD hparent
    rw [hdet.root]
    exact h.top a (hmem.mp haD).2 ((hdet.parent _).symm.trans hparent)
  case root_mem =>
    rw [hdet.root]
    refine hmem.mpr ⟨?_, h.root_mem⟩
    rintro rfl
    exact absurd (h.root_parent.symm.trans hqparent) nofun
  case root_parent => exact hdet.root ▸ (hdet.parent _).trans h.root_parent
  case root_hptr => exact hdet.root ▸ (hdet.hptr _).trans h.root_hptr
  case curr_mem => exact hdet.curr ▸ hmem.mpr ⟨hcurr.symm, h.curr_mem⟩
  case curr_live => exact hdet.curr ▸ (hnodes _).mpr h.curr_live
  case curr_level => exact hdet.curr ▸ h.curr_level
  case le_root =>
    intro a haD ha
    rw [hdet.root]
    exact h.le_root a (hmem.mp haD).2 ((hnodes a).mp ha)
  case lt_allocated =>
    intro a ha
    rw [hdet.allocated]
    exact h.lt_allocated a ((hnodes a).mp ha)
  case fits =>
    rw [hdet.root, hdet.allocated]
    exact h.fits
  case flags =>
    intro a m haD hm
    obtain ⟨n, hn, hr, hc⟩ := hdet.nodes a m hm
    rw [hdet.root, hdet.curr, hr, hc]
    exact h.flags a n (hmem.mp haD).2 hn

theorem parentOf_free_self (t : Tree N Hash) (q : Part) : (t.free q).parentOf q = none := by
  cases q <;> simp [free, parentOf, setNode, setLeaf]

theorem parentOf_free (t : Tree N Hash) (h : r ≠ q) : (t.free q).parentOf r = t.parentOf r := by
  cases q <;> cases r <;> simp_all [free, parentOf, setNode, setLeaf]

theorem hptrOf_free (t : Tree N Hash) (h : r ≠ q) : (t.free q).hptrOf r = t.hptrOf r := by
  cases q <;> cases r <;> simp_all [free, hptrOf, setNode, setLeaf]

theorem nodes_free (t : Tree N Hash) (h : .node a ≠ q) : (t.free q).nodes a = t.nodes a := by
  cases q <;> simp_all [free, setNode, setLeaf]

theorem ne_of_nodes_free (h : (t.free q).nodes a = some n) : .node a ≠ q := by
  rintro rfl
  simp [free, setNode] at h

theorem child_free (t : Tree N Hash) (h : .node a ≠ q) (i : Fin N) :
    (t.free q).child a i = t.child a i := by
  rw [child, nodes_free t h, child]

theorem ne_of_child_free (h : (t.free q).child a i = some r) : .node a ≠ q :=
  have ⟨_, hn, _⟩ := node_of_child h
  ne_of_nodes_free hn

@[simp] theorem free_root (t : Tree N Hash) (q : Part) : (t.free q).root = t.root := by
  cases q <;> rfl

@[simp] theorem free_curr (t : Tree N Hash) (q : Part) : (t.free q).curr = t.curr := by
  cases q <;> rfl

@[simp] theorem free_allocated (t : Tree N Hash) (q : Part) :
    (t.free q).allocated = t.allocated := by
  cases q <;> rfl

@[simp] theorem free_hashes (t : Tree N Hash) (q : Part) : (t.free q).hashes = t.hashes := by
  cases q <;> rfl

/-- The memory of a part that has been taken out of the tree can be given back. -/
theorem Shape.free (h : Shape t level (insert q D)) : Shape (t.free q) level D := by
  have hmem : ∀ {r}, r ≠ q → r ∉ D → r ∉ insert q D := fun hrq hrD => by
    rw [Set.mem_insert_iff, not_or]
    exact ⟨hrq, hrD⟩
  have hsub : ∀ {r}, r ∉ insert q D → r ∉ D := fun hr hrD => hr (Set.mem_insert_of_mem q hrD)
  have hne : ∀ {r}, r ∉ insert q D → r ≠ q := fun hr heq => hr (heq ▸ Set.mem_insert q D)
  have hparentOf : ∀ {r o}, (t.free q).parentOf r = some o → r ≠ q := by
    rintro r o hr rfl
    rw [parentOf_free_self] at hr
    cases hr
  have hisSome : ∀ {a}, ((t.free q).nodes a).isSome → (t.nodes a).isSome ∧ .node a ≠ q := by
    intro a ha
    obtain ⟨n, hn⟩ := Option.isSome_iff_exists.mp ha
    have haq := ne_of_nodes_free hn
    rw [nodes_free t haq] at hn
    exact ⟨by rw [hn]; rfl, haq⟩
  constructor
  case down =>
    intro a i r haD hchild
    have haq := ne_of_child_free hchild
    rw [child_free t haq] at hchild
    obtain ⟨hrD, hparent, hptr, hlevel⟩ := h.down a i r (hmem haq haD) hchild
    exact ⟨hsub hrD, (parentOf_free t (hne hrD)).trans hparent,
      (hptrOf_free t (hne hrD)).trans hptr, hlevel⟩
  case up =>
    intro r a hrD hparent
    have hrq := hparentOf hparent
    rw [parentOf_free t hrq] at hparent
    obtain ⟨haD, i, hi⟩ := h.up r a (hmem hrq hrD) hparent
    exact ⟨hsub haD, i, (child_free t (hne haD) i).trans hi⟩
  case top =>
    intro a haD hparent
    have haq := hparentOf hparent
    rw [parentOf_free t haq] at hparent
    rw [free_root]
    exact h.top a (hmem haq haD) hparent
  case root_mem => exact (free_root t q).symm ▸ hsub h.root_mem
  case root_parent => exact (free_root t q).symm ▸ (parentOf_free t (hne h.root_mem)).trans h.root_parent
  case root_hptr => exact (free_root t q).symm ▸ (hptrOf_free t (hne h.root_mem)).trans h.root_hptr
  case curr_mem => exact (free_curr t q).symm ▸ hsub h.curr_mem
  case curr_live =>
    rw [free_curr, nodes_free t (hne h.curr_mem)]
    exact h.curr_live
  case curr_level => exact (free_curr t q).symm ▸ h.curr_level
  case le_root =>
    intro a haD ha
    rw [free_root]
    exact h.le_root a (hmem (hisSome ha).2 haD) (hisSome ha).1
  case lt_allocated =>
    intro a ha
    rw [free_allocated]
    exact h.lt_allocated a (hisSome ha).1
  case fits =>
    rw [free_root, free_allocated]
    exact h.fits
  case flags =>
    intro a m haD hm
    have haq := ne_of_nodes_free hm
    rw [nodes_free t haq] at hm
    rw [free_root, free_curr]
    exact h.flags a m (hmem haq haD) hm

end Tree

end SVR2.Merkle
