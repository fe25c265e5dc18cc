import Mathlib.Data.Nat.Pairing
import SVR2.Merkle.Growth

/-!
# Verifying leaves

What the tree is for: it remembers the hash that each of its leaves got last.  Every run of the
operations that a program may do, given which of its leaves are alive, succeeds; after it every
leaf verifies with its own hash and no other, and the tree has the shape that `merkle.h` gives it.
-/

namespace SVR2.Merkle

open Function

variable {N : Nat} {Hash : Type}

/-- The leaves of a program: none where there is no object, and no hash in one that has been
    moved away. -/
abbrev Values (Hash : Type) := LeafId → Option (Option Hash)

namespace Values

/-- An operation, where the lifetimes of the objects allow it. -/
def apply (m : Values Hash) : Op Hash → Option (Values Hash)
  | .create l h => if (m l).isNone then some (update m l (some (some h))) else none
  | .update l h =>
    match m l with
    | some (some _) => some (update m l (some (some h)))
    | _ => none
  | .move source target =>
    match m source with
    | some (some h) =>
      if (m target).isNone then some (update (update m target (some (some h))) source (some none))
      else none
    | _ => none
  | .destroy l => if (m l).isSome then some (update m l none) else none

def run (ops : List (Op Hash)) : Option (Values Hash) :=
  ops.foldlM apply fun _ => none

end Values

namespace Tree

variable {t t' : Tree N Hash} {level : Addr → Nat} {a b p : Addr} {n : Node N} {l k : LeafId}
  {K : Hasher N Hash} {m : Values Hash}

def Holds (t : Tree N Hash) (l : LeafId) : Option (Option Hash) → Prop
  | none => t.leaves l = none
  | some none => t.leaves l = some { parent := none, hptr := none }
  | some (some h) => ∃ a c, t.leaves l = some { parent := some a, hptr := some c } ∧ t.hashes c = h

structure Represents (K : Hasher N Hash) (t : Tree N Hash) (level : Addr → Nat) (m : Values Hash) :
    Prop where
  shape : Shape t level ∅
  hashed : t.Hashed K ∅ fun _ => False
  pruned : t.Pruned ∅ fun _ => False
  leaves : ∀ l, Holds t l (m l)

theorem Holds.congr {v : Option (Option Hash)} (h : Holds t l v)
    (hleaf : t'.leaves l = t.leaves l)
    (hcell : ∀ a c, t.leaves l = some { parent := some a, hptr := some c } →
      t'.hashes c = t.hashes c) : Holds t' l v := by
  match v, h with
  | none, h => exact hleaf.trans h
  | some none, h => exact hleaf.trans h
  | some (some v), ⟨a, c, hl, hv⟩ => exact ⟨a, c, hleaf.trans hl, (hcell a c hl).trans hv⟩

theorem Shape.slot_of_leaf (hs : Shape t level ∅) {c : HashPtr N}
    (hl : t.leaves l = some { parent := some a, hptr := some c }) :
    ∃ i, c = .slot a i ∧ t.child a i = some (.leaf l) :=
  have ⟨i, hc, hi, _⟩ := hs.leaf_slot (Set.notMem_empty _) hl rfl rfl
  ⟨i, hc, hi⟩

/-! ### The operations -/

theorem updateLeaf_spec (hs : Shape t level ∅) {i : Fin N}
    (hl : t.leaves l = some { parent := some a, hptr := some (.slot a i) })
    (hi : t.child a i = some (.leaf l)) (hh : t.Hashed K ∅ (Above t.nodes a)) (h : Hash) :
    ∃ hashes, t.updateLeaf K l h = some { t with hashes := hashes } ∧
      Hashed K { t with hashes := hashes } ∅ (fun _ => False) ∧ hashes (.slot a i) = h ∧
      ∀ b j k, t.child b j = some (.leaf k) → k ≠ l → hashes (.slot b j) = t.hashes (.slot b j) := by
  obtain ⟨n, hn, -⟩ := node_of_child hi
  have hset : Hashed K (t.setHash (.slot a i) h) ∅ (Above t.nodes a) := by
    intro b m hb hbD hbX
    have hne : m.hptr ≠ .slot a i := hs.hptr_ne_slot hb hbD hi
    rw [hashes_setHash_ne t hne, computeCurrent_setHash K]
    · exact hh b m hb hbD hbX
    · rintro j heq
      obtain ⟨rfl, -⟩ := HashPtr.slot.inj heq
      exact hbX (.refl _)
  obtain ⟨hashes, hrun, hhashed, hframe⟩ := updateLoop_spec K t.allocated
    (t := t.setHash (.slot a i) h) (hs.withHashes _) hn (Set.notMem_empty _) hset
    (hs.fits.trans_le (Nat.le_add_left ..))
  refine ⟨hashes, ?_, hhashed, ?_, ?_⟩
  · simp only [updateLeaf, hl, Option.bind_eq_bind, Option.bind_some]
    exact hrun
  · exact (hframe _ fun b m hb hbD => hs.hptr_ne_slot hb hbD hi).trans (hashes_setHash_self ..)
  · intro b j k hk hkl
    refine (hframe _ fun b m hb hbD => hs.hptr_ne_slot hb hbD hk).trans (hashes_setHash_ne t ?_ h)
    rintro heq
    obtain ⟨rfl, rfl⟩ := HashPtr.slot.inj heq
    exact hkl (Part.leaf.inj (Option.some.inj (hk.symm.trans hi)))

theorem represents_update {h₀ : Hash} (hr : Represents K t level m) (hl : m l = some (some h₀))
    (h : Hash) : ∃ t', t.updateLeaf K l h = some t' ∧
      Represents K t' level (update m l (some (some h))) := by
  have hheld := hr.leaves l
  rw [hl] at hheld
  obtain ⟨a, c, hleaf, -⟩ := hheld
  obtain ⟨i, rfl, hi⟩ := hr.shape.slot_of_leaf hleaf
  obtain ⟨hashes, hrun, hhashed, hset, hframe⟩ := updateLeaf_spec hr.shape hleaf hi
    (fun b n hb hbD _ => hr.hashed b n hb hbD not_false) h
  refine ⟨_, hrun, hr.shape.withHashes hashes, hhashed, hr.pruned, fun k => ?_⟩
  by_cases hk : k = l
  · subst hk
    rw [update_self]
    exact ⟨a, _, hleaf, hset⟩
  · rw [update_of_ne hk]
    refine (hr.leaves k).congr rfl fun b c hleaf' => ?_
    obtain ⟨j, rfl, hj⟩ := hr.shape.slot_of_leaf hleaf'
    exact hframe b j k hj hk

theorem parentOf_setLeaf_ne (t : Tree N Hash) {r : Part} (h : r ≠ .leaf l) (o : Option (Leaf N)) :
    (t.setLeaf l o).parentOf r = t.parentOf r := by
  cases r with
  | leaf k => rw [parentOf, leaves_setLeaf_ne t fun hk => h (congrArg _ hk), parentOf]
  | node b => rfl

theorem hptrOf_setLeaf_ne (t : Tree N Hash) {r : Part} (h : r ≠ .leaf l) (o : Option (Leaf N)) :
    (t.setLeaf l o).hptrOf r = t.hptrOf r := by
  cases r with
  | leaf k => rw [hptrOf, leaves_setLeaf_ne t fun hk => h (congrArg _ hk), hptrOf]
  | node b => rfl

theorem parentOf_of_leaf {f : Leaf N} (h : t.leaves l = some f) :
    t.parentOf (.leaf l) = some f.parent := by
  rw [parentOf, h]
  rfl

theorem hptrOf_of_leaf {f : Leaf N} (h : t.leaves l = some f) : t.hptrOf (.leaf l) = f.hptr := by
  rw [hptrOf, h]
  rfl

def addLeaf (t : Tree N Hash) (p : Addr) (n : Node N) (j : Fin N) (l : LeafId) : Tree N Hash :=
  (t.setNode p (some (n.setChild j (some (.leaf l))))).setLeaf l
    (some { parent := some p, hptr := some (.slot p j) })

theorem leaves_addLeaf_self (t : Tree N Hash) (p : Addr) (n : Node N) (j : Fin N) (l : LeafId) :
    (addLeaf t p n j l).leaves l = some { parent := some p, hptr := some (.slot p j) } :=
  leaves_setLeaf_self ..

theorem attached_addLeaf {j : Fin N} (hp : t.nodes p = some n) :
    Attached t (addLeaf t p n j l) p j (.leaf l) where
  child := child_setChild hp _
  parent r hr := (parentOf_setLeaf_ne _ hr _).trans (parentOf_setChild hp _ r)
  hptr r hr := (hptrOf_setLeaf_ne _ hr _).trans (hptrOf_setChild hp _ r)
  parent_new := parentOf_of_leaf (leaves_addLeaf_self ..)
  hptr_new := hptrOf_of_leaf (leaves_addLeaf_self ..)
  root := rfl
  curr := rfl
  allocated := le_rfl
  new_lt := nofun
  nodes _ _ hm :=
    have ⟨m', hm', _, _, hr, hc⟩ := nodes_setChild hp _ hm
    .inr ⟨m', hm', hr, hc⟩

/-- `Leaf(Tree*)`, and the `Update` that has to follow. -/
theorem represents_create (hN : 2 ≤ N) (hr : Represents K t level m) (hl : m l = none) (h : Hash) :
    ∃ t₁ t' level', t.newLeaf K l = some t₁ ∧ t₁.updateLeaf K l h = some t' ∧
      Represents K t' level' (update m l (some (some h))) := by
  obtain ⟨t₁, level', hcurrent, hroom, hg⟩ := currentWithSpace_spec hN hr.shape hr.hashed hr.pruned
  obtain ⟨n, hn, hspace⟩ := hroom.space
  obtain ⟨j, hj, hinsert⟩ := insertPart_spec hn hspace (.leaf l)
  have hheld := hr.leaves l
  rw [hl] at hheld
  have hfree : t₁.child t₁.curr j = none := (child_of_node hn j).trans hj
  have hat := attached_addLeaf (l := l) (j := j) hn
  have hshape : Shape (addLeaf t₁ t₁.curr n j l) level' ∅ :=
    hroom.shape.attach hat (Set.notMem_empty _) hroom.shape.curr_live hfree
      (by rw [parentOf, hg.leaves, hheld]; rfl) (Set.notMem_empty _) (fun _ _ => rfl)
      hroom.shape.curr_level
  have hhashed : Hashed K (addLeaf t₁ t₁.curr n j l) ∅
      (Above (addLeaf t₁ t₁.curr n j l).nodes t₁.curr) := by
    intro b m hb hbD hbX
    obtain ⟨m', hm', -, hptr, -, -⟩ := nodes_setChild hn _ hb
    rw [hptr]
    refine hroom.hashed b m' hm' hbD fun habove => hbX (habove.mono fun a p hp => ?_)
    exact (hat.parent (.node a) (by rintro ⟨⟩)).trans hp
  obtain ⟨hashes, hrun, hhashed', hset, hframe⟩ := updateLeaf_spec hshape (leaves_addLeaf_self ..)
    ((hat.child ..).trans (if_pos ⟨rfl, rfl⟩)) hhashed h
  refine ⟨addLeaf t₁ t₁.curr n j l, _, level', ?_, hrun, hshape.withHashes hashes, hhashed', ?_, ?_⟩
  · simp only [newLeaf, hcurrent, hinsert, Option.bind_eq_bind, Option.bind_some]
    rfl
  · intro b hbD hb hchildren
    have hlive : (t₁.nodes b).isSome := by
      rw [isSome_nodes, ← hat.parent (.node b) (by rintro ⟨⟩)]
      exact isSome_nodes.mp hb
    refine hroom.pruned b hbD hlive fun i => ?_
    by_contra hne
    have hchild := (hat.child b i).symm.trans (hchildren i)
    split_ifs at hchild
    exact hne hchild
  · intro k
    by_cases hk : k = l
    · subst hk
      rw [update_self]
      exact ⟨t₁.curr, _, leaves_addLeaf_self .., hset⟩
    · rw [update_of_ne hk]
      have hleaf : (addLeaf t₁ t₁.curr n j l).leaves k = t.leaves k :=
        (leaves_setLeaf_ne _ hk _).trans (congrFun hg.leaves k)
      refine (hr.leaves k).congr hleaf fun b c hleaf' => ?_
      obtain ⟨i, rfl, hi⟩ := hr.shape.slot_of_leaf hleaf'
      obtain ⟨nb, hnb, -⟩ := node_of_child hi
      -- the slot of another leaf was there before, and has not been touched
      have hi' : (addLeaf t₁ t₁.curr n j l).child b i = some (.leaf k) := by
        refine (hat.child b i).trans ((if_neg ?_).trans (hg.child b i _ hi))
        rintro ⟨rfl, rfl⟩
        cases (hg.child _ _ _ hi).symm.trans hfree
      exact (hframe b i k hi' hk).trans
        (hg.slots b i (hr.shape.lt_allocated b (by rw [hnb]; rfl)))

/-- A leaf that has been moved away is not in the tree any more. -/
theorem Shape.moved (hs : Shape t level ∅) (hl : t.parentOf (.leaf l) = some none) :
    Shape t level (insert (.leaf l) ∅) := by
  have hmem : ∀ {r : Part}, r ∉ insert (.leaf l) (∅ : Set Part) ↔ r ≠ .leaf l := by simp
  exact
    { hs with
      down := fun a i q _ hq =>
        have ⟨_, hparent, hrest⟩ := hs.down a i q (Set.notMem_empty _) hq
        ⟨hmem.mpr (by rintro rfl; exact absurd (hl.symm.trans hparent) nofun), hparent, hrest⟩
      up := fun q a _ hparent =>
        ⟨hmem.mpr nofun, (hs.up q a (Set.notMem_empty _) hparent).2⟩
      top := fun a _ => hs.top a (Set.notMem_empty _)
      root_mem := hmem.mpr nofun
      curr_mem := hmem.mpr nofun
      le_root := fun a _ => hs.le_root a (Set.notMem_empty _)
      flags := fun a n _ => hs.flags a n (Set.notMem_empty _) }

theorem represents_destroy {v : Option Hash} (hr : Represents K t level m) (hl : m l = some v) :
    ∃ t', t.destroyLeaf K l = some t' ∧ Represents K t' level (update m l none) := by
  have hheld := hr.leaves l
  rw [hl] at hheld
  cases v with
  | none =>
    have hparent : t.parentOf (.leaf l) = some none := parentOf_of_leaf hheld
    refine ⟨t.free (.leaf l), ?_, (hr.shape.moved hparent).free, hr.hashed, hr.pruned, fun k => ?_⟩
    · simp only [destroyLeaf, destroyLoop, hparent, Option.bind_eq_bind, Option.bind_some]
    · by_cases hk : k = l
      · subst hk
        rw [update_self]
        exact leaves_setLeaf_self ..
      · rw [update_of_ne hk]
        exact (hr.leaves k).congr (leaves_setLeaf_ne t hk _) fun _ _ _ => rfl
  | some h =>
    obtain ⟨a, c, hleaf, -⟩ := hheld
    obtain ⟨i, rfl, hi⟩ := hr.shape.slot_of_leaf hleaf
    obtain ⟨t', hrun, hshape, hhashed, hpruned, hgone, hkept⟩ :=
      destroyLoop_spec (K := K) (q := .leaf l) (p := a) (t.allocated + 1) hr.shape hr.hashed
        (fun b hbD hb hchildren => (hr.pruned b hbD hb hchildren).imp_right (.imp_right False.elim))
        (Set.notMem_empty _) (parentOf_of_leaf hleaf) (by rintro _ ⟨⟩) (by rintro ⟨⟩)
        (hr.shape.fits.trans (by rw [rank]; omega))
    refine ⟨t', hrun, hshape, hhashed, hpruned, fun k => ?_⟩
    by_cases hk : k = l
    · subst hk
      rw [update_self]
      exact Option.map_eq_none_iff.mp hgone
    · rw [update_of_ne hk]
      have hne : Part.leaf k ≠ .leaf l := fun h => hk (Part.leaf.inj h)
      refine (hr.leaves k).congr (hkept.leaves k hne) fun b c hleaf' => ?_
      exact hkept.hashes k _ b c hne (Set.notMem_empty _) hleaf' rfl rfl

/-- The leaf `target` is in the place of `source`, which has been moved away. -/
structure Moved (t t' : Tree N Hash) (a : Addr) (i : Fin N) (source target : LeafId) : Prop where
  child : ∀ b k, t'.child b k = if b = a ∧ k = i then some (.leaf target) else t.child b k
  parent : ∀ r, r ≠ .leaf source → r ≠ .leaf target → t'.parentOf r = t.parentOf r
  hptr : ∀ r, r ≠ .leaf source → r ≠ .leaf target → t'.hptrOf r = t.hptrOf r
  parent_source : t'.parentOf (.leaf source) = some none
  parent_target : t'.parentOf (.leaf target) = some (some a)
  hptr_target : t'.hptrOf (.leaf target) = some (.slot a i)
  root : t'.root = t.root
  curr : t'.curr = t.curr
  allocated : t'.allocated = t.allocated
  nodes : ∀ b m, t'.nodes b = some m →
    ∃ n, t.nodes b = some n ∧ m.hptr = n.hptr ∧ m.isRoot = n.isRoot ∧ m.isCurr = n.isCurr

theorem Moved.isSome_nodes_iff {i : Fin N} {source target : LeafId}
    (h : Moved t t' a i source target) : (t'.nodes b).isSome ↔ (t.nodes b).isSome := by
  rw [isSome_nodes, isSome_nodes, h.parent (.node b) nofun nofun]

theorem Shape.move {i : Fin N} {source target : LeafId} (hs : Shape t level ∅)
    (h : Moved t t' a i source target) (hi : t.child a i = some (.leaf source))
    (htarget : t.parentOf (.leaf target) = none) : Shape t' level ∅ := by
  obtain ⟨-, -, hsptr, hslevel⟩ := hs.down a i _ (Set.notMem_empty _) hi
  constructor
  case down =>
    intro b k q _ hq
    rw [h.child] at hq
    split_ifs at hq with hbk
    · obtain ⟨rfl, rfl⟩ := hbk
      obtain rfl := Option.some.inj hq
      exact ⟨Set.notMem_empty _, h.parent_target, h.hptr_target, hslevel⟩
    · obtain ⟨-, hparent, hptr, hlevel⟩ := hs.down b k q (Set.notMem_empty _) hq
      have hqs : q ≠ .leaf source := by
        rintro rfl
        obtain ⟨rfl, rfl⟩ := HashPtr.slot.inj (Option.some.inj (hptr.symm.trans hsptr))
        exact hbk ⟨rfl, rfl⟩
      have hqt : q ≠ .leaf target := by
        rintro rfl
        exact absurd (htarget.symm.trans hparent) nofun
      exact ⟨Set.notMem_empty _, (h.parent q hqs hqt).trans hparent,
        (h.hptr q hqs hqt).trans hptr, hlevel⟩
  case up =>
    intro q b _ hparent
    refine ⟨Set.notMem_empty _, ?_⟩
    by_cases hqt : q = .leaf target
    · subst hqt
      obtain rfl := Option.some.inj (Option.some.inj (h.parent_target.symm.trans hparent))
      exact ⟨i, (h.child a i).trans (if_pos ⟨rfl, rfl⟩)⟩
    · have hqs : q ≠ .leaf source := by
        rintro rfl
        exact absurd (h.parent_source.symm.trans hparent) nofun
      rw [h.parent q hqs hqt] at hparent
      obtain ⟨-, k, hk⟩ := hs.up q b (Set.notMem_empty _) hparent
      refine ⟨k, (h.child b k).trans ((if_neg ?_).trans hk)⟩
      rintro ⟨rfl, rfl⟩
      exact hqs (Option.some.inj (hk.symm.trans hi))
  case top =>
    intro b hb hparent
    rw [h.root]
    exact hs.top b hb ((h.parent (.node b) nofun nofun).symm.trans hparent)
  case root_mem => exact Set.notMem_empty _
  case root_parent => exact h.root.symm ▸ (h.parent (.node _) nofun nofun).trans hs.root_parent
  case root_hptr => exact h.root.symm ▸ (h.hptr (.node _) nofun nofun).trans hs.root_hptr
  case curr_mem => exact Set.notMem_empty _
  case curr_live => exact h.curr.symm ▸ h.isSome_nodes_iff.mpr hs.curr_live
  case curr_level => exact h.curr.symm ▸ hs.curr_level
  case le_root =>
    exact fun b hb hlive => h.root.symm ▸ hs.le_root b hb (h.isSome_nodes_iff.mp hlive)
  case lt_allocated =>
    exact fun b hlive => h.allocated.symm ▸ hs.lt_allocated b (h.isSome_nodes_iff.mp hlive)
  case fits => exact h.root.symm ▸ h.allocated.symm ▸ hs.fits
  case flags =>
    intro b m hb hm
    obtain ⟨n, hn, -, hr, hc⟩ := h.nodes b m hm
    rw [h.root, h.curr, hr, hc]
    exact hs.flags b n hb hn

/-- `Leaf(Leaf&&)`: the new object takes the slot of the old one. -/
theorem represents_move {source target : LeafId} {h : Hash} (hr : Represents K t level m)
    (hsource : m source = some (some h)) (htarget : m target = none) :
    ∃ t', t.moveLeaf source target = some t' ∧
      Represents K t' level (update (update m target (some (some h))) source (some none)) := by
  have hheld := hr.leaves source
  have hnone := hr.leaves target
  rw [hsource] at hheld
  rw [htarget] at hnone
  have hne : source ≠ target := by
    rintro rfl
    rw [hsource] at htarget
    cases htarget
  obtain ⟨a, c, hleaf, hc⟩ := hheld
  obtain ⟨i, rfl, hi⟩ := hr.shape.slot_of_leaf hleaf
  obtain ⟨n, hn, hni⟩ := node_of_child hi
  obtain ⟨j, hslot, hj⟩ := Node.slotOf_eq_some ⟨i, hni⟩
  obtain rfl : j = i := by
    obtain ⟨-, -, hptr, -⟩ :=
      hr.shape.down a j _ (Set.notMem_empty _) ((child_of_node hn j).trans hj)
    rw [hptrOf_of_leaf hleaf] at hptr
    exact (HashPtr.slot.inj (Option.some.inj hptr)).2.symm
  have hmoved : Moved t ((addLeaf t a n j target).setLeaf source
      (some { parent := none, hptr := none })) a j source target :=
    { child := child_setChild hn _
      parent := fun r hrs hrt => (parentOf_setLeaf_ne _ hrs _).trans
        ((parentOf_setLeaf_ne _ hrt _).trans (parentOf_setChild hn _ r))
      hptr := fun r hrs hrt => (hptrOf_setLeaf_ne _ hrs _).trans
        ((hptrOf_setLeaf_ne _ hrt _).trans (hptrOf_setChild hn _ r))
      parent_source := parentOf_of_leaf (leaves_setLeaf_self ..)
      parent_target := (parentOf_setLeaf_ne _ (fun h => hne (Part.leaf.inj h).symm) _).trans
        (parentOf_of_leaf (leaves_addLeaf_self ..))
      hptr_target := (hptrOf_setLeaf_ne _ (fun h => hne (Part.leaf.inj h).symm) _).trans
        (hptrOf_of_leaf (leaves_addLeaf_self ..))
      root := rfl
      curr := rfl
      allocated := rfl
      nodes := fun b m hm =>
        have ⟨n', hn', _, hptr, hroot, hcurr⟩ := nodes_setChild hn _ hm
        ⟨n', hn', hptr, hroot, hcurr⟩ }
  refine ⟨(addLeaf t a n j target).setLeaf source (some { parent := none, hptr := none }), ?_,
    hr.shape.move hmoved hi ?_, ?_, ?_, ?_⟩
  · simp [moveLeaf, replacePart, hleaf, hn, hslot, addLeaf]
  · rw [parentOf, hnone]
    rfl
  · intro b m' hb hbD _
    obtain ⟨n', hn', hptr, -, -⟩ := hmoved.nodes b m' hb
    rw [hptr]
    exact hr.hashed b n' hn' hbD not_false
  · intro b hbD hb hchildren
    refine hr.pruned b hbD (hmoved.isSome_nodes_iff.mp hb) fun k => ?_
    have hchild := (hmoved.child b k).symm.trans (hchildren k)
    split_ifs at hchild
    exact hchild
  · intro k
    by_cases hks : k = source
    · subst hks
      rw [update_self]
      exact leaves_setLeaf_self ..
    rw [update_of_ne hks]
    by_cases hkt : k = target
    · subst hkt
      rw [update_self]
      exact ⟨a, .slot a j, (leaves_setLeaf_ne _ hks _).trans (leaves_addLeaf_self ..), hc⟩
    · rw [update_of_ne hkt]
      exact (hr.leaves k).congr ((leaves_setLeaf_ne _ hks _).trans (leaves_setLeaf_ne _ hkt _))
        fun _ _ _ => rfl

/-! ### Runs -/

/-- A tree of one node, before its hash has been set. -/
def bare (K : Hasher N Hash) : Tree N Hash where
  root := 0
  curr := 0
  nodes a := if a = 0 then some { parent := none, hptr := .roothash, children := fun _ => none
                                  isRoot := true, isCurr := true } else none
  leaves _ := none
  hashes _ := K.zero
  allocated := 1

theorem eq_zero_of_bare (h : (bare K).nodes a = some n) : a = 0 := by
  by_contra ha
  exact absurd ((if_neg ha).symm.trans h) nofun

theorem child_bare (a : Addr) (i : Fin N) : (bare K).child a i = none := by
  cases hn : (bare K).nodes a with
  | none =>
    rw [child, hn]
    rfl
  | some n =>
    obtain rfl := eq_zero_of_bare hn
    rfl

theorem parentOf_bare {q : Part} {o : Option Addr} (h : (bare K).parentOf q = some o) :
    q = .node 0 ∧ o = none := by
  cases q with
  | leaf l => cases h
  | node a =>
    obtain ⟨n, hn, rfl⟩ := node_of_parentOf h
    obtain rfl := eq_zero_of_bare hn
    obtain rfl := Option.some.inj hn
    exact ⟨rfl, rfl⟩

theorem shape_bare (K : Hasher N Hash) : Shape (bare K) (fun _ => 0) ∅ where
  down a i q _ hq := absurd ((child_bare a i).symm.trans hq) nofun
  up q a _ hp := absurd (parentOf_bare hp).2 nofun
  top a _ hp := Part.node.inj (parentOf_bare hp).1
  root_mem := Set.notMem_empty _
  root_parent := rfl
  root_hptr := rfl
  curr_mem := Set.notMem_empty _
  curr_live := rfl
  curr_level := rfl
  le_root _ _ _ := le_rfl
  lt_allocated a ha := by
    obtain ⟨n, hn⟩ := Option.isSome_iff_exists.mp ha
    rw [eq_zero_of_bare hn]
    exact Nat.one_pos
  fits := Nat.one_pos
  flags a n _ hn := by
    obtain rfl := eq_zero_of_bare hn
    obtain rfl := Option.some.inj hn
    exact ⟨iff_of_true rfl rfl, iff_of_true rfl rfl⟩

theorem represents_new (K : Hasher N Hash) :
    ∃ t level, Tree.new K = some t ∧ Represents K t level fun _ => none := by
  have habove : (bare K).Hashed K ∅ (Above (bare K).nodes 0) := by
    intro a n hn _ hX
    exact absurd (eq_zero_of_bare hn ▸ Above.refl _) hX
  obtain ⟨hashes, hrun, hhashed, -⟩ := updateLoop_spec K 1 (shape_bare K) rfl (Set.notMem_empty _)
    habove Nat.one_pos
  refine ⟨_, fun _ => 0, hrun, (shape_bare K).withHashes hashes, hhashed, ?_, fun l => rfl⟩
  intro a _ ha _
  obtain ⟨n, hn⟩ := Option.isSome_iff_exists.mp ha
  exact .inl (eq_zero_of_bare (K := K) hn)

theorem represents_apply (hN : 2 ≤ N) (hr : Represents K t level m) {op : Op Hash}
    {m' : Values Hash} (hm : m.apply op = some m') :
    ∃ t' level', t.apply K op = some t' ∧ Represents K t' level' m' := by
  cases op with
  | create l h =>
    simp only [Values.apply] at hm
    split_ifs at hm with hl
    obtain rfl := Option.some.inj hm
    obtain ⟨t₁, t', level', hnew, hupdate, hr'⟩ :=
      represents_create hN hr (Option.isNone_iff_eq_none.mp hl) h
    refine ⟨t', level', ?_, hr'⟩
    simp only [Tree.apply, hnew, Option.bind_eq_bind, Option.bind_some, hupdate]
  | update l h =>
    simp only [Values.apply] at hm
    split at hm
    · next h₀ hl =>
      obtain rfl := Option.some.inj hm
      obtain ⟨t', hupdate, hr'⟩ := represents_update hr hl h
      exact ⟨t', level, hupdate, hr'⟩
    · cases hm
  | move source target =>
    simp only [Values.apply] at hm
    split at hm
    · next h hsource =>
      split_ifs at hm with htarget
      obtain rfl := Option.some.inj hm
      obtain ⟨t', hmove, hr'⟩ :=
        represents_move hr hsource (Option.isNone_iff_eq_none.mp htarget)
      exact ⟨t', level, hmove, hr'⟩
    · cases hm
  | destroy l =>
    simp only [Values.apply] at hm
    split_ifs at hm with hl
    obtain rfl := Option.some.inj hm
    obtain ⟨v, hv⟩ := Option.isSome_iff_exists.mp hl
    obtain ⟨t', hdestroy, hr'⟩ := represents_destroy hr hv
    exact ⟨t', level, hdestroy, hr'⟩

theorem represents_foldlM (hN : 2 ≤ N) {ops : List (Op Hash)} {m' : Values Hash}
    (hr : Represents K t level m) (hm : ops.foldlM Values.apply m = some m') :
    ∃ t' level', ops.foldlM (Tree.apply K) t = some t' ∧ Represents K t' level' m' := by
  induction ops generalizing t level m with
  | nil =>
    cases hm
    exact ⟨t, level, rfl, hr⟩
  | cons op ops ih =>
    rw [List.foldlM_cons] at hm
    obtain ⟨m₁, hop, hm⟩ := Option.bind_eq_some_iff.mp hm
    obtain ⟨t₁, level₁, hop', hr₁⟩ := represents_apply hN hr hop
    obtain ⟨t', level', hrest, hr'⟩ := ih hr₁ hm
    refine ⟨t', level', ?_, hr'⟩
    rw [List.foldlM_cons, hop']
    exact hrest

/-- Every run that the lifetimes of the leaves allow succeeds, and ends in a tree for the leaves. -/
theorem represents_run (hN : 2 ≤ N) (K : Hasher N Hash) {ops : List (Op Hash)} {m : Values Hash}
    (hm : Values.run ops = some m) :
    ∃ t level, Tree.run K ops = some t ∧ Represents K t level m := by
  obtain ⟨t₀, level₀, hnew, hr₀⟩ := represents_new K
  obtain ⟨t, level, hops, hr⟩ := represents_foldlM hN hr₀ hm
  refine ⟨t, level, ?_, hr⟩
  rw [Tree.run, hnew]
  exact hops

/-! ### Paths -/

def path (t : Tree N Hash) : Nat → Addr → Option (List Addr)
  | 0, _ => none
  | fuel + 1, a => do
    let n ← t.nodes a
    match n.parent with
    | none => some [a]
    | some p => do
      let as ← path t fuel p
      some (a :: as)

theorem path_spec (hs : Shape t level ∅) (fuel : Nat) (ha : t.nodes a = some n)
    (hfuel : level t.root < level a + fuel) :
    ∃ as, t.path fuel a = some as ∧ level a + as.length = level t.root + 1 ∧
      as.getLast? = some t.root ∧ ∀ b, b ∈ as ↔ Above t.nodes a b := by
  induction fuel generalizing a n with
  | zero =>
    have := hs.le_root a (Set.notMem_empty _) (by rw [ha]; rfl)
    omega
  | succ fuel ih =>
    simp only [path, ha, Option.bind_eq_bind, Option.bind_some]
    rcases hs.node_cases ha (Set.notMem_empty _) with
      ⟨rfl, hparent, -⟩ | ⟨-, p, i, hparent, -, hi, -, hlevel⟩
    · rw [hparent]
      refine ⟨[t.root], rfl, rfl, rfl, fun b => ?_⟩
      rw [List.mem_singleton]
      constructor
      · rintro rfl
        exact .refl _
      · rintro (_ | ⟨ha', hp', -⟩)
        · rfl
        · obtain rfl := Option.some.inj (ha.symm.trans ha')
          exact absurd (hparent.symm.trans hp') nofun
    · obtain ⟨np, hnp, -⟩ := node_of_child hi
      obtain ⟨as, has, hlength, hlast, hmem⟩ := ih hnp (by omega)
      rw [hparent]
      refine ⟨a :: as, Option.bind_eq_some_iff.mpr ⟨as, has, rfl⟩, by rw [List.length_cons]; omega, ?_, fun b => ?_⟩
      · cases as with
        | nil => cases hlast
        | cons c cs => exact hlast
      · rw [List.mem_cons, hmem]
        constructor
        · rintro (rfl | habove)
          · exact .refl _
          · exact .step ha hparent habove
        · rintro (_ | ⟨ha', hp', habove⟩)
          · exact .inl rfl
          · obtain rfl := Option.some.inj (ha.symm.trans ha')
            obtain rfl := Option.some.inj (hparent.symm.trans hp')
            exact .inr habove

theorem Above.snoc (h : Above t.nodes a b) (hb : t.nodes b = some n) (hp : n.parent = some p) :
    Above t.nodes a p := by
  induction h with
  | refl => exact .step hb hp (.refl p)
  | step ha hp' _ ih => exact .step ha hp' (ih hb)

/-- Without leaves every node is on the path from the current node to the root. -/
theorem above_curr_of_no_leaf (hs : Shape t level ∅) (hprune : t.Pruned ∅ fun _ => False)
    (hleaf : ∀ a i l, t.child a i ≠ some (.leaf l)) (ha : (t.nodes a).isSome) :
    Above t.nodes t.curr a := by
  obtain ⟨nc, hnc⟩ := Option.isSome_iff_exists.mp hs.curr_live
  obtain ⟨as, -, -, hlast, hmem⟩ := path_spec hs (level t.root + 1) hnc (by omega)
  have hroot : Above t.nodes t.curr t.root := (hmem _).mp (List.mem_of_getLast? hlast)
  -- from the bottom up: a node has a child, which is on the path, or is one of its ends
  induction hk : level a using Nat.strong_induction_on generalizing a with
  | _ k ih =>
    by_cases hempty : ∀ i, t.child a i = none
    · rcases hprune a (Set.notMem_empty _) ha hempty with rfl | rfl | h
      · exact hroot
      · exact .refl _
      · exact h.elim
    · obtain ⟨i, hi⟩ := not_forall.mp hempty
      obtain ⟨q, hq⟩ := Option.ne_none_iff_exists'.mp hi
      obtain ⟨-, hparent, -, hlevel⟩ := hs.down a i q (Set.notMem_empty _) hq
      cases q with
      | leaf l => exact absurd hq (hleaf a i l)
      | node b =>
        obtain ⟨nb, hnb, hpb⟩ := node_of_parentOf hparent
        have hlt : level b < k := by
          rw [← hk, hlevel]
          exact Nat.lt_succ_self _
        exact (ih (level b) hlt (by rw [hnb]; rfl) rfl).snoc hnb hpb

/-! ### Pointers -/

def live (t : Tree N Hash) (q : Part) : Prop := (t.parentOf q).isSome

/-- No pointer from the tree or from a part of it that is alive leads to one that has been
    freed. -/
structure Closed (t : Tree N Hash) : Prop where
  root : t.live (.node t.root)
  curr : t.live (.node t.curr)
  child : ∀ a i q, t.child a i = some q → t.live q
  parent : ∀ q a, t.parentOf q = some (some a) → t.live (.node a)
  hptr : ∀ q a i, t.hptrOf q = some (.slot a i) → t.live (.node a)

theorem live_node_iff : t.live (.node a) ↔ (t.nodes a).isSome := by
  rw [live, parentOf, Option.isSome_map]

theorem live_of_child {i : Fin N} {q : Part} (h : t.child a i = some q) : t.live (.node a) := by
  obtain ⟨n, hn, -⟩ := node_of_child h
  rw [live_node_iff, hn]
  rfl

theorem Closed.live_of_above (h : Closed t) (hab : Above t.nodes a b) (ha : t.live (.node a)) :
    t.live (.node b) := by
  induction hab with
  | refl => exact ha
  | step hn hp _ ih => exact ih (h.parent _ _ ((parentOf_node hn).trans (congrArg some hp)))

theorem Represents.closed (hr : Represents K t level m) : Closed t := by
  have hs := hr.shape
  constructor
  case root =>
    rw [live, hs.root_parent]
    rfl
  case curr => exact live_node_iff.mpr hs.curr_live
  case child =>
    intro a i q hq
    rw [live, (hs.down a i q (Set.notMem_empty _) hq).2.1]
    rfl
  case parent =>
    intro q a hq
    obtain ⟨-, i, hi⟩ := hs.up q a (Set.notMem_empty _) hq
    exact live_of_child hi
  case hptr =>
    intro q a i hq
    cases q with
    | node b =>
      obtain ⟨n, hn, hptr⟩ := Option.map_eq_some_iff.mp hq
      rcases hs.node_cases hn (Set.notMem_empty _) with ⟨-, -, hroot⟩ | ⟨-, p, j, -, hslot, hj, -⟩
      · exact absurd (hroot.symm.trans hptr) nofun
      · obtain ⟨rfl, rfl⟩ := HashPtr.slot.inj (hslot.symm.trans hptr)
        exact live_of_child hj
    | leaf l =>
      have hheld := hr.leaves l
      match m l, hheld with
      | none, h =>
        rw [hptrOf, h] at hq
        cases hq
      | some none, h =>
        rw [hptrOf_of_leaf h] at hq
        cases hq
      | some (some _), ⟨b, c, h, _⟩ =>
        obtain ⟨j, rfl, hj⟩ := hs.slot_of_leaf h
        rw [hptrOf_of_leaf h] at hq
        obtain ⟨rfl, rfl⟩ := HashPtr.slot.inj (Option.some.inj hq)
        exact live_of_child hj

/-! ### Verification -/

section Verify

variable [DecidableEq Hash]

theorem verifyLoop_ok (hs : Shape t level ∅) (hh : t.Hashed K ∅ fun _ => False) (fuel : Nat)
    (ha : t.nodes a = some n) (hfuel : level t.root < level a + fuel) :
    t.verifyLoop K fuel (some a) = some .ok := by
  induction fuel generalizing a n with
  | zero =>
    have := hs.le_root a (Set.notMem_empty _) (by rw [ha]; rfl)
    omega
  | succ fuel ih =>
    have hhash := hh a n ha (Set.notMem_empty _) not_false
    simp only [verifyLoop, ha, Option.bind_eq_bind, Option.bind_some, hhash, ne_eq, not_true,
      if_false]
    rcases hs.node_cases ha (Set.notMem_empty _) with
      ⟨-, hparent, -⟩ | ⟨-, p, i, hparent, -, hi, -, hlevel⟩
    · rw [hparent, verifyLoop]
    · obtain ⟨np, hnp, -⟩ := node_of_child hi
      rw [hparent]
      exact ih hnp (by omega)

theorem Represents.verify_ok_iff (hr : Represents K t level m) {h : Hash}
    (hl : m l = some (some h)) (h' : Hash) : t.verify K l h' = some .ok ↔ h' = h := by
  have hheld := hr.leaves l
  rw [hl] at hheld
  obtain ⟨a, c, hleaf, rfl⟩ := hheld
  obtain ⟨i, rfl, hi⟩ := hr.shape.slot_of_leaf hleaf
  obtain ⟨n, hn, -⟩ := node_of_child hi
  have hloop := verifyLoop_ok hr.shape hr.hashed t.allocated hn
    (hr.shape.fits.trans_le (Nat.le_add_left ..))
  simp only [verify, hleaf, Option.bind_eq_bind, Option.bind_some, hloop]
  split_ifs with hne
  · exact iff_of_false nofun hne
  · exact iff_of_true rfl (not_not.mp hne)

end Verify

theorem Represents.depth (hr : Represents K t level m) {h : Hash} (hl : m l = some (some h)) :
    ∃ a c as, t.leaves l = some { parent := some a, hptr := some c } ∧
      t.path t.allocated a = some as ∧ as.length = level t.root + 1 ∧
      as.getLast? = some t.root := by
  have hheld := hr.leaves l
  rw [hl] at hheld
  obtain ⟨a, c, hleaf, -⟩ := hheld
  obtain ⟨i, rfl, hi⟩ := hr.shape.slot_of_leaf hleaf
  obtain ⟨n, hn, -⟩ := node_of_child hi
  obtain ⟨-, -, -, hlevel⟩ := hr.shape.down a i _ (Set.notMem_empty _) hi
  obtain ⟨as, has, hlength, hlast, -⟩ := path_spec hr.shape t.allocated hn
    (hr.shape.fits.trans_le (Nat.le_add_left ..))
  refine ⟨a, _, as, hleaf, has, ?_, hlast⟩
  rw [hlevel, rank] at hlength
  omega

theorem Represents.no_leaf (hr : Represents K t level m) (hl : ∀ l h, m l ≠ some (some h))
    (a : Addr) (i : Fin N) (l : LeafId) : t.child a i ≠ some (.leaf l) := by
  intro hi
  obtain ⟨-, hparent, -, -⟩ := hr.shape.down a i _ (Set.notMem_empty _) hi
  have hheld := hr.leaves l
  match hm : m l, hheld with
  | none, h =>
    rw [parentOf, h] at hparent
    cases hparent
  | some none, h =>
    rw [parentOf_of_leaf h] at hparent
    cases hparent
  | some (some h), _ => exact hl l h hm

/-- Every run succeeds.  After it a leaf verifies exactly with the hash it got last, all leaves
    are as deep as each other, no pointer leads to a part that has been freed, and without leaves
    only the nodes between the current node and the root are left. -/
theorem run_complete [DecidableEq Hash] (hN : 2 ≤ N) (K : Hasher N Hash) (ops : List (Op Hash))
    (m : Values Hash) (hm : Values.run ops = some m) :
    ∃ t, Tree.run K ops = some t ∧
      (∀ l h, m l = some (some h) → ∀ h', t.verify K l h' = some .ok ↔ h' = h) ∧
      (∃ depth, ∀ l h, m l = some (some h) → ∃ a c as,
        t.leaves l = some { parent := some a, hptr := some c } ∧
        t.path t.allocated a = some as ∧ as.length = depth ∧ as.getLast? = some t.root) ∧
      Closed t ∧
      ((∀ l h, m l ≠ some (some h)) → ∃ as, t.path t.allocated t.curr = some as ∧
        as.getLast? = some t.root ∧ ∀ a, t.live (.node a) ↔ a ∈ as) := by
  obtain ⟨t, level, hrun, hr⟩ := represents_run hN K hm
  refine ⟨t, hrun, fun l h hl => hr.verify_ok_iff hl, ⟨level t.root + 1, fun l h hl => hr.depth hl⟩,
    hr.closed, fun hnone => ?_⟩
  obtain ⟨nc, hnc⟩ := Option.isSome_iff_exists.mp hr.shape.curr_live
  obtain ⟨as, has, -, hlast, hmem⟩ := path_spec hr.shape t.allocated hnc
    (hr.shape.fits.trans_le (Nat.le_add_left ..))
  refine ⟨as, has, hlast, fun a => ?_⟩
  rw [hmem]
  constructor
  · intro ha
    exact above_curr_of_no_leaf hr.shape hr.pruned (hr.no_leaf hnone) (live_node_iff.mp ha)
  · intro habove
    exact hr.closed.live_of_above habove hr.closed.curr

def samplePair : Hasher 2 Nat where
  compute f := Nat.pair (f 0) (f 1)
  zero := 0

/-- Three leaves, so that the tree gets a second root; one is moved and one destroyed. -/
def sampleOps : List (Op Nat) :=
  [.create 0 7, .create 1 8, .create 2 9, .update 1 5, .move 0 3, .destroy 0, .destroy 2]

theorem run_complete_sampleOps : ∃ m t, Values.run sampleOps = some m ∧ m 3 = some (some 7) ∧
    Tree.run samplePair sampleOps = some t ∧ ∀ h, t.verify samplePair 3 h = some .ok ↔ h = 7 := by
  obtain ⟨t, hrun, hverify, -⟩ := run_complete le_rfl samplePair sampleOps _ rfl
  exact ⟨_, t, rfl, rfl, hrun, hverify 3 7 rfl⟩

/-! ### Tampering -/

section Tamper

variable [DecidableEq Hash] {hashes : HashPtr N → Hash}

/-- Where the loop of `Verify` accepts the hashes in memory, those in the nodes it has passed are
    the right ones: the root hash fixes the ones in the root, and they fix those below. -/
theorem slots_eq_of_verifyLoop (hK : Injective K.compute) (hs : Shape t level ∅)
    (hh : t.Hashed K ∅ fun _ => False) (hroot : hashes .roothash = t.hashes .roothash)
    (fuel : Nat) (ha : t.nodes a = some n)
    (hok : verifyLoop K { t with hashes := hashes } fuel (some a) = some .ok) (i : Fin N) :
    hashes (.slot a i) = t.hashes (.slot a i) := by
  induction fuel generalizing a n i with
  | zero => cases hok
  | succ fuel ih =>
    simp only [verifyLoop, ha, Option.bind_eq_bind, Option.bind_some] at hok
    split_ifs at hok with hne
    · cases hok
    rw [not_not] at hne
    -- the hash of the node is the right one, so all that went into it are
    have hkey : hashes n.hptr = t.hashes n.hptr := by
      rcases hs.node_cases ha (Set.notMem_empty _) with
        ⟨-, -, hptr⟩ | ⟨-, p, j, hparent, hptr, hj, -, -⟩
      · rw [hptr, hroot]
      · obtain ⟨np, hnp, -⟩ := node_of_child hj
        rw [hparent] at hok
        rw [hptr]
        exact ih hnp hok j
    have hcompute := hne.trans (hkey.trans (hh a n ha (Set.notMem_empty _) not_false))
    exact congrFun (hK hcompute) i

end Tamper

/-- Whatever has been written over the hashes of leaves and nodes, as long as the root hash is
    intact a leaf verifies with no other hash than the one it got last. -/
theorem verify_binding [DecidableEq Hash] (hN : 2 ≤ N) (K : Hasher N Hash)
    (hK : Injective K.compute) (ops : List (Op Hash)) (t : Tree N Hash)
    (ht : Tree.run K ops = some t) (m : Values Hash) (hm : Values.run ops = some m)
    (hashes : HashPtr N → Hash) (hroot : hashes .roothash = t.hashes .roothash) (l : LeafId)
    (h h' : Hash) (hl : m l = some (some h))
    (hok : verify K { t with hashes := hashes } l h' = some .ok) : h' = h := by
  obtain ⟨t', level, hrun, hr⟩ := represents_run hN K hm
  obtain rfl := Option.some.inj (hrun.symm.trans ht)
  have hheld := hr.leaves l
  rw [hl] at hheld
  obtain ⟨a, c, hleaf, rfl⟩ := hheld
  obtain ⟨i, rfl, hi⟩ := hr.shape.slot_of_leaf hleaf
  obtain ⟨n, hn, -⟩ := node_of_child hi
  simp only [verify, hleaf, Option.bind_eq_bind, Option.bind_some] at hok
  split_ifs at hok with hne
  · cases hok
  rw [not_not] at hne
  exact hne.trans (slots_eq_of_verifyLoop hK hr.shape hr.hashed hroot _ hn hok i)

theorem injective_samplePair : Injective samplePair.compute := by
  intro f g hfg
  obtain ⟨h₀, h₁⟩ := Nat.pair_eq_pair.mp hfg
  funext i
  match i with
  | 0 => exact h₀
  | 1 => exact h₁

def sampleTree : Tree 2 Nat := (Tree.run samplePair sampleOps).get rfl

/-- A hash in another branch than that of the leaf has been written over. -/
def sampleTampered : HashPtr 2 → Nat := update sampleTree.hashes (.slot 2 1) 99

theorem verify_binding_sampleTampered :
    verify samplePair { sampleTree with hashes := sampleTampered } 3 7 = some .ok ∧
      ∀ h, verify samplePair { sampleTree with hashes := sampleTampered } 3 h = some .ok → h = 7 :=
  ⟨by decide +kernel, fun h hok =>
    verify_binding le_rfl samplePair injective_samplePair sampleOps sampleTree
      (Option.some_get _).symm _ rfl sampleTampered (by decide +kernel) 3 7 h rfl hok⟩

end Tree

end SVR2.Merkle
