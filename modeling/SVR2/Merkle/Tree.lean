import Mathlib.Data.List.FinRange
import Mathlib.Logic.Function.Basic
import SVR2.Basic

/-!
# The Merkle tree of the in-memory databases

`merkle/merkle.cc`: a tree of nodes with `N` children each, whose leaves live in the rows of a
database.  Objects have addresses; a node or leaf that has been deleted has none, and following a
pointer to it, like a failed `CHECK`, ends the call with `none`.  Hashes lie in memory cells of
their own, to which the parts of the tree point.
-/

namespace SVR2.Merkle

abbrev Addr := Nat

abbrev LeafId := Nat

/-- A `Hash*`: `roothash_` of the tree, or `hashes_[i]` of a node. -/
inductive HashPtr (N : Nat) where
  | roothash
  | slot (a : Addr) (i : Fin N)
deriving DecidableEq

inductive Part where
  | node (a : Addr)
  | leaf (l : LeafId)
deriving DecidableEq

/-- `Node`, without its hashes. -/
structure Node (N : Nat) where
  parent : Option Addr
  hptr : HashPtr N
  children : Fin N → Option Part
  isRoot : Bool := false
  isCurr : Bool := false

/-- `Leaf`; both pointers are null once the leaf has been moved away. -/
structure Leaf (N : Nat) where
  parent : Option Addr
  hptr : Option (HashPtr N)

/-- The keyed hash of a node's `N` hashes, and `zero_hash`. -/
structure Hasher (N : Nat) (Hash : Type) where
  compute : (Fin N → Hash) → Hash
  zero : Hash

/-- `Tree`, with the memory that it and its leaves take. -/
structure Tree (N : Nat) (Hash : Type) where
  root : Addr
  curr : Addr
  nodes : Addr → Option (Node N)
  leaves : LeafId → Option (Leaf N)
  hashes : HashPtr N → Hash
  /-- the nodes allocated so far -/
  allocated : Nat

variable {N : Nat} {Hash : Type}

namespace Node

def parts (n : Node N) : Nat := (List.finRange N).countP fun i => (n.children i).isSome

def full (n : Node N) : Bool := n.parts = N

def empty (n : Node N) : Bool := n.parts = 0

/-- The first slot that holds `q`, as the loops of `Insert`, `Replace` and `Remove` look for it. -/
def slotOf (n : Node N) (q : Option Part) : Option (Fin N) :=
  (List.finRange N).find? fun i => n.children i = q

def setChild (n : Node N) (i : Fin N) (q : Option Part) : Node N :=
  { n with children := Function.update n.children i q }

end Node

namespace Tree

def setHash (t : Tree N Hash) (p : HashPtr N) (h : Hash) : Tree N Hash :=
  { t with hashes := Function.update t.hashes p h }

def setNode (t : Tree N Hash) (a : Addr) (n : Option (Node N)) : Tree N Hash :=
  { t with nodes := Function.update t.nodes a n }

def setLeaf (t : Tree N Hash) (l : LeafId) (f : Option (Leaf N)) : Tree N Hash :=
  { t with leaves := Function.update t.leaves l f }

@[simp] theorem nodes_setNode_self (t : Tree N Hash) (a : Addr) (n : Option (Node N)) :
    (t.setNode a n).nodes a = n := Function.update_self ..

theorem nodes_setNode_ne (t : Tree N Hash) {a b : Addr} (h : b ≠ a) (n : Option (Node N)) :
    (t.setNode a n).nodes b = t.nodes b := Function.update_of_ne h ..

@[simp] theorem leaves_setLeaf_self (t : Tree N Hash) (l : LeafId) (f : Option (Leaf N)) :
    (t.setLeaf l f).leaves l = f := Function.update_self ..

theorem leaves_setLeaf_ne (t : Tree N Hash) {k l : LeafId} (h : k ≠ l) (f : Option (Leaf N)) :
    (t.setLeaf l f).leaves k = t.leaves k := Function.update_of_ne h ..

@[simp] theorem hashes_setHash_self (t : Tree N Hash) (c : HashPtr N) (h : Hash) :
    (t.setHash c h).hashes c = h := Function.update_self ..

theorem hashes_setHash_ne (t : Tree N Hash) {c c' : HashPtr N} (hne : c' ≠ c) (h : Hash) :
    (t.setHash c h).hashes c' = t.hashes c' := Function.update_of_ne hne ..

def computeCurrent (K : Hasher N Hash) (t : Tree N Hash) (a : Addr) : Hash :=
  K.compute fun i => t.hashes (.slot a i)

/-- `Node::Init`, as far as the hashes are concerned. -/
def initHashes (K : Hasher N Hash) (t : Tree N Hash) (a : Addr) : Tree N Hash :=
  { t with hashes := fun
      | .slot b i => if b = a then K.zero else t.hashes (.slot b i)
      | .roothash => t.hashes .roothash }

def updateLoop (K : Hasher N Hash) : Nat → Tree N Hash → Addr → Option (Tree N Hash)
  | 0, _, _ => none
  | fuel + 1, t, a => do
    let n ← t.nodes a
    let t := t.setHash n.hptr (t.computeCurrent K a)
    match n.parent with
    | none => some t
    | some p => updateLoop K fuel t p

/-- `Node::Update`.  There are no more nodes on a path than have ever been allocated. -/
def updateNode (K : Hasher N Hash) (t : Tree N Hash) (a : Addr) : Option (Tree N Hash) :=
  updateLoop K t.allocated t a

def insertPart (t : Tree N Hash) (a : Addr) (q : Part) (parent : Option Addr) :
    Option (Tree N Hash × HashPtr N) := do
  let n ← t.nodes a
  guard (parent = some a)
  let i ← n.slotOf none
  some (t.setNode a (n.setChild i (some q)), .slot a i)

def removePart (K : Hasher N Hash) (t : Tree N Hash) (a : Addr) (q : Part) : Option (Tree N Hash) := do
  let n ← t.nodes a
  let i ← n.slotOf (some q)
  let t := t.setNode a (n.setChild i none)
  let t := t.setHash (.slot a i) K.zero
  t.updateNode K a

/-- `Node::Replace` of the part `q` by `q'`, whose parents these are. -/
def replacePart (t : Tree N Hash) (a : Addr) (q q' : Part) (parent parent' : Option Addr) :
    Option (Tree N Hash × HashPtr N) := do
  let n ← t.nodes a
  guard (parent = some a)
  guard (parent' = some a)
  let i ← n.slotOf (some q)
  some (t.setNode a (n.setChild i (some q')), .slot a i)

def newNode (K : Hasher N Hash) (t : Tree N Hash) (p : Addr) : Option (Tree N Hash × Addr) := do
  let a := t.allocated
  let (t, hptr) ← t.insertPart p (.node a) (some p)
  let t := t.setNode a (some { parent := some p, hptr := hptr, children := fun _ => none })
  some ({ t.initHashes K a with allocated := a + 1 }, a)

/-- The first loop of `CurrentWithSpace`: up from `curr_`, as long as there is no space. -/
def climb (t : Tree N Hash) : Nat → Nat → Addr → Option (Nat × Addr)
  | 0, _, _ => none
  | fuel + 1, i, a => do
    let n ← t.nodes a
    if a ≠ t.root ∧ n.full = true then do
      let p ← n.parent
      climb t fuel (i + 1) p
    else some (i, a)

/-- The new root of `CurrentWithSpace`, with the old one as its first child. -/
def growRoot (K : Hasher N Hash) (t : Tree N Hash) : Option (Tree N Hash) := do
  let newRoot := t.allocated
  let t := t.setNode newRoot
    (some { parent := none, hptr := .roothash, children := fun _ => none })
  let t := { t.initHashes K newRoot with allocated := newRoot + 1 }
  let old ← t.nodes t.root
  let (t, hptr) ← t.insertPart newRoot (.node t.root) (some newRoot)
  let t := t.setHash hptr (t.hashes .roothash)
  let t := t.setNode t.root
    (some { old with parent := some newRoot, hptr := hptr, isRoot := false })
  let n ← t.nodes newRoot
  some { t.setNode newRoot (some { n with isRoot := true }) with root := newRoot }

/-- The second loop of `CurrentWithSpace`: an empty branch down to the level of the leaves. -/
def growBranch (K : Hasher N Hash) : Nat → Tree N Hash → Addr → Option (Tree N Hash × Addr)
  | 0, t, a => some (t, a)
  | i + 1, t, a => do
    let (t, b) ← t.newNode K a
    growBranch K i t b

def setCurr (t : Tree N Hash) (a : Addr) : Option (Tree N Hash) :=
  if t.curr = a then some t
  else do
    let old ← t.nodes t.curr
    let t := t.setNode t.curr (some { old with isCurr := false })
    let n ← t.nodes a
    some { t.setNode a (some { n with isCurr := true }) with curr := a }

def currentWithSpace (K : Hasher N Hash) (t : Tree N Hash) : Option (Tree N Hash × Addr) := do
  let (i, a) ← t.climb t.allocated 0 t.curr
  let n ← t.nodes a
  let (t, i, a) ←
    if n.full = true then do
      guard (a = t.root)
      let t ← t.growRoot K
      some (t, i + 1, t.root)
    else some (t, i, a)
  let (t, a) ← t.growBranch K i a
  let t ← t.setCurr a
  some (t, a)

def newLeaf (K : Hasher N Hash) (t : Tree N Hash) (l : LeafId) : Option (Tree N Hash) := do
  let (t, a) ← t.currentWithSpace K
  let (t, hptr) ← t.insertPart a (.leaf l) (some a)
  some (t.setLeaf l (some { parent := some a, hptr := some hptr }))

def updateLeaf (K : Hasher N Hash) (t : Tree N Hash) (l : LeafId) (h : Hash) :
    Option (Tree N Hash) := do
  let f ← t.leaves l
  let hptr ← f.hptr
  let a ← f.parent
  (t.setHash hptr h).updateNode K a

/-- `Leaf(Leaf&&)`. -/
def moveLeaf (t : Tree N Hash) (source target : LeafId) : Option (Tree N Hash) := do
  let f ← t.leaves source
  let a ← f.parent
  let (t, hptr) ← t.replacePart a (.leaf source) (.leaf target) f.parent (some a)
  let t := t.setLeaf target (some { parent := some a, hptr := some hptr })
  some (t.setLeaf source (some { parent := none, hptr := none }))

def parentOf (t : Tree N Hash) : Part → Option (Option Addr)
  | .node a => (t.nodes a).map Node.parent
  | .leaf l => (t.leaves l).map Leaf.parent

def free (t : Tree N Hash) : Part → Tree N Hash
  | .node a => t.setNode a none
  | .leaf l => t.setLeaf l none

/-- `~Part`, and the end of the memory of the part.  A parent that is left empty and is neither
    root nor current node is deleted in turn. -/
def destroyLoop (K : Hasher N Hash) : Nat → Tree N Hash → Part → Option (Tree N Hash)
  | 0, _, _ => none
  | fuel + 1, t, q => do
    let parent ← t.parentOf q
    match parent with
    | none => some (t.free q)
    | some a =>
      let t ← t.removePart K a q
      let n ← t.nodes a
      let t ← if n.empty = true ∧ n.isRoot = false ∧ n.isCurr = false then
          destroyLoop K fuel t (.node a)
        else some t
      some (t.free q)

def destroyLeaf (K : Hasher N Hash) (t : Tree N Hash) (l : LeafId) : Option (Tree N Hash) :=
  destroyLoop K (t.allocated + 1) t (.leaf l)

def verifyLoop [DecidableEq Hash] (K : Hasher N Hash) (t : Tree N Hash) :
    Nat → Option Addr → Option Error
  | _, none => some .ok
  | 0, some _ => none
  | fuel + 1, some a => do
    let n ← t.nodes a
    if t.computeCurrent K a ≠ t.hashes n.hptr then some .merkleVerifyNode
    else verifyLoop K t fuel n.parent

def verify [DecidableEq Hash] (K : Hasher N Hash) (t : Tree N Hash) (l : LeafId) (computed : Hash) :
    Option Error := do
  let f ← t.leaves l
  let hptr ← f.hptr
  if computed ≠ t.hashes hptr then some .merkleVerifyLeaf
  else t.verifyLoop K t.allocated f.parent

def new (K : Hasher N Hash) : Option (Tree N Hash) :=
  let root : Node N :=
    { parent := none, hptr := .roothash, children := fun _ => none, isRoot := true, isCurr := true }
  let t : Tree N Hash :=
    { root := 0, curr := 0, nodes := fun a => if a = 0 then some root else none
      leaves := fun _ => none, hashes := fun _ => K.zero, allocated := 1 }
  t.updateNode K 0

end Tree

inductive Op (Hash : Type) where
  | create (l : LeafId) (h : Hash)
  | update (l : LeafId) (h : Hash)
  | move (source target : LeafId)
  | destroy (l : LeafId)

/-- One operation; a new leaf gets its hash at once. -/
def Tree.apply (K : Hasher N Hash) (t : Tree N Hash) : Op Hash → Option (Tree N Hash)
  | .create l h => do
    let t ← t.newLeaf K l
    t.updateLeaf K l h
  | .update l h => t.updateLeaf K l h
  | .move source target => t.moveLeaf source target
  | .destroy l => t.destroyLeaf K l

def Tree.run (K : Hasher N Hash) (ops : List (Op Hash)) : Option (Tree N Hash) := do
  let t ← Tree.new K
  ops.foldlM (Tree.apply K) t

end SVR2.Merkle
