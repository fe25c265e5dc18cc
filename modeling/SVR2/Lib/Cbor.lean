import Mathlib.Logic.Relation
import SVR2.Lib.BigEndian

/-!
# CBOR, and a library that walks through it

The encoding of integers and of maps of integers, as the standard has it: an initial byte with the
major type and either a small number or the size of the number that follows.  Then the functions of
tinycbor that a program calls, as parameters: an iterator is at an item of a container, and goes into
containers and out of them again.  What the documentation says of them on well-formed items is a
class of its own.  An error is `none`.
-/

namespace SVR2.Lib.Cbor

/-! ### The encoding -/

/-- The head of an item: its major type and its number, in any of the five sizes. -/
inductive EncodesHead (major : Nat) : Nat → List (Fin 256) → Prop where
  | short {b : Fin 256} {n : Nat} (hn : n < 24) (hb : b.val = 32 * major + n) :
      EncodesHead major n [b]
  | long {b : Fin 256} {k : Nat} {number : List (Fin 256)} (hk : k < 4)
      (hb : b.val = 32 * major + 24 + k) (hlen : number.length = 2 ^ k) :
      EncodesHead major (BigEndian.value number) (b :: number)

inductive EncodesInt : Int → List (Fin 256) → Prop where
  | nonneg {n : Nat} {s : List (Fin 256)} (h : EncodesHead 0 n s) : EncodesInt n s
  | negative {n : Nat} {s : List (Fin 256)} (h : EncodesHead 1 n s) : EncodesInt (-n - 1) s

/-- An item starts: a head, which for a simple value of two bytes has a number from 32 on, or a string
    or container that leaves its length open. -/
inductive StartsItem : List (Fin 256) → Prop where
  | headed {major n : Nat} {head s : List (Fin 256)} (hhead : EncodesHead major n head)
      (hsimple : major = 7 → head.length = 2 → 32 ≤ n) : StartsItem (head ++ s)
  | opened {b : Fin 256} {s : List (Fin 256)} (hinfo : b.val % 32 = 31)
      (hmajor : 2 ≤ b.val / 32 ∧ b.val / 32 ≤ 5) : StartsItem (b :: s)

theorem EncodesHead.exists_cons {major n : Nat} {head : List (Fin 256)}
    (h : EncodesHead major n head) :
    ∃ b s, head = b :: s ∧ b.val / 32 = major ∧ b.val % 32 < 28 := by
  cases h with
  | short hn hb => exact ⟨_, _, rfl, by omega, by omega⟩
  | long hk hb hlen => exact ⟨_, _, rfl, by omega, by omega⟩

/-- `CborType`, of which only these are asked for. -/
inductive CborType where
  | integer
  | byteString
  | array
  | map
  | null
  | other
deriving DecidableEq

def CborType.ofMajor : Nat → CborType
  | 0 | 1 => .integer
  | 2 => .byteString
  | 4 => .array
  | 5 => .map
  | _ => .other

class Tinycbor (V : Type) where
  parserInit : List (Fin 256) → Option V
  getType : V → CborType
  atEnd : V → Bool
  enterContainer : V → Option V
  leaveContainer : V → V → Option V
  advance : V → Option V
  getInt64Checked : V → Option Int
  getArrayLength : V → Option Nat
  getStringLength : V → Option Nat
  copyByteString : V → Nat → Option (List (Fin 256) × V)

/-- What may come where so many items are left in a container, or all up to a break. -/
inductive Follows : List (Fin 256) → Option Nat → Prop where
  | last (s : List (Fin 256)) : Follows s (some 0)
  | stop (s : List (Fin 256)) : Follows (0xff :: s) none
  | item {s : List (Fin 256)} (left : Option Nat) (h : StartsItem s) : Follows s left

open Tinycbor in
/-- The iterator has come from the first item of the container to where it is. -/
def Reached {V : Type} [Tinycbor V] (container v : V) : Prop :=
  ∃ first, enterContainer container = some first ∧
    Relation.ReflTransGen (fun a b => advance a = some b) first v

/-- What tinycbor does on items that are well formed. -/
class LawfulTinycbor (V : Type) [Tinycbor V] where
  /-- The iterator is where these bytes start, and so many items are left in its container with the
      current one, or all up to a break. -/
  At : V → List (Fin 256) → Option Nat → Prop
  at_init : ∀ {s v}, Tinycbor.parserInit s = some v → At v s (some 1)
  init_isSome : ∀ {s}, StartsItem s → (Tinycbor.parserInit s : Option V).isSome
  atEnd_iff : ∀ {v s left}, At v s left →
    (Tinycbor.atEnd v = true ↔ left = some 0 ∨ left = none ∧ s.head? = some 0xff)
  getType_atEnd : ∀ {v : V}, Tinycbor.atEnd v = true → Tinycbor.getType v = .other
  getType_head : ∀ {v head s left major n}, At v (head ++ s) left → Tinycbor.atEnd v = false →
    EncodesHead major n head → major < 7 → Tinycbor.getType v = .ofMajor major
  getInt64Checked_eq : ∀ {v head s left i}, At v (head ++ s) left → Tinycbor.atEnd v = false →
    EncodesInt i head → -2 ^ 63 ≤ i → i < 2 ^ 63 → Tinycbor.getInt64Checked v = some i
  advance_int : ∀ {v head s left i}, At v (head ++ s) left → Tinycbor.atEnd v = false →
    EncodesInt i head → Follows s (left.map (· - 1)) →
      ∃ next, Tinycbor.advance v = some next ∧ At next s (left.map (· - 1))
  at_enter : ∀ {v head s left major n first}, At v (head ++ s) left → EncodesHead major n head →
    (major = 4 ∨ major = 5) → Tinycbor.enterContainer v = some first →
      At first s (some (if major = 5 then 2 * n else n))
  at_enter_opened : ∀ {v b s left first}, At v (b :: s) left → b.val % 32 = 31 →
    (b.val / 32 = 4 ∨ b.val / 32 = 5) → Tinycbor.enterContainer v = some first → At first s none
  enter_isSome : ∀ {v head s left major n}, At v (head ++ s) left → EncodesHead major n head →
    (major = 4 ∨ major = 5) → n < 2 ^ 31 → Follows s (some n) →
      (Tinycbor.enterContainer v : Option V).isSome
  leave_eq : ∀ {v s left last s'}, At v s left → Reached v last → At last s' (some 0) →
    Follows s' (left.map (· - 1)) →
      ∃ next, Tinycbor.leaveContainer v last = some next ∧ At next s' (left.map (· - 1))
  getArrayLength_eq : ∀ {v head s left n}, At v (head ++ s) left → Tinycbor.atEnd v = false →
    EncodesHead 4 n head → Tinycbor.getArrayLength v = some n
  getStringLength_eq : ∀ {v head s left n}, At v (head ++ s) left → Tinycbor.atEnd v = false →
    EncodesHead 2 n head → Tinycbor.getStringLength v = some n
  copyByteString_eq : ∀ {v head b s left}, At v (head ++ (b ++ s)) left → Tinycbor.atEnd v = false →
    EncodesHead 2 b.length head → Follows s (left.map (· - 1)) →
      ∃ next, Tinycbor.copyByteString v b.length = some (b, next) ∧ At next s (left.map (· - 1))

/-! ### A library with these properties -/

structure Head where
  major : Nat
  info : Nat
  number : Nat
  rest : List (Fin 256)
deriving DecidableEq

/-- The head of the item at the start, unless it is cut off or its size is not one of the five. -/
def readHead : List (Fin 256) → Option Head
  | [] => none
  | b :: s =>
    let major := b.val / 32
    let info := b.val % 32
    if info < 24 then some ⟨major, info, info, s⟩
    else if 28 ≤ info ∨ s.length < 2 ^ (info - 24) then none
    else some ⟨major, info, BigEndian.value (s.take (2 ^ (info - 24))), s.drop (2 ^ (info - 24))⟩

theorem EncodesHead.readHead_append {major n : Nat} {head : List (Fin 256)}
    (h : EncodesHead major n head) (s : List (Fin 256)) :
    ∃ info, readHead (head ++ s) = some ⟨major, info, n, s⟩ := by
  cases h with
  | @short b n hn hb =>
    have hmajor : b.val / 32 = major := by omega
    have hinfo : b.val % 32 = n := by omega
    exact ⟨n, by simp [readHead, hmajor, hinfo, hn]⟩
  | @long b k number hk hb hlen =>
    have hmajor : b.val / 32 = major := by omega
    have hinfo : b.val % 32 = 24 + k := by omega
    refine ⟨24 + k, ?_⟩
    rw [List.cons_append, readHead]
    simp only [hmajor, hinfo]
    rw [if_neg (by omega), if_neg (by simp [← hlen]; omega), Nat.add_sub_cancel_left, ← hlen,
      List.take_left, List.drop_left]

/-- An iterator that looks at an item only when it is asked for. -/
structure Cursor where
  source : List (Fin 256)
  left : Option Nat
deriving DecidableEq

namespace Cursor

def next (c : Cursor) (rest : List (Fin 256)) : Cursor := ⟨rest, c.left.map (· - 1)⟩

def atEnd (c : Cursor) : Bool := c.left = some 0 ∨ c.left = none ∧ c.source.head? = some 0xff

def getInt64Checked (c : Cursor) : Option Int :=
  (readHead c.source).bind fun head =>
    let i : Int := if head.major = 1 then -head.number - 1 else head.number
    if -2 ^ 63 ≤ i ∧ i < 2 ^ 63 then some i else none

def enterContainer (c : Cursor) : Option Cursor :=
  match c.source with
  | [] => none
  | b :: s =>
    if b.val % 32 = 31 then some ⟨s, none⟩
    else (readHead (b :: s)).map fun head =>
      ⟨head.rest, some (if head.major = 5 then 2 * head.number else head.number)⟩

theorem enterContainer_eq {head : List (Fin 256)} {major n : Nat} (hhead : EncodesHead major n head)
    (s : List (Fin 256)) (left : Option Nat) :
    enterContainer ⟨head ++ s, left⟩ = some ⟨s, some (if major = 5 then 2 * n else n)⟩ := by
  obtain ⟨info, hread⟩ := hhead.readHead_append s
  obtain ⟨b, t, rfl, -, hinfo⟩ := hhead.exists_cons
  rw [List.cons_append] at hread
  rw [enterContainer, List.cons_append]
  dsimp only
  rw [if_neg (by omega), hread]
  rfl

def copyByteString (c : Cursor) (size : Nat) : Option (List (Fin 256) × Cursor) :=
  (readHead c.source).bind fun head =>
    if size < head.number ∨ head.rest.length < head.number then none
    else some (head.rest.take head.number, c.next (head.rest.drop head.number))

instance : Tinycbor Cursor where
  parserInit s := some ⟨s, some 1⟩
  getType c := if c.atEnd then .other else match readHead c.source with
    | none => .other
    | some head => if head.major = 7 ∧ head.info = 22 then .null else .ofMajor head.major
  atEnd := atEnd
  enterContainer := enterContainer
  leaveContainer c last := some (c.next (if last.left = none then last.source.tail else last.source))
  advance c := (readHead c.source).map fun head => c.next head.rest
  getInt64Checked := getInt64Checked
  getArrayLength c := (readHead c.source).map (·.number)
  getStringLength c := (readHead c.source).map (·.number)
  copyByteString := copyByteString

instance : LawfulTinycbor Cursor where
  At c s left := c = ⟨s, left⟩
  at_init h := (Option.some.inj h).symm
  init_isSome _ := rfl
  atEnd_iff := by
    rintro v s left rfl
    exact decide_eq_true_iff
  getType_atEnd h := if_pos h
  getType_head := by
    rintro v head s left major n rfl hend hhead hmajor
    obtain ⟨info, hread⟩ := hhead.readHead_append s
    change (if atEnd _ then _ else _) = _
    rw [if_neg (by rw [show atEnd _ = false from hend]; exact Bool.false_ne_true), hread]
    exact if_neg fun h => hmajor.ne h.1
  getInt64Checked_eq := by
    rintro v head s left i rfl - hint hmin hmax
    change getInt64Checked _ = _
    cases hint with
    | nonneg h =>
      obtain ⟨info, hread⟩ := h.readHead_append s
      rw [getInt64Checked, hread, Option.bind_some]
      dsimp only
      rw [if_neg Nat.zero_ne_one, if_pos ⟨hmin, hmax⟩]
    | negative h =>
      obtain ⟨info, hread⟩ := h.readHead_append s
      rw [getInt64Checked, hread, Option.bind_some]
      dsimp only
      rw [if_pos rfl, if_pos ⟨hmin, hmax⟩]
  advance_int := by
    rintro v head s left i rfl - hint -
    have hread : ∃ head', readHead (head ++ s) = some head' ∧ head'.rest = s := by
      cases hint with
      | nonneg h => exact (h.readHead_append s).elim fun _ h => ⟨_, h, rfl⟩
      | negative h => exact (h.readHead_append s).elim fun _ h => ⟨_, h, rfl⟩
    obtain ⟨head', hread, rfl⟩ := hread
    exact ⟨_, congrArg (Option.map _) hread, rfl⟩
  at_enter := by
    rintro v head s left major n first rfl hhead - henter
    exact (Option.some.inj ((enterContainer_eq hhead s left).symm.trans henter)).symm
  at_enter_opened := by
    rintro v b s left first rfl hinfo - henter
    exact (Option.some.inj ((if_pos hinfo).symm.trans henter)).symm
  enter_isSome := by
    rintro v head s left major n rfl hhead - - -
    exact Option.isSome_iff_exists.mpr ⟨_, enterContainer_eq hhead s left⟩
  leave_eq := by
    rintro v s left last s' rfl - rfl -
    exact ⟨_, rfl, rfl⟩
  getArrayLength_eq := by
    rintro v head s left n rfl - hhead
    obtain ⟨info, hread⟩ := hhead.readHead_append s
    exact congrArg (Option.map _) hread
  getStringLength_eq := by
    rintro v head s left n rfl - hhead
    obtain ⟨info, hread⟩ := hhead.readHead_append s
    exact congrArg (Option.map _) hread
  copyByteString_eq := by
    rintro v head b s left rfl - hhead -
    obtain ⟨info, hread⟩ := hhead.readHead_append (b ++ s)
    refine ⟨⟨s, left.map (· - 1)⟩, ?_, rfl⟩
    change copyByteString _ _ = _
    rw [copyByteString, hread, Option.bind_some, if_neg (by simp), List.take_left, List.drop_left]
    rfl

end Cursor

end SVR2.Lib.Cbor
