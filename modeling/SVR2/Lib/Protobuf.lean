import Mathlib.Data.List.Basic
import SVR2.Lib.BigEndian

/-!
# The protobuf wire format

A message is the list of its fields, each a varint or a string after its tag.  A field that is zero
or empty is left out, the last one of a number counts, and a field of another number or another
wire type than the one looked for is skipped.  The fixed-width wire types and groups are left out.
-/

namespace SVR2.Lib.Protobuf

/-! ### Varints -/

/-- At most `k` groups of seven bits, the lowest first, each but the last with its high bit set. -/
def groups : Nat → Nat → List (Fin 256)
  | 0, _ => []
  | k + 1, n => if n < 128 then [Fin.ofNat 256 n] else Fin.ofNat 256 (n % 128 + 128) :: groups k (n / 128)

/-- A number has fewer groups than its value plus one. -/
def varint (n : Nat) : List (Fin 256) := groups (n + 1) n

def readVarint : List (Fin 256) → Option (Nat × List (Fin 256))
  | [] => none
  | b :: s =>
    if b.val < 128 then some (b.val, s)
    else (readVarint s).map fun (n, rest) => (b.val - 128 + 128 * n, rest)

theorem readVarint_groups {k n : Nat} (h : n < k) (rest : List (Fin 256)) :
    readVarint (groups k n ++ rest) = some (n, rest) := by
  induction k generalizing n with
  | zero => omega
  | succ k ih =>
    rw [groups]
    split_ifs with hsmall
    · have hval : (Fin.ofNat 256 n).val = n := Nat.mod_eq_of_lt (by omega)
      simp only [List.cons_append, List.nil_append, readVarint, hval, if_pos hsmall]
    · have hval : (Fin.ofNat 256 (n % 128 + 128)).val = n % 128 + 128 := Nat.mod_eq_of_lt (by omega)
      have hread := ih (n := n / 128) (by omega)
      simp only [List.cons_append, readVarint, hval, hread, Option.map_some]
      rw [if_neg (by omega)]
      congr 2
      omega

@[simp] theorem readVarint_varint (n : Nat) (rest : List (Fin 256)) :
    readVarint (varint n ++ rest) = some (n, rest) :=
  readVarint_groups (Nat.lt_succ_self n) rest

theorem length_groups_le_iff {k n m : Nat} (h : n < k) :
    (groups k n).length ≤ m + 1 ↔ n < 128 ^ (m + 1) := by
  induction k generalizing n m with
  | zero => omega
  | succ k ih =>
    rw [groups]
    split_ifs with hsmall
    · exact iff_of_true (Nat.le_add_left 1 m)
        (hsmall.trans_le (Nat.le_self_pow (Nat.succ_ne_zero m) 128))
    · rw [List.length_cons, Nat.succ_le_succ_iff]
      cases m with
      | zero =>
        -- There is a group after this one, so the number does not fit into one.
        have hne : (groups k (n / 128)).length ≠ 0 := by
          cases k with
          | zero => omega
          | succ k =>
            rw [groups]
            split_ifs <;> simp
        omega
      | succ m => rw [ih (by omega), Nat.div_lt_iff_lt_mul (by omega), ← pow_succ]

/-- `m + 1` bytes are enough for the numbers of `7 * (m + 1)` bits. -/
theorem length_varint_le_iff {n m : Nat} : (varint n).length ≤ m + 1 ↔ n < 128 ^ (m + 1) :=
  length_groups_le_iff (Nat.lt_succ_self n)

theorem varint_ne_nil (n : Nat) : varint n ≠ [] := by
  rw [varint, groups]
  split_ifs <;> exact List.cons_ne_nil _ _

theorem length_varint_of_lt {n : Nat} (h : n < 128) : (varint n).length = 1 := by
  have hle := length_varint_le_iff (n := n) (m := 0)
  have hpos := List.length_pos_iff.mpr (varint_ne_nil n)
  omega

/-! ### Fields -/

inductive Value where
  | varint (n : Nat)
  | bytes (s : List (Fin 256))
deriving DecidableEq

structure Field where
  number : Nat
  value : Value
deriving DecidableEq

def Field.encode (f : Field) : List (Fin 256) :=
  match f.value with
  | .varint n => Protobuf.varint (8 * f.number) ++ Protobuf.varint n
  | .bytes s => Protobuf.varint (8 * f.number + 2) ++ (Protobuf.varint s.length ++ s)

def encode (fields : List Field) : List (Fin 256) := fields.flatMap Field.encode

def readField (s : List (Fin 256)) : Option (Field × List (Fin 256)) := do
  let (tag, s) ← readVarint s
  match tag % 8 with
  | 0 =>
    let (n, s) ← readVarint s
    return (⟨tag / 8, .varint n⟩, s)
  | 2 =>
    let (n, s) ← readVarint s
    if s.length < n then none else return (⟨tag / 8, .bytes (s.take n)⟩, s.drop n)
  | _ => none

def readFields : Nat → List (Fin 256) → Option (List Field)
  | _, [] => some []
  | 0, _ :: _ => none
  | k + 1, b :: s => do
    let (f, rest) ← readField (b :: s)
    let fields ← readFields k rest
    return f :: fields

def decode (s : List (Fin 256)) : Option (List Field) := readFields s.length s

theorem readField_encode (f : Field) (rest : List (Fin 256)) :
    readField (f.encode ++ rest) = some (f, rest) := by
  obtain ⟨number, value⟩ := f
  cases value with
  | varint n =>
    have htag : 8 * number % 8 = 0 := by omega
    have hnumber : 8 * number / 8 = number := by omega
    simp [readField, Field.encode, htag, hnumber]
  | bytes s =>
    have htag : (8 * number + 2) % 8 = 2 := by omega
    have hnumber : (8 * number + 2) / 8 = number := by omega
    simp [readField, Field.encode, htag, hnumber]

theorem Field.encode_ne_nil (f : Field) : f.encode ≠ [] := by
  rw [Field.encode]
  split <;> simp [varint_ne_nil]

theorem readFields_encode {k : Nat} {fields : List Field} (h : (encode fields).length ≤ k) :
    readFields k (encode fields) = some fields := by
  induction fields generalizing k with
  | nil => cases k <;> rfl
  | cons f fields ih =>
    obtain ⟨b, s, hb⟩ := List.exists_cons_of_ne_nil f.encode_ne_nil
    have hcons : encode (f :: fields) = b :: (s ++ encode fields) := by
      rw [encode, List.flatMap_cons, hb]
      rfl
    have hread : readField (b :: (s ++ encode fields)) = some (f, encode fields) := by
      rw [← List.cons_append, ← hb]
      exact readField_encode f _
    rw [hcons] at h ⊢
    cases k with
    | zero => exact absurd h (Nat.not_succ_le_zero _)
    | succ k =>
      have hrest : (encode fields).length ≤ k := by
        simp only [List.length_cons, List.length_append] at h
        omega
      simp [readFields, hread, ih hrest]

theorem decode_encode (fields : List Field) : decode (encode fields) = some fields :=
  readFields_encode le_rfl

/-! ### Messages -/

def uintField (number n : Nat) : List Field := if n = 0 then [] else [⟨number, .varint n⟩]

def bytesField (number : Nat) (s : List (Fin 256)) : List Field :=
  if s = [] then [] else [⟨number, .bytes s⟩]

/-- A message, or a member of a `oneof`: it is written also if it is empty. -/
def messageField (number : Nat) (s : List (Fin 256)) : List Field := [⟨number, .bytes s⟩]

/-- The values that a number of the message is given, one after the other. -/
def uints (number : Nat) (fields : List Field) : List Nat :=
  fields.filterMap fun f => match f.value with
    | .varint n => if f.number = number then some n else none
    | .bytes _ => none

def strings (number : Nat) (fields : List Field) : List (List (Fin 256)) :=
  fields.filterMap fun f => match f.value with
    | .varint _ => none
    | .bytes s => if f.number = number then some s else none

def getUint (number : Nat) (fields : List Field) : Nat := (uints number fields).getLastD 0

def getBytes (number : Nat) (fields : List Field) : List (Fin 256) :=
  (strings number fields).getLastD []

/-- The member of a `oneof` that was set last, given the numbers of the members. -/
def getOneof (members : List Nat) (fields : List Field) : Option (Nat × List (Fin 256)) :=
  (fields.filterMap fun f => match f.value with
    | .varint _ => none
    | .bytes s => if f.number ∈ members then some (f.number, s) else none).getLast?

section Get

variable (number number' n : Nat) (s : List (Fin 256)) (fs fs' : List Field)

@[simp] theorem uints_append : uints number (fs ++ fs') = uints number fs ++ uints number fs' :=
  List.filterMap_append

@[simp] theorem strings_append :
    strings number (fs ++ fs') = strings number fs ++ strings number fs' :=
  List.filterMap_append

@[simp] theorem uints_uintField :
    uints number (uintField number' n) = if number' = number ∧ n ≠ 0 then [n] else [] := by
  by_cases hn : n = 0
  · simp [uintField, uints, hn]
  · by_cases hnumber : number' = number <;> simp [uintField, uints, hn, hnumber]

@[simp] theorem uints_bytesField : uints number (bytesField number' s) = [] := by
  by_cases hs : s = [] <;> simp [bytesField, uints, hs]

@[simp] theorem strings_bytesField :
    strings number (bytesField number' s) = if number' = number ∧ s ≠ [] then [s] else [] := by
  by_cases hs : s = []
  · simp [bytesField, strings, hs]
  · by_cases hnumber : number' = number <;> simp [bytesField, strings, hs, hnumber]

@[simp] theorem strings_messageField :
    strings number (messageField number' s) = if number' = number then [s] else [] := by
  by_cases hnumber : number' = number <;> simp [messageField, strings, hnumber]

@[simp] theorem getOneof_messageField (members : List Nat) :
    getOneof members (messageField number s) = if number ∈ members then some (number, s) else none := by
  by_cases hmem : number ∈ members <;> simp [messageField, getOneof, hmem]

@[simp] theorem strings_uintField : strings number (uintField number' n) = [] := by
  by_cases hn : n = 0 <;> simp [uintField, strings, hn]

@[simp] theorem getLast?_getD_default {α : Type} [DecidableEq α] (default a : α) :
    (if a = default then [] else [a]).getLast?.getD default = a := by
  split_ifs with h
  · exact h.symm
  · rfl

end Get

/-- The size of a number of a message with its tag, for fields up to 15. -/
def uintSize (n : Nat) : Nat := if n = 0 then 0 else 1 + (varint n).length

/-- The size of a message of a message with its tag and length, given its own, for fields up to 15. -/
def messageSize (n : Nat) : Nat := 1 + (varint n).length + n

theorem encode_messageField_ne_nil (number : Nat) (s : List (Fin 256)) :
    encode (messageField number s) ≠ [] := by
  simp [encode, messageField, Field.encode_ne_nil]

theorem length_encode_messageField {number : Nat} (h : number < 16) (s : List (Fin 256)) :
    (encode (messageField number s)).length = messageSize s.length := by
  simp only [encode, messageField, List.flatMap_cons, List.flatMap_nil, Field.encode, List.append_nil,
    List.length_append, length_varint_of_lt (n := 8 * number + 2) (by omega), messageSize]
  omega

theorem encode_append (fs fs' : List Field) : encode (fs ++ fs') = encode fs ++ encode fs' :=
  List.flatMap_append

theorem length_encode_uintField {number : Nat} (h : number < 16) (n : Nat) :
    (encode (uintField number n)).length = uintSize n := by
  rw [uintField, uintSize]
  split_ifs
  · rfl
  · simp [encode, Field.encode, length_varint_of_lt (n := 8 * number) (by omega)]

theorem length_encode_bytesField {number : Nat} (h : number < 16) {s : List (Fin 256)}
    (hs : s ≠ []) (hshort : s.length < 128) :
    (encode (bytesField number s)).length = 2 + s.length := by
  rw [bytesField, if_neg hs]
  change (encode (messageField number s)).length = _
  rw [length_encode_messageField h, messageSize, length_varint_of_lt hshort]

theorem uintSize_le_two_iff {n : Nat} : uintSize n ≤ 2 ↔ n < 128 := by
  rw [uintSize]
  split_ifs with h
  · omega
  · have hle := length_varint_le_iff (n := n) (m := 0)
    omega

end SVR2.Lib.Protobuf
