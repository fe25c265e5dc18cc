import Mathlib.Data.Finset.Card
import Mathlib.Data.Finset.Dedup
import Mathlib.Data.List.Sort
import Mathlib.Order.Basic

/-!
# Ordered finite maps

A finite map as the list of its entries in strictly increasing key order, which is what an
iteration over a tree map visits.  The order is a field of the structure, so a key can occur
only once, equal look-ups mean equal maps (`OrdMap.ext_find?`), and a set is a map to `Unit`.
-/

namespace SVR2.Lib

variable {α β γ : Type}

/-- A finite map from `α` to `β`: its entries, by increasing key. -/
structure OrdMap (α β : Type) [LinearOrder α] where
  toList : List (α × β)
  sorted : toList.Pairwise fun a b => a.1 < b.1

abbrev OrdSet (α : Type) [LinearOrder α] := OrdMap α Unit

namespace OrdMap

variable [LinearOrder α]

instance [DecidableEq β] : DecidableEq (OrdMap α β) := fun m m' =>
  decidable_of_iff (m.toList = m'.toList) (by cases m; cases m'; simp)

/-! ### Operations on entry lists -/

def lookup (k : α) : List (α × β) → Option β
  | [] => none
  | (a, b) :: l => if a = k then some b else lookup k l

/-- Put `(k, v)` at its place, over an entry for `k` if there is one. -/
def put (k : α) (v : β) : List (α × β) → List (α × β)
  | [] => [(k, v)]
  | (a, b) :: l =>
    if k < a then (k, v) :: (a, b) :: l
    else if a = k then (k, v) :: l
    else (a, b) :: put k v l

theorem mem_put {k : α} {v : β} {e : α × β} {l : List (α × β)} (h : e ∈ put k v l) :
    e = (k, v) ∨ e ∈ l := by
  induction l with
  | nil => simpa [put] using h
  | cons hd tl ih =>
    obtain ⟨a, b⟩ := hd
    simp only [put] at h
    split_ifs at h <;> simp only [List.mem_cons] at h ⊢ <;> tauto

theorem put_sorted (k : α) (v : β) {l : List (α × β)}
    (h : l.Pairwise fun a b => a.1 < b.1) : (put k v l).Pairwise fun a b => a.1 < b.1 := by
  induction l with
  | nil => simp [put]
  | cons hd tl ih =>
    obtain ⟨a, b⟩ := hd
    obtain ⟨hhd, htl⟩ := List.pairwise_cons.mp h
    simp only [put]
    split_ifs with hlt heq
    · refine List.pairwise_cons.mpr ⟨?_, h⟩
      intro e he
      rcases List.mem_cons.mp he with rfl | he
      · exact hlt
      · exact hlt.trans (hhd e he)
    · subst heq
      exact List.pairwise_cons.mpr ⟨hhd, htl⟩
    · refine List.pairwise_cons.mpr ⟨?_, ih htl⟩
      intro e he
      rcases mem_put he with rfl | he
      · exact lt_of_le_of_ne (not_lt.mp hlt) heq
      · exact hhd e he

theorem lookup_put (k k' : α) (v : β) (l : List (α × β)) :
    lookup k' (put k v l) = if k = k' then some v else lookup k' l := by
  induction l with
  | nil => simp [put, lookup]
  | cons hd tl ih =>
    obtain ⟨a, b⟩ := hd
    by_cases hlt : k < a
    · simp [put, hlt, lookup]
    · by_cases hak : a = k
      · subst hak
        by_cases hk : a = k' <;> simp [put, lookup, hk]
      · by_cases hk : a = k'
        · subst hk
          simp [put, hlt, hak, lookup, Ne.symm hak]
        · simp [put, hlt, hak, lookup, hk, ih]

theorem lookup_eq_some {k : α} {v : β} {l : List (α × β)}
    (h : l.Pairwise fun a b => a.1 < b.1) : lookup k l = some v ↔ (k, v) ∈ l := by
  induction l with
  | nil => simp [lookup]
  | cons hd tl ih =>
    obtain ⟨a, b⟩ := hd
    obtain ⟨hhd, htl⟩ := List.pairwise_cons.mp h
    by_cases hk : a = k
    · subst hk
      -- a second entry for the head's key would have to be above it
      have hno : (a, v) ∉ tl := fun hm => lt_irrefl a (hhd (a, v) hm)
      simp [lookup, hno, eq_comm]
    · simp [lookup, hk, ih htl, Ne.symm hk]

theorem lookup_eq_none_of_lt {k : α} {l : List (α × β)} (h : ∀ e ∈ l, k < e.1) :
    lookup k l = none := by
  induction l with
  | nil => rfl
  | cons e l ih =>
    rw [lookup, if_neg (h e List.mem_cons_self).ne', ih fun e' he' => h e' (List.mem_cons_of_mem e he')]

theorem lookup_filter (p : α → Bool) (k : α) (l : List (α × β)) :
    lookup k (l.filter fun e => p e.1) = if p k then lookup k l else none := by
  induction l with
  | nil => simp [lookup]
  | cons hd tl ih =>
    obtain ⟨a, b⟩ := hd
    by_cases ha : p a <;> by_cases hk : a = k
    · subst hk; simp [lookup, ha]
    · simp [lookup, ha, hk, ih]
    · subst hk; simp [ha, ih]
    · simp [lookup, ha, hk, ih]

theorem lookup_map (f : α → β → γ) (k : α) (l : List (α × β)) :
    lookup k (l.map fun e => (e.1, f e.1 e.2)) = (lookup k l).map (f k) := by
  induction l with
  | nil => simp [lookup]
  | cons hd tl ih =>
    obtain ⟨a, b⟩ := hd
    by_cases hk : a = k
    · subst hk; simp [lookup]
    · simp [lookup, hk, ih]

/-! ### Operations on maps -/

def empty : OrdMap α β := ⟨[], List.Pairwise.nil⟩

instance : EmptyCollection (OrdMap α β) := ⟨empty⟩

def find? (m : OrdMap α β) (k : α) : Option β := lookup k m.toList

def contains (m : OrdMap α β) (k : α) : Bool := (m.find? k).isSome

instance : Membership α (OrdMap α β) := ⟨fun m k => m.contains k = true⟩

instance (m : OrdMap α β) (k : α) : Decidable (k ∈ m) :=
  inferInstanceAs (Decidable (m.contains k = true))

def insert (m : OrdMap α β) (k : α) (v : β) : OrdMap α β :=
  ⟨put k v m.toList, put_sorted k v m.sorted⟩

def filterKeys (m : OrdMap α β) (p : α → Bool) : OrdMap α β :=
  ⟨m.toList.filter fun e => p e.1, m.sorted.filter _⟩

def erase (m : OrdMap α β) (k : α) : OrdMap α β := m.filterKeys fun a => a ≠ k

def mapVal (m : OrdMap α β) (f : α → β → γ) : OrdMap α γ :=
  ⟨m.toList.map fun e => (e.1, f e.1 e.2),
    List.pairwise_map.mpr (m.sorted.imp fun h => h)⟩

def keys (m : OrdMap α β) : List α := m.toList.map Prod.fst

def size (m : OrdMap α β) : Nat := m.toList.length

def ofKeys (l : List α) : OrdSet α := l.foldl (fun s a => s.insert a ()) empty

theorem mem_def {m : OrdMap α β} {k : α} : k ∈ m ↔ m.contains k = true := Iff.rfl

theorem mem_iff {m : OrdMap α β} {k : α} : k ∈ m ↔ ∃ v, m.find? k = some v := by
  rw [mem_def, contains, Option.isSome_iff_exists]

theorem not_mem_iff {m : OrdMap α β} {k : α} : k ∉ m ↔ m.find? k = none := by
  rw [mem_def, contains]; cases m.find? k <;> simp

@[simp] theorem find?_empty (k : α) : (∅ : OrdMap α β).find? k = none := rfl

@[simp] theorem not_mem_empty (k : α) : k ∉ (∅ : OrdMap α β) := by
  rw [not_mem_iff, find?_empty]

@[simp] theorem find?_insert (m : OrdMap α β) (k k' : α) (v : β) :
    (m.insert k v).find? k' = if k = k' then some v else m.find? k' :=
  lookup_put k k' v m.toList

/-- Only the entry of `k` may have changed: what held of all entries still does if it does of that
    one. -/
theorem forall_of_frame {P : α → β → Prop} {m m' : OrdMap α β} {k : α}
    (hframe : ∀ k', k ≠ k' → m'.find? k' = m.find? k') (h : ∀ k' v, m.find? k' = some v → P k' v)
    (hk : ∀ v, m'.find? k = some v → P k v) (k' : α) (v : β) (hv : m'.find? k' = some v) : P k' v := by
  by_cases heq : k = k'
  · subst heq
    exact hk v hv
  · rw [hframe k' heq] at hv
    exact h k' v hv

@[simp] theorem find?_filterKeys (m : OrdMap α β) (p : α → Bool) (k : α) :
    (m.filterKeys p).find? k = if p k then m.find? k else none :=
  lookup_filter p k m.toList

@[simp] theorem find?_erase (m : OrdMap α β) (k k' : α) :
    (m.erase k).find? k' = if k' = k then none else m.find? k' := by
  rw [erase, find?_filterKeys]; by_cases h : k' = k <;> simp [h]

@[simp] theorem find?_mapVal (m : OrdMap α β) (f : α → β → γ) (k : α) :
    (m.mapVal f).find? k = (m.find? k).map (f k) :=
  lookup_map f k m.toList

@[simp] theorem mem_insert {m : OrdMap α β} {k k' : α} {v : β} :
    k' ∈ m.insert k v ↔ k' = k ∨ k' ∈ m := by
  rw [mem_iff, mem_iff, find?_insert]
  by_cases h : k = k'
  · simp [h]
  · simp [h, Ne.symm h]

@[simp] theorem mem_filterKeys {m : OrdMap α β} {p : α → Bool} {k : α} :
    k ∈ m.filterKeys p ↔ p k = true ∧ k ∈ m := by
  rw [mem_iff, mem_iff, find?_filterKeys]; by_cases h : p k <;> simp [h]

theorem mem_toList {m : OrdMap α β} {k : α} {v : β} :
    (k, v) ∈ m.toList ↔ m.find? k = some v :=
  (lookup_eq_some m.sorted).symm

theorem mem_keys {m : OrdMap α β} {k : α} : k ∈ m.keys ↔ k ∈ m := by
  rw [mem_iff, keys, List.mem_map]
  constructor
  · rintro ⟨⟨a, v⟩, hm, rfl⟩
    exact ⟨v, mem_toList.mp hm⟩
  · rintro ⟨v, hv⟩
    exact ⟨(k, v), mem_toList.mpr hv, rfl⟩

theorem keys_sorted (m : OrdMap α β) : m.keys.Pairwise (· < ·) :=
  List.pairwise_map.mpr m.sorted

theorem keys_nodup (m : OrdMap α β) : m.keys.Nodup :=
  m.keys_sorted.imp fun h => ne_of_lt h

@[simp] theorem length_keys (m : OrdMap α β) : m.keys.length = m.size := by
  simp [keys, size]

/-- Maps that list the same entries in any order are equal: both lists are sorted. -/
theorem ext_perm {m m' : OrdMap α β} (h : m.toList.Perm m'.toList) : m = m' := by
  have hlist : m.toList = m'.toList :=
    h.eq_of_pairwise (fun a b _ _ hab hba => absurd hab (not_lt.mpr hba.le)) m.sorted m'.sorted
  cases m; cases m'; simp_all

/-- Maps with equal look-ups are equal: both hold the same entries, each once. -/
theorem ext_find? {m m' : OrdMap α β} (h : ∀ k, m.find? k = m'.find? k) : m = m' := by
  have hmem : ∀ e, e ∈ m.toList ↔ e ∈ m'.toList := by
    rintro ⟨k, v⟩
    rw [mem_toList, mem_toList, h]
  have hnd : ∀ m : OrdMap α β, m.toList.Nodup := fun m =>
    List.Pairwise.imp (fun {a b} hab (he : a = b) => lt_irrefl a.1 (by rw [he] at hab ⊢; exact hab))
      m.sorted
  exact ext_perm ((List.perm_ext_iff_of_nodup (hnd m) (hnd m')).mpr hmem)

/-- Inserting `v` under all keys of a list that satisfy `p` and are not there yet. -/
theorem find?_foldl_insert_new (p : α → Prop) [DecidablePred p] (v : β) (l : List α)
    (m : OrdMap α β) (k : α) :
    (l.foldl (fun m a => if p a ∧ a ∉ m then m.insert a v else m) m).find? k =
      if k ∈ l ∧ p k ∧ k ∉ m then some v else m.find? k := by
  induction l generalizing m with
  | nil => simp
  | cons a l ih =>
    rw [List.foldl_cons, ih]
    by_cases ha : p a ∧ a ∉ m
    · by_cases hk : k = a
      · subst hk; simp [ha]
      · simp [ha, hk, Ne.symm hk]
    · by_cases hk : k = a
      · subst hk; simp [ha]
      · simp [ha, hk]

/-- Inserting `v` under all keys of a list that satisfy `p`, into the empty map. -/
theorem find?_foldl_insert (p : α → Prop) [DecidablePred p] (v : β) (l : List α) (k : α) :
    (l.foldl (fun m a => if p a then m else m.insert a v) (∅ : OrdMap α β)).find? k =
      if k ∈ l ∧ ¬p k then some v else none := by
  have key : ∀ m : OrdMap α β, (l.foldl (fun m a => if p a then m else m.insert a v) m).find? k =
      if k ∈ l ∧ ¬p k then some v else m.find? k := by
    induction l with
    | nil => simp
    | cons a l ih =>
      intro m
      rw [List.foldl_cons, ih]
      by_cases ha : p a
      · by_cases hk : k = a
        · subst hk; simp [ha]
        · simp [ha, hk]
      · by_cases hk : k = a
        · subst hk; simp [ha]
        · simp [ha, hk, Ne.symm hk]
  rw [key, find?_empty]

theorem toList_insert_of_lt {m : OrdMap α β} {k : α} (v : β) (h : ∀ k' ∈ m, k' < k) :
    (m.insert k v).toList = m.toList ++ [(k, v)] := by
  have hput : ∀ l : List (α × β), (∀ e ∈ l, e.1 < k) → put k v l = l ++ [(k, v)] := by
    intro l hl
    induction l with
    | nil => rfl
    | cons e l ih =>
      have he := hl e List.mem_cons_self
      rw [put, if_neg (not_lt.mpr he.le), if_neg he.ne,
        ih fun e' he' => hl e' (List.mem_cons_of_mem e he')]
      rfl
  refine hput m.toList fun e he => h e.1 ?_
  exact mem_keys.mp (List.mem_map_of_mem he)

theorem getLast?_toList {m : OrdMap α β} {k : α} (hk : k ∈ m) (hmax : ∀ k' ∈ m, k' ≤ k) :
    m.toList.getLast?.map (·.1) = some k := by
  obtain ⟨v, hv⟩ := mem_iff.mp hk
  have hmem : (k, v) ∈ m.toList := mem_toList.mpr hv
  rcases List.eq_nil_or_concat m.toList with hnil | ⟨l, e, hl⟩
  · rw [hnil] at hmem
    cases hmem
  · rw [List.concat_eq_append] at hl
    have hsorted := m.sorted
    have he : e.1 ≤ k := by
      refine hmax _ (mem_iff.mpr ⟨e.2, mem_toList.mp ?_⟩)
      rw [hl]
      exact List.mem_append_right l (List.mem_singleton_self e)
    rw [hl] at hmem hsorted ⊢
    rw [List.getLast?_append_cons, List.getLast?_singleton, Option.map_some]
    rcases List.mem_append.mp hmem with hmem | hmem
    · have hlt := (List.pairwise_append.mp hsorted).2.2 _ hmem e (List.mem_singleton_self e)
      exact absurd hlt (not_lt.mpr he)
    · rw [← List.mem_singleton.mp hmem]

def keySet (m : OrdMap α β) : Finset α := m.keys.toFinset

@[simp] theorem mem_keySet {m : OrdMap α β} {k : α} : k ∈ m.keySet ↔ k ∈ m := by
  rw [keySet, List.mem_toFinset, mem_keys]

@[simp] theorem card_keySet (m : OrdMap α β) : m.keySet.card = m.size := by
  rw [keySet, List.toFinset_card_of_nodup m.keys_nodup, length_keys]

end OrdMap

end SVR2.Lib
