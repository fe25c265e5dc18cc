import Mathlib.Data.Set.Function
import SVR2.DB.DB2Memory

/-!
# The hash stands for the rows

Two databases have the same hash exactly if they hold the same rows, however the rows came there, as
long as no two of the strings that are hashed for them collide.
-/

namespace SVR2

open Lib

/-! ### Decoding what is hashed -/

/-- Blocks of one length are told apart in their concatenation. -/
theorem map_eq_of_flatMap_eq {α γ : Type} {f : α → List γ} {n : Nat} (hn : 0 < n)
    (hf : ∀ a, (f a).length = n) {l l' : List α} (h : l.flatMap f = l'.flatMap f) :
    l.map f = l'.map f := by
  have hempty : ∀ a l, (a :: l).flatMap f ≠ [] := by
    intro a l hnil
    have hlen := hf a
    rw [List.flatMap_eq_nil_iff.mp hnil a List.mem_cons_self, List.length_nil] at hlen
    omega
  induction l generalizing l' with
  | nil =>
    cases l' with
    | nil => rfl
    | cons b l' => exact absurd h.symm (hempty b l')
  | cons a l ih =>
    cases l' with
    | nil => exact absurd h (hempty a l)
    | cons b l' =>
      rw [List.flatMap_cons, List.flatMap_cons] at h
      obtain ⟨hhead, htail⟩ := List.append_inj h ((hf a).trans (hf b).symm)
      rw [List.map_cons, List.map_cons, hhead, ih htail]

/-- From equal images of two lists, elements that are equal in another respect. -/
theorem map_eq_of_map_eq {α β γ : Type} {f : α → β} {g : α → γ} {l l' : List α}
    (hfg : ∀ a ∈ l, ∀ a' ∈ l', f a = f a' → g a = g a') (h : l.map f = l'.map f) :
    l.map g = l'.map g := by
  induction l generalizing l' with
  | nil =>
    cases l' with
    | nil => rfl
    | cons a' l' => cases h
  | cons a l ih =>
    cases l' with
    | nil => cases h
    | cons a' l' =>
      obtain ⟨hhead, htail⟩ := List.cons.inj h
      rw [List.map_cons, List.map_cons, hfg a List.mem_cons_self a' List.mem_cons_self hhead,
        ih (fun b hb b' hb' => hfg b (List.mem_cons_of_mem a hb) b' (List.mem_cons_of_mem a' hb')) htail]

section

variable [Digests] {Row : Type} {scratch : Bytes → Row → Bytes} {m m' : OrdMap Bytes Row}

/-- The string that SHA-256 gets, when `scratch` gathers the bytes of a row. -/
def digestInput (scratch : Bytes → Row → Bytes) (m : OrdMap Bytes Row) : Bytes :=
  hashInput (fun id row => Digests.hash16 (scratch id row)) m

/-- No two of the strings that are hashed for the two databases collide. -/
structure HashesApart (scratch : Bytes → Row → Bytes) (m m' : OrdMap Bytes Row) : Prop where
  hash16 : Set.InjOn Digests.hash16
    {x | ∃ id row, (m.find? id = some row ∨ m'.find? id = some row) ∧ x = scratch id row}
  sha256 : Set.InjOn Digests.sha256 {digestInput scratch m, digestInput scratch m'}

theorem HashesApart.rows_eq {γ : Type} (h : HashesApart scratch m m') (view : Bytes × Row → γ)
    (hlen : ∀ x, (Digests.hash16 x).length = 16)
    (hview : ∀ e ∈ m.toList, ∀ e' ∈ m'.toList, scratch e.1 e.2 = scratch e'.1 e'.2 → view e = view e')
    (heq : Digests.sha256 (digestInput scratch m) = Digests.sha256 (digestInput scratch m')) :
    m.toList.map view = m'.toList.map view := by
  have hinput := h.sha256 (Set.mem_insert _ _) (Set.mem_insert_of_mem _ rfl) heq
  have hsize : (bigEndian64Bytes m.size).length = (bigEndian64Bytes m'.size).length := by
    rw [length_bigEndian64Bytes, length_bigEndian64Bytes]
  have hblocks := map_eq_of_flatMap_eq (by decide) (fun _ => hlen _) (List.append_inj hinput hsize).2
  refine map_eq_of_map_eq (fun e he e' he' hdigest => hview e he e' he' ?_) hblocks
  exact h.hash16 ⟨e.1, e.2, .inl (OrdMap.mem_toList.mp he), rfl⟩
    ⟨e'.1, e'.2, .inr (OrdMap.mem_toList.mp he'), rfl⟩ hdigest

end

/-! ### Version 2 -/

namespace DB2

/-- The fields of a row lie at fixed places, and the size of the data is one of them. -/
theorem scratch_injective {id id' : Bytes} {row row' : Row} (hrow : ValidRow id row)
    (hrow' : ValidRow id' row') (h : scratch id row = scratch id' row') : id = id' ∧ row = row' := by
  have hmax := hrow.maxData
  have hmax' := hrow'.maxData
  rw [MAX_DATA_SIZE] at hmax hmax'
  obtain ⟨h, hpin⟩ := List.append_inj' h (hrow.pin.trans hrow'.pin.symm)
  obtain ⟨h, hdata⟩ := List.append_inj' h (by
    rw [List.length_append, List.length_append, List.length_replicate, List.length_replicate,
      MAX_DATA_SIZE]
    omega)
  obtain ⟨h, hsize⟩ := List.append_inj' h (by simp)
  obtain ⟨h, htries⟩ := List.append_inj' h (by simp)
  obtain ⟨hid, hstate⟩ := List.append_inj' h (by simp)
  have hsize := bigEndian32Bytes_injective (by omega) (by omega) hsize
  have htries := bigEndian32Bytes_injective (row.tries.toNat_lt.trans (by decide))
    (row'.tries.toNat_lt.trans (by decide)) htries
  have hstate := bigEndian32Bytes_injective row.state.number_lt row'.state.number_lt hstate
  refine ⟨hid, ?_⟩
  cases row
  cases row'
  congr
  · exact RowState.number_injective hstate
  · exact UInt8.toNat_inj.mp htries
  · exact (List.append_inj hdata hsize).1

end DB2

theorem MemoryDB2.used_eq_of_hash_eq [Digests] (hlen : ∀ x, (Digests.hash16 x).length = 16)
    {a b : MemoryDB2} (ha : a.Fits) (hb : b.Fits)
    (hrow : ∀ id row, a.used.rows.find? id = some row → DB2.ValidRow id row)
    (hrow' : ∀ id row, b.used.rows.find? id = some row → DB2.ValidRow id row)
    (hfree : HashesApart MemoryDB2.scratch a.rows b.rows) (h : a.hash = b.hash) :
    a.used = b.used := by
  have hview := hfree.rows_eq (fun e => (e.1, e.2.used)) hlen (fun e he e' he' hs => ?_) h
  · refine congrArg DB2.mk (OrdMap.ext_perm ?_)
    change (a.rows.toList.map _).Perm (b.rows.toList.map _)
    exact List.Perm.of_eq hview
  · have hfind := OrdMap.mem_toList.mp he
    have hfind' := OrdMap.mem_toList.mp he'
    rw [scratch_used (ha _ _ hfind), scratch_used (hb _ _ hfind')] at hs
    obtain ⟨hid, hused⟩ := DB2.scratch_injective
      (hrow e.1 e.2.used (by rw [find?_used, hfind]; rfl))
      (hrow' e'.1 e'.2.used (by rw [find?_used, hfind']; rfl)) hs
    exact Prod.ext hid hused

/-! ### Version 3 -/

namespace DB3

theorem scratch_injective {id id' : Bytes} {row row' : Row} (hrow : ValidRow id row)
    (hrow' : ValidRow id' row') (h : scratch id row = scratch id' row') : id = id' ∧ row = row' := by
  obtain ⟨h, hpriv⟩ := List.append_inj' h (hrow.priv.trans hrow'.priv.symm)
  obtain ⟨hid, htries⟩ := List.append_inj' h (by simp)
  have htries := bigEndian32Bytes_injective (row.tries.toNat_lt.trans (by decide))
    (row'.tries.toNat_lt.trans (by decide)) htries
  refine ⟨hid, ?_⟩
  cases row
  cases row'
  congr
  exact UInt8.toNat_inj.mp htries

theorem eq_of_hash_eq [Digests] (hlen : ∀ x, (Digests.hash16 x).length = 16) {a b : DB3}
    (ha : a.Sound) (hb : b.Sound) (hfree : HashesApart scratch a.rows b.rows)
    (h : a.hash = b.hash) : a = b := by
  have hview := hfree.rows_eq id hlen (fun e he e' he' hs => ?_) h
  · rw [List.map_id, List.map_id] at hview
    cases a
    cases b
    exact congrArg _ (OrdMap.ext_perm (List.Perm.of_eq hview))
  · obtain ⟨hid, hrow⟩ := scratch_injective (ha _ _ (OrdMap.mem_toList.mp he))
      (hb _ _ (OrdMap.mem_toList.mp he')) hs
    exact Prod.ext hid hrow

end DB3

/-- Whatever has been run and loaded, two databases have the same hash exactly if they hold the same
    rows. -/
theorem hash_canonical [Digests] [Ristretto] [Wire DB2.DB2RowState] [Wire DB3.DB3RowState]
    (hlen : ∀ x, (Digests.hash16 x).length = 16) :
    (∀ calls calls', Along MemoryDB2.call MemoryDB2.Succeeds MemoryDB2.newDB calls →
      Along MemoryDB2.call MemoryDB2.Succeeds MemoryDB2.newDB calls' →
      let a := calls.foldl MemoryDB2.call MemoryDB2.newDB
      let b := calls'.foldl MemoryDB2.call MemoryDB2.newDB
      HashesApart MemoryDB2.scratch a.rows b.rows → (a.hash = b.hash ↔ a.used = b.used)) ∧
    ∀ calls calls', Along DB3.call DB3.Succeeds DB3.newDB calls →
      Along DB3.call DB3.Succeeds DB3.newDB calls' →
      let a := calls.foldl DB3.call DB3.newDB
      let b := calls'.foldl DB3.call DB3.newDB
      HashesApart DB3.scratch a.rows b.rows → (a.hash = b.hash ↔ a = b) := by
  constructor
  · intro calls calls' hcalls hcalls' a b hfree
    obtain ⟨hrun, hfits, hused⟩ := MemoryDB2.used_after hcalls
    obtain ⟨hrun', hfits', hused'⟩ := MemoryDB2.used_after hcalls'
    constructor
    · exact MemoryDB2.used_eq_of_hash_eq hlen hfits hfits'
        (fun id row h => DB2.validRow_calls hrun id row (hused ▸ h))
        (fun id row h => DB2.validRow_calls hrun' id row (hused' ▸ h)) hfree
    · intro h
      rw [MemoryDB2.hash_used hfits, MemoryDB2.hash_used hfits', h]
  · intro calls calls' hcalls hcalls' a b hfree
    exact ⟨DB3.eq_of_hash_eq hlen (DB3.sound_calls hcalls) (DB3.sound_calls hcalls') hfree,
      fun h => h ▸ rfl⟩

namespace Sample

/-- Digests that keep the first sixteen bytes of a row, which are its id, and all of the rest. -/
@[reducible] def idDigests : Digests := ⟨fun b => (b ++ .replicate 16 0).take 16, fun b => b⟩

def backupOf (data : Bytes) : RowCall DB2.Op :=
  .run ⟨⟨.replicate 16 0, .backup data (.replicate 32 1) 3⟩, true⟩

/-- A long backup that is replaced by a shorter one, and the same row from another replica. -/
theorem hash_canonical_overwritten :
    letI := idDigests
    ([backupOf (.replicate 48 9), backupOf (.replicate 16 7)].foldl MemoryDB2.call
        MemoryDB2.newDB).hash =
      ([.load [Wire.serialize (sentRow 3 .populated)]].foldl MemoryDB2.call MemoryDB2.newDB).hash := by
  let := idDigests
  have := DB3.sampleRistretto
  have hlen : ∀ x, (Digests.hash16 x).length = 16 := by
    intro x
    change ((x ++ List.replicate 16 0).take 16).length = 16
    simp
  have hsame : ([backupOf (.replicate 48 9), backupOf (.replicate 16 7)].foldl MemoryDB2.call
      MemoryDB2.newDB).rows = ([.load [Wire.serialize (sentRow 3 .populated)]].foldl MemoryDB2.call
        MemoryDB2.newDB).rows := by decide +kernel
  refine ((hash_canonical hlen).1 _ _ (by decide +kernel) (by decide +kernel) ⟨?_, ?_⟩).mpr
    (by decide +kernel)
  · rw [hsame]
    rintro _ ⟨id, row, hrow, rfl⟩ _ ⟨id', row', hrow', rfl⟩ -
    rw [or_self] at hrow hrow'
    have hone : ∀ e ∈ ([.load [Wire.serialize (sentRow 3 .populated)]].foldl MemoryDB2.call
        MemoryDB2.newDB).rows.toList, MemoryDB2.scratch e.1 e.2 =
          MemoryDB2.scratch (.replicate 16 0) (DB2.MemoryRow.mk .populated 3 16
            (.replicate 16 7 ++ .replicate 32 0) (.replicate 32 1)) := by decide +kernel
    exact (hone (id, row) (OrdMap.mem_toList.mpr hrow)).trans
      (hone (id', row') (OrdMap.mem_toList.mpr hrow')).symm
  · exact fun _ _ _ _ h => h

end Sample

end SVR2
