import Mathlib.Data.Prod.Lex
import Mathlib.Data.UInt
import SVR2.Basic

/-!
# Sequence numbers between hosts

`host/peer/sequence_number.go`.  Two hosts number the messages that they carry between their
enclaves by an epoch, which grows with every enclave handshake, and a counter within the epoch.
-/

namespace SVR2.Host

structure SequenceNumber where
  epoch : UInt32 := 0
  seq : UInt64 := 0
deriving DecidableEq, Repr

namespace SequenceNumber

/-- `follows`: this number comes directly after `pred`, or starts a greater epoch. -/
def follows (s pred : SequenceNumber) : Bool :=
  (s.epoch > pred.epoch && s.seq == 0) || (s.epoch == pred.epoch && s.seq == pred.seq + 1)

def next (s : SequenceNumber) : SequenceNumber := { s with seq := s.seq + 1 }

def nextEpoch (s : SequenceNumber) : SequenceNumber := { epoch := s.epoch + 1, seq := 0 }

/-- `cmp`.  An `int` has 64 bits: the difference of two `uint32` is converted without change, so
    that of a smaller and a greater epoch is positive too; the difference of two `uint64` is read
    as a signed number. -/
def cmp (s o : SequenceNumber) : Int :=
  let ecmp : Int := (s.epoch - o.epoch).toNat
  if ecmp ≠ 0 then ecmp else (s.seq - o.seq).toInt64.toInt

/-! ### The lexicographic order -/

def toPair (s : SequenceNumber) : Nat ×ₗ Nat := toLex (s.epoch.toNat, s.seq.toNat)

theorem toPair_injective : Function.Injective toPair := by
  intro s t h
  have hpair := Prod.ext_iff.mp (toLex_inj.mp h)
  cases s
  cases t
  congr
  · exact UInt32.toNat_inj.mp hpair.1
  · exact UInt64.toNat_inj.mp hpair.2

instance : LinearOrder SequenceNumber := LinearOrder.lift' toPair toPair_injective

theorem lt_iff {s t : SequenceNumber} :
    s < t ↔ s.epoch.toNat < t.epoch.toNat ∨
      s.epoch.toNat = t.epoch.toNat ∧ s.seq.toNat < t.seq.toNat :=
  Prod.Lex.toLex_lt_toLex

theorem le_iff {s t : SequenceNumber} :
    s ≤ t ↔ s.epoch.toNat < t.epoch.toNat ∨
      s.epoch.toNat = t.epoch.toNat ∧ s.seq.toNat ≤ t.seq.toNat :=
  Prod.Lex.toLex_le_toLex

/-- `t` is the successor of `s` in its epoch, or the number 0 of a greater one. -/
def Next (s t : SequenceNumber) : Prop :=
  s.epoch < t.epoch ∧ t.seq = 0 ∨ t.epoch = s.epoch ∧ t.seq.toNat = s.seq.toNat + 1

instance (s t : SequenceNumber) : Decidable (Next s t) :=
  inferInstanceAs (Decidable (_ ∨ _))

variable {s t u : SequenceNumber}

theorem next_iff : Next s t ↔
    s.epoch.toNat < t.epoch.toNat ∧ t.seq.toNat = 0 ∨
      t.epoch.toNat = s.epoch.toNat ∧ t.seq.toNat = s.seq.toNat + 1 := by
  rw [Next, UInt32.lt_iff_toNat_lt, ← UInt32.toNat_inj, ← UInt64.toNat_inj]
  rfl

theorem Next.lt (h : Next s t) : s < t := by
  rw [lt_iff]
  rcases next_iff.mp h with ⟨he, -⟩ | ⟨he, hs⟩ <;> omega

/-- Between a number and one that comes next there is none, except older epochs: whatever lies
    there is followed by it too. -/
theorem Next.of_between (h : Next s u) (hst : s ≤ t) (htu : t < u) : Next t u := by
  rw [le_iff] at hst
  rw [lt_iff] at htu
  rw [next_iff] at h ⊢
  omega

theorem next_of_follows (h : t.follows s = true) (hwrap : ¬ (s.seq + 1 = 0 ∧ t = s.next)) :
    Next s t := by
  simp only [follows, Bool.or_eq_true, Bool.and_eq_true, decide_eq_true_eq, beq_iff_eq,
    gt_iff_lt] at h
  refine h.imp id fun ⟨he, hseq⟩ => ⟨he, ?_⟩
  have hne : s.seq + 1 ≠ 0 := by
    intro hzero
    refine hwrap ⟨hzero, ?_⟩
    rw [next, ← hseq, ← he]
  rw [hseq, UInt64.toNat_add, UInt64.toNat_one]
  apply Nat.mod_eq_of_lt
  refine lt_of_le_of_ne s.seq.toNat_lt fun hmax => hne ?_
  rw [← UInt64.toNat_inj, UInt64.toNat_add, UInt64.toNat_one, hmax]
  rfl

theorem Next.follows (h : Next s t) : t.follows s = true := by
  simp only [SequenceNumber.follows, Bool.or_eq_true, Bool.and_eq_true, decide_eq_true_eq, beq_iff_eq,
    gt_iff_lt]
  refine h.imp id fun ⟨he, hs⟩ => ⟨he, UInt64.toNat_inj.mp ?_⟩
  rw [UInt64.toNat_add, UInt64.toNat_one, hs, Nat.mod_eq_of_lt]
  rw [← hs]
  exact t.seq.toNat_lt

/-! ### Where `cmp` is right -/

theorem cmp_pos_of_epoch_ne (h : s.epoch ≠ t.epoch) : 0 < s.cmp t := by
  have hne : (s.epoch - t.epoch).toNat ≠ 0 := by
    intro hzero
    apply h
    rw [← UInt32.toNat_inj]
    have hs := s.epoch.toNat_lt
    have ht := t.epoch.toNat_lt
    rw [UInt32.toNat_sub] at hzero
    omega
  rw [cmp, if_pos (by exact_mod_cast hne)]
  omega

/-- Within an epoch, the difference of the counters, if it is small enough for an `int`. -/
theorem cmp_of_epoch_eq (h : s.epoch = t.epoch)
    (hnear : s.seq.toNat < t.seq.toNat + 2 ^ 63 ∧ t.seq.toNat < s.seq.toNat + 2 ^ 63) :
    s.cmp t = (s.seq.toNat : Int) - t.seq.toNat := by
  have hdiff : (s.seq - t.seq).toInt64.toInt = (s.seq.toNat : Int) - t.seq.toNat := by
    change (s.seq - t.seq).toBitVec.toInt = _
    have hs := s.seq.toNat_lt
    have ht := t.seq.toNat_lt
    rw [BitVec.toInt, show (s.seq - t.seq).toBitVec.toNat = (s.seq - t.seq).toNat from rfl,
      UInt64.toNat_sub]
    split_ifs <;> omega
  rw [cmp, h]
  simpa using hdiff

theorem Next.cmp_pos (h : Next s t) : 0 < t.cmp s := by
  rcases h with ⟨he, -⟩ | ⟨he, hs⟩
  · exact cmp_pos_of_epoch_ne (Ne.symm (UInt32.ne_of_lt he))
  · rw [cmp_of_epoch_eq he (by omega)]
    omega

end SequenceNumber

end SVR2.Host
