import Mathlib.Data.UInt
import SVR2.Basic
import SVR2.Lib.BigEndian
import SVR2.Lib.Buffer

/-!
# The certificate table of an SEV-SNP report

`attestation/sev/sev.cc`: the host hands over a buffer that starts with a table of certificates, each
entry with the place of one in the same buffer.  All of it is untrusted.
-/

namespace SVR2.SEV

open Lib

structure CertTableEntry where
  guid : Bytes
  offset : UInt32
  length : UInt32
deriving DecidableEq, Repr

structure SevSnpEndorsements where
  vcekDer : Bytes := []
  askDer : Bytes := []
  arkDer : Bytes := []
  vlekDer : Bytes := []
  crl : Bytes := []
deriving DecidableEq, Repr

def uuidVCEK : Bytes :=
  [0x63, 0xda, 0x75, 0x8d, 0xe6, 0x64, 0x45, 0x64, 0xad, 0xc5, 0xf4, 0xb9, 0x3b, 0xe8, 0xac, 0xcd]

def uuidASK : Bytes :=
  [0x4a, 0xb7, 0xb3, 0x79, 0xbb, 0xac, 0x4f, 0xe4, 0xa0, 0x2f, 0x05, 0xae, 0xf3, 0x27, 0xc7, 0x82]

def uuidARK : Bytes :=
  [0xc0, 0xb4, 0x06, 0xa4, 0xa8, 0x03, 0x49, 0x52, 0x97, 0x43, 0x3f, 0xb6, 0x01, 0x4c, 0xd0, 0xae]

def uuidVLEK : Bytes :=
  [0xa8, 0x07, 0x4b, 0xc2, 0xa2, 0x5a, 0x48, 0x3e, 0xaa, 0xe6, 0x39, 0xc0, 0x45, 0xa0, 0xb8, 0xa1]

def uuidCRL : Bytes :=
  [0x92, 0xf8, 0x1b, 0xc3, 0x58, 0x11, 0x4d, 0x3d, 0x97, 0xff, 0xd1, 0x9f, 0x88, 0xdc, 0x67, 0xea]

/-- The `switch` on `uuid[0]`: no two of the ids share their first byte. -/
def SevSnpEndorsements.set (e : SevSnpEndorsements) (uuid cert : Bytes) : SevSnpEndorsements :=
  if uuid = uuidVCEK then { e with vcekDer := cert }
  else if uuid = uuidASK then { e with askDer := cert }
  else if uuid = uuidARK then { e with arkDer := cert }
  else if uuid = uuidVLEK then { e with vlekDer := cert }
  else if uuid = uuidCRL then { e with crl := cert }
  else e

def entrySize : Nat := 24

def readUInt32 (b : Bytes) : UInt32 := .ofNat (BigEndian.value b.reverse)

def CertTableEntry.ofBytes (b : Bytes) : CertTableEntry where
  guid := b.take 16
  offset := readUInt32 ((b.drop 16).take 4)
  length := readUInt32 ((b.drop 20).take 4)

/-- How `CertificatesToEndorsements` ends: it returns, or it reads memory outside the buffer. -/
inductive TableOutcome where
  | returned (err : Error) (endorsements : SevSnpEndorsements)
  | outside
deriving DecidableEq, Repr

/-- The loop of `CertificatesToEndorsements`, for at most so many turns.  `entry_end` and `cert_end`
    are `uint32_t`. -/
def certificatesLoop (certs : Bytes) : Nat → Nat → SevSnpEndorsements → Option TableOutcome
  | 0, _, _ => none
  | turns + 1, i, endorsements =>
    let certsSize := UInt32.ofNat certs.length
    let entryEnd := UInt32.ofNat (entrySize * (i + 1))
    if entryEnd > certsSize then
      some (.returned .attestationSEVCertsTableEntryTooLarge endorsements)
    else
      match Buffer.read certs (entrySize * i) entrySize with
      | none => some .outside
      | some bytes =>
        if bytes = List.replicate entrySize 0 then some (.returned .ok endorsements)
        else
          let entry := CertTableEntry.ofBytes bytes
          let certEnd := entry.offset + entry.length
          if entry.offset > certsSize ∨ certEnd > certsSize then
            some (.returned .attestationSEVCertsTableCertTooLarge endorsements)
          else
            match Buffer.read certs entry.offset.toNat entry.length.toNat with
            | none => some .outside
            | some cert =>
              certificatesLoop certs turns (i + 1) (endorsements.set entry.guid cert)

/-- `CertificatesToEndorsements` on a buffer of less than `2 ^ 32` bytes.  A turn that does not end
    the loop has read another entry, so there are no more turns than bytes. -/
def certificatesToEndorsements (certs : Bytes) (endorsements : SevSnpEndorsements) :
    Option TableOutcome :=
  certificatesLoop certs (certs.length + 1) 0 endorsements

def terminator : Bytes := List.replicate entrySize 0

/-- The two numbers of an entry pass the checks, where their sum is one of 32 bits. -/
def CertTableEntry.Passes (certsSize : Nat) (entry : CertTableEntry) : Prop :=
  entry.offset.toNat ≤ certsSize ∧ (entry.offset.toNat + entry.length.toNat) % 2 ^ 32 ≤ certsSize

/-- The entries before index `i` lie in the buffer, do not end the table, and pass the checks. -/
def Reached (certs : Bytes) (i : Nat) : Prop :=
  ∀ j < i, ∃ bytes, Buffer.read certs (entrySize * j) entrySize = some bytes ∧ bytes ≠ terminator ∧
    (CertTableEntry.ofBytes bytes).Passes certs.length

/-- Neither the end of the entry at index `i` nor, if it passes the checks, that of its certificate is
    beyond 32 bits. -/
def Fits (certs : Bytes) (i : Nat) : Prop :=
  entrySize * (i + 1) < 2 ^ 32 ∧
    ∀ bytes, Buffer.read certs (entrySize * i) entrySize = some bytes → bytes ≠ terminator →
      (CertTableEntry.ofBytes bytes).Passes certs.length →
      (CertTableEntry.ofBytes bytes).offset.toNat + (CertTableEntry.ofBytes bytes).length.toNat < 2 ^ 32

theorem read_isSome_iff {certs : Bytes} {start n : Nat} :
    (∃ b, Buffer.read certs start n = some b) ↔ start + n ≤ certs.length := by
  rw [Buffer.read]
  split_ifs with h
  · exact iff_of_true ⟨_, rfl⟩ h
  · exact iff_of_false (by rintro ⟨_, ⟨⟩⟩) h

theorem passes_iff {certs : Bytes} (hsize : certs.length < 2 ^ 32) (entry : CertTableEntry) :
    ¬(entry.offset > UInt32.ofNat certs.length ∨
        entry.offset + entry.length > UInt32.ofNat certs.length) ↔ entry.Passes certs.length := by
  have hlen : (UInt32.ofNat certs.length).toNat = certs.length := UInt32.toNat_ofNat_of_lt' hsize
  rw [gt_iff_lt, gt_iff_lt, not_or, UInt32.not_lt, UInt32.not_lt, UInt32.le_iff_toNat_le,
    UInt32.le_iff_toNat_le, hlen, UInt32.toNat_add, CertTableEntry.Passes]

theorem Reached.le {certs : Bytes} {i : Nat} (h : Reached certs i) : entrySize * i ≤ certs.length := by
  cases i with
  | zero => exact Nat.zero_le _
  | succ i =>
    obtain ⟨bytes, hbytes, -⟩ := h i (Nat.lt_succ_self i)
    rw [Nat.mul_succ]
    exact read_isSome_iff.mp ⟨bytes, hbytes⟩

theorem Reached.mono {certs : Bytes} {i k : Nat} (h : Reached certs k) (hle : i ≤ k) :
    Reached certs i :=
  fun j hj => h j (hj.trans_le hle)

/-- An entry that ends the table, or that the checks refuse, is the last one that is reached. -/
theorem not_reached_succ {certs : Bytes} {i : Nat}
    (hstop : ∀ bytes, Buffer.read certs (entrySize * i) entrySize = some bytes → bytes ≠ terminator →
      ¬(CertTableEntry.ofBytes bytes).Passes certs.length) : ¬Reached certs (i + 1) := by
  intro h
  obtain ⟨bytes, hbytes, hterminator, hpasses⟩ := h i (Nat.lt_succ_self i)
  exact hstop bytes hbytes hterminator hpasses

/-- One turn of the loop at an index that it reaches: it returns, and no later entry is reached; or a
    number wraps around, and it leaves the buffer; or it goes on with the next entry. -/
theorem certificatesLoop_turn {certs : Bytes} (hsize : certs.length < 2 ^ 32) {i : Nat}
    (turns : Nat) (endorsements : SevSnpEndorsements) (hi : Reached certs i) :
    ((∃ err, certificatesLoop certs (turns + 1) i endorsements =
          some (.returned err endorsements)) ∧ ¬Reached certs (i + 1) ∧ Fits certs i) ∨
      (certificatesLoop certs (turns + 1) i endorsements = some .outside ∧ ¬Fits certs i) ∨
      ∃ endorsements', certificatesLoop certs (turns + 1) i endorsements =
          certificatesLoop certs turns (i + 1) endorsements' ∧ Reached certs (i + 1) ∧
        Fits certs i := by
  have hlen : (UInt32.ofNat certs.length).toNat = certs.length := UInt32.toNat_ofNat_of_lt' hsize
  have hle := hi.le
  have hend : UInt32.ofNat (entrySize * (i + 1)) > UInt32.ofNat certs.length ↔
      certs.length < entrySize * (i + 1) % 2 ^ 32 := by
    rw [gt_iff_lt, UInt32.lt_iff_toNat_lt, hlen, UInt32.toNat_ofNat']
  rw [certificatesLoop]
  simp only [hend]
  cases hbytes : Buffer.read certs (entrySize * i) entrySize with
  | none =>
    have hout : certs.length < entrySize * (i + 1) := by
      by_contra hin
      obtain ⟨bytes, hsome⟩ : ∃ b, Buffer.read certs (entrySize * i) entrySize = some b :=
        read_isSome_iff.mpr (not_lt.mp hin)
      rw [hbytes] at hsome
      cases hsome
    split_ifs with hwraps
    · refine .inl ⟨⟨_, rfl⟩, not_reached_succ ?_, ?_, ?_⟩
      · simp [hbytes]
      · rw [entrySize] at hwraps hle ⊢
        omega
      · simp [hbytes]
    · refine .inr (.inl ⟨rfl, fun hfits => hwraps ?_⟩)
      rwa [Nat.mod_eq_of_lt hfits.1]
  | some bytes =>
    have hin : entrySize * (i + 1) ≤ certs.length := read_isSome_iff.mp ⟨bytes, hbytes⟩
    have hlt : entrySize * (i + 1) < 2 ^ 32 := hin.trans_lt hsize
    rw [if_neg (by rw [Nat.mod_eq_of_lt hlt]; exact hin.not_gt)]
    simp only
    split_ifs with hterminator hcert
    · refine .inl ⟨⟨_, rfl⟩, not_reached_succ ?_, hlt, ?_⟩ <;>
        simp [hbytes, terminator, hterminator]
    · have hrefused : ¬(CertTableEntry.ofBytes bytes).Passes certs.length :=
        fun hpasses => (passes_iff hsize _).mpr hpasses hcert
      refine .inl ⟨⟨_, rfl⟩, not_reached_succ ?_, hlt, ?_⟩ <;> simp [hbytes, hrefused]
    · have hpasses := (passes_iff hsize _).mp hcert
      cases hread : Buffer.read certs (CertTableEntry.ofBytes bytes).offset.toNat
          (CertTableEntry.ofBytes bytes).length.toNat with
      | none =>
        refine .inr (.inl ⟨rfl, fun hfits => ?_⟩)
        have hcertIn := hpasses.2
        rw [Nat.mod_eq_of_lt (hfits.2 bytes hbytes hterminator hpasses)] at hcertIn
        obtain ⟨cert, hsome⟩ := read_isSome_iff.mpr hcertIn
        rw [hread] at hsome
        cases hsome
      | some cert =>
        have hcertIn := read_isSome_iff.mp ⟨cert, hread⟩
        refine .inr (.inr ⟨_, rfl, fun j hj => ?_, hlt, fun bytes' hsome _ _ => ?_⟩)
        · rcases Nat.lt_succ_iff_lt_or_eq.mp hj with hj | rfl
          · exact hi j hj
          · exact ⟨bytes, hbytes, hterminator, hpasses⟩
        · rw [hbytes] at hsome
          obtain rfl := Option.some.inj hsome
          exact hcertIn.trans_lt hsize

/-- From an index that it reaches, the loop returns exactly if no number wraps around there or at a
    later index that it reaches.  There are turns enough, as each has read another entry. -/
theorem certificatesLoop_returns_iff {certs : Bytes} (hsize : certs.length < 2 ^ 32) {turns i : Nat}
    (endorsements : SevSnpEndorsements) (hturns : certs.length < turns + i) (hi : Reached certs i) :
    (∃ err endorsements', certificatesLoop certs turns i endorsements =
      some (.returned err endorsements')) ↔ ∀ k, i ≤ k → Reached certs k → Fits certs k := by
  induction turns generalizing i endorsements with
  | zero =>
    have hle := hi.le
    rw [entrySize] at hle
    omega
  | succ turns ih =>
    rcases certificatesLoop_turn hsize turns endorsements hi with
      ⟨⟨err, hloop⟩, hlast, hfits⟩ | ⟨hloop, hfits⟩ | ⟨endorsements', hloop, hnext, hfits⟩
    · rw [hloop]
      refine iff_of_true ⟨err, endorsements, rfl⟩ fun k hk hreached => ?_
      rcases hk.lt_or_eq with hlt | rfl
      · exact absurd (hreached.mono hlt) hlast
      · exact hfits
    · rw [hloop]
      exact iff_of_false (by rintro ⟨_, _, ⟨⟩⟩) fun h => hfits (h i le_rfl hi)
    · rw [hloop, ih endorsements' (by omega) hnext]
      refine ⟨fun h k hk hreached => ?_, fun h k hk => h k (Nat.le_of_succ_le hk)⟩
      rcases hk.lt_or_eq with hlt | rfl
      · exact h k hlt hreached
      · exact hfits

/-- `CertificatesToEndorsements` returns, having read bytes of the buffer only, exactly if no number
    wraps around at an index of the table that it reaches. -/
theorem certificates_inside (certs : Bytes) (endorsements : SevSnpEndorsements)
    (hsize : certs.length < 2 ^ 32) :
    (∃ err endorsements', certificatesToEndorsements certs endorsements =
      some (.returned err endorsements')) ↔ ∀ i, Reached certs i → Fits certs i := by
  have hstart : Reached certs 0 := fun j hj => absurd hj (Nat.not_lt_zero j)
  rw [certificatesToEndorsements, certificatesLoop_returns_iff hsize _ (Nat.lt_succ_self _) hstart]
  exact ⟨fun h i => h i (Nat.zero_le i), fun h i _ => h i⟩

def sampleEntry (offset length : Bytes) : Bytes := List.replicate 16 1 ++ offset ++ length

def sampleTable : Bytes := sampleEntry [48, 0, 0, 0] [2, 0, 0, 0] ++ terminator ++ [7, 7]

theorem certificates_inside_sampleTable :
    ∃ err endorsements', certificatesToEndorsements sampleTable {} =
      some (.returned err endorsements') := by
  refine (certificates_inside sampleTable {} (by decide)).mpr ?_
  rintro (_ | _ | i) hi
  · refine ⟨by decide, fun bytes hbytes _ _ => ?_⟩
    obtain rfl := Option.some.inj hbytes
    decide +kernel
  · refine ⟨by decide, fun bytes hbytes _ _ => ?_⟩
    obtain rfl := Option.some.inj hbytes
    decide +kernel
  · -- the second entry ends the table
    obtain ⟨bytes, hbytes, hterminator, -⟩ := hi 1 (by omega)
    obtain rfl := Option.some.inj hbytes
    exact absurd (by decide +kernel) hterminator

/-- A certificate at 32 with a length of `2 ^ 32 - 16`: its end wraps to 16, and 4 GiB are copied
    from a buffer of 48 bytes. -/
theorem certificate_end_wraps :
    let certs := sampleEntry [32, 0, 0, 0] [0xf0, 0xff, 0xff, 0xff] ++ terminator
    certs.length = 48 ∧ certificatesToEndorsements certs {} = some .outside := by
  decide +kernel

end SVR2.SEV
