import SVR2.Minimums

/-!
# Minimum values of an SEV-SNP attestation report

`attestation/sev/sev.cc`: what a verified report has to say before a peer is believed, and the
values that are derived from it and held against the limits.
-/

namespace SVR2.SEV

open Lib Minimums

structure TcbVersion where
  bootLoader : Byte
  tee : Byte
  snp : Byte
  microcode : Byte
deriving DecidableEq

/-- The fields of `attestation_report` that the source reads. -/
structure Report where
  version : Nat
  policy : Nat
  signatureAlgo : Nat
  flags : Nat
  platformVersion : TcbVersion
  reportData : Bytes
  measurement : Bytes
  hostData : Bytes
  reportedTcb : TcbVersion
deriving DecidableEq

/-- `POLICY_MIGRATE_MA_MASK` is bit 18 of the guest policy. -/
def policyMigrateMA (policy : Nat) : Bool := policy.testBit 18

/-- `POLICY_DEBUG_MASK` is bit 19 of the guest policy. -/
def policyDebug (policy : Nat) : Bool := policy.testBit 19

def sigAlgoEcdsaP384Sha384 : Nat := 1

def flagsKeyMask : Nat := 0x04 ||| 0x08

def flagsKeyVcek : Nat := 0x00

def validateReport (report : Report) : Error :=
  if policyMigrateMA report.policy then .attestationSEVMigrationAllowed
  else if policyDebug report.policy then .attestationSEVDebugEnabled
  else if report.version ≠ 2 ∨ report.signatureAlgo ≠ sigAlgoEcdsaP384Sha384 ∨
      report.flags &&& flagsKeyMask ≠ flagsKeyVcek then .attestationSEVUnsupportedReport
  else .ok

def allowRemote (here remote : Report) : Error :=
  match validateReport remote with
  | .ok =>
    if here.measurement ≠ remote.measurement then .attestationSEVMeasurementMismatch
    else if here.hostData ≠ remote.hostData then .attestationSEVHostDataMismatch
    else .ok
  | err => err

/-- The names and numbers of a report that limits may speak about. -/
def components (report : Report) : List (String × Byte) :=
  [("sev_platform_version_boot_loader", report.platformVersion.bootLoader),
   ("sev_platform_version_tee", report.platformVersion.tee),
   ("sev_platform_version_snp", report.platformVersion.snp),
   ("sev_platform_version_microcode", report.platformVersion.microcode),
   ("sev_reported_tcb_boot_loader", report.reportedTcb.bootLoader),
   ("sev_reported_tcb_tee", report.reportedTcb.tee),
   ("sev_reported_tcb_snp", report.reportedTcb.snp),
   ("sev_reported_tcb_microcode", report.reportedTcb.microcode)]

def assignComponents (map : MinimumValues) (report : Report) : MinimumValues :=
  (components report).foldl (fun map c => map.insert c.1 (U64 c.2)) map

/-- `MinimumsFromReport`.  `auto map = *v.mutable_val()` declares a copy of the map, not a
    reference to it: the assignments go to the copy, and `v` is returned as it was. -/
def minimumsFromReport (report : Report) : MinimumValues :=
  let v : MinimumValues := ∅
  let _map := assignComponents v report
  v

structure AttestationData where
  publicKey : Bytes := []
  minimumValues : MinimumValues := ∅
deriving DecidableEq

structure Attestation where
  evidence : Bytes
  endorsements : Bytes
deriving DecidableEq

/-- What the certificate and signature library answers: `SevSnpEndorsements::ParseFromString`
    and `ReportFromVerifiedBuffer`. -/
structure Verifier (Endorsements : Type) where
  parseEndorsements : Bytes → Option Endorsements
  reportFromVerifiedBuffer : Bytes → Endorsements → Nat → Report × Error

def publicKeySize : Nat := 32

def dataFromVerifiedAttestation {Endorsements : Type} (lib : Verifier Endorsements)
    (here : Report) (attestation : Attestation) (now : Nat) : AttestationData × Error :=
  match lib.parseEndorsements attestation.endorsements with
  | none => ({}, .attestationSEVParseEndorsements)
  | some endorsements =>
    match lib.reportFromVerifiedBuffer attestation.evidence endorsements now with
    | (report, .ok) =>
      match allowRemote here report with
      | .ok =>
        let out : AttestationData := { publicKey := report.reportData.take publicKeySize }
        ({ out with
            minimumValues := combineValues out.minimumValues (minimumsFromReport report) }, .ok)
      | err => ({}, err)
    | (_, err) => ({}, err)

/-- The limits are numbers of eight bytes. -/
def Numeric (limits : MinimumLimits) : Prop :=
  ∀ key limit, limits.find? key = some limit → ∃ x < 2 ^ 64, limit = U64 x

/-- Each component that has a limit is at least that limit. -/
def Meets (report : Report) (limits : MinimumLimits) : Prop :=
  ∀ c ∈ components report, ∀ x < 2 ^ 64, limits.find? c.1 = some (U64 x) → x ≤ c.2

theorem length_U64 (x : Nat) : (U64 x).length = 8 := BigEndian.length_digits ..

theorem checkValueAgainstSet_U64 {limits : MinimumLimits} (hlimits : Numeric limits)
    (key : String) {y : Nat} (hy : y < 2 ^ 64) :
    checkValueAgainstSet limits key (U64 y) = .ok ↔
      ∀ x < 2 ^ 64, limits.find? key = some (U64 x) → x ≤ y := by
  rw [checkValueAgainstSet]
  cases hlimit : limits.find? key with
  | none => simp
  | some limit =>
    obtain ⟨x, hx, rfl⟩ := hlimits key limit hlimit
    have hcompare : U64 y < U64 x ↔ ¬ x ≤ y := by rw [← U64_le_U64 hx hy, not_le]
    simp only [length_U64, hcompare, ne_eq, not_true_eq_false, if_false, Option.some.injEq]
    refine ⟨fun h x' hx' heq => ?_, fun h => if_neg (not_not.mpr (h x hx rfl))⟩
    split_ifs at h with hle
    exact (U64_le_U64 hx' hx).mp heq.ge |>.trans hle

theorem find?_foldl_U64 {l : List (String × Byte)} (hl : (l.map Prod.fst).Nodup)
    (map : MinimumValues) (key : String) (value : Bytes) :
    (l.foldl (fun map c => map.insert c.1 (U64 c.2)) map).find? key = some value ↔
      (∃ c ∈ l, c.1 = key ∧ U64 c.2 = value) ∨
        key ∉ l.map Prod.fst ∧ map.find? key = some value := by
  induction l generalizing map with
  | nil => simp
  | cons c l ih =>
    rw [List.map_cons, List.nodup_cons] at hl
    rw [List.foldl_cons, ih hl.2, OrdMap.find?_insert, List.exists_mem_cons_iff, or_assoc,
      List.map_cons, List.mem_cons, not_or]
    by_cases hkey : c.1 = key
    · subst hkey
      have hno : ¬ ∃ d ∈ l, d.1 = c.1 ∧ U64 d.2 = value := by
        rintro ⟨d, hd, heq, -⟩
        exact hl.1 (List.mem_map.mpr ⟨d, hd, heq⟩)
      simp [hno, hl.1]
    · simp [hkey, Ne.symm hkey]

/-- What the assignments would enforce on a map that is returned: exactly the limits. -/
theorem checkValues_assignComponents (report : Report) {limits : MinimumLimits}
    (hlimits : Numeric limits) :
    checkValues limits (assignComponents ∅ report) = .ok ↔ Meets report limits := by
  have hnodup : ((components report).map Prod.fst).Nodup := by
    simp only [components, List.map_cons, List.map_nil]
    decide
  have hbyte : ∀ b : Byte, b.val < 2 ^ 64 := fun b => b.isLt.trans (by decide)
  rw [checkValues_eq_ok]
  refine ⟨fun h c hc => ?_, fun h key value hvalue => ?_⟩
  · rw [← checkValueAgainstSet_U64 hlimits c.1 (hbyte c.2)]
    exact h c.1 _ ((find?_foldl_U64 hnodup ∅ _ _).mpr (.inl ⟨c, hc, rfl, rfl⟩))
  · rcases (find?_foldl_U64 hnodup ∅ key value).mp hvalue with ⟨c, hc, rfl, rfl⟩ | ⟨-, hempty⟩
    · exact (checkValueAgainstSet_U64 hlimits c.1 (hbyte c.2)).mpr (h c hc)
    · rw [OrdMap.find?_empty] at hempty
      exact absurd hempty nofun

theorem checkValues_minimumsFromReport (limits : MinimumLimits) (report : Report) :
    checkValues limits (combineValues ∅ (minimumsFromReport report)) = .ok := rfl

theorem dataFromVerifiedAttestation_ok {Endorsements : Type} {lib : Verifier Endorsements}
    {here : Report} {attestation : Attestation} {now : Nat}
    (h : (dataFromVerifiedAttestation lib here attestation now).2 = .ok) :
    ∃ endorsements report,
      lib.parseEndorsements attestation.endorsements = some endorsements ∧
      lib.reportFromVerifiedBuffer attestation.evidence endorsements now = (report, .ok) ∧
      allowRemote here report = .ok ∧
      (dataFromVerifiedAttestation lib here attestation now).1 =
        { publicKey := report.reportData.take publicKeySize
          minimumValues := combineValues ∅ (minimumsFromReport report) } := by
  rw [dataFromVerifiedAttestation] at h ⊢
  split at h
  · cases h
  · rename_i endorsements hparse
    split at h
    · rename_i report hreport
      split at h
      · rename_i hallow
        exact ⟨endorsements, report, hparse, hreport, hallow, rfl⟩
      · rename_i herr
        exact absurd h herr
    · rename_i err herr _
      exact absurd h herr

/-- The check of what comes out of an attestation says whether a report reaches the limits exactly if
    it does: a report that falls short passes too.  The check of what went to the copy is exact. -/
theorem minimums_enforced_iff_meets {Endorsements : Type} (lib : Verifier Endorsements)
    (here report : Report) (attestation : Attestation) (endorsements : Endorsements) (now : Nat)
    (limits : MinimumLimits) (hlimits : Numeric limits)
    (hparse : lib.parseEndorsements attestation.endorsements = some endorsements)
    (hreport : lib.reportFromVerifiedBuffer attestation.evidence endorsements now = (report, .ok))
    (hok : (dataFromVerifiedAttestation lib here attestation now).2 = .ok) :
    ((checkValues limits (dataFromVerifiedAttestation lib here attestation now).1.minimumValues = .ok ↔
        Meets report limits) ↔ Meets report limits) ∧
      (checkValues limits (assignComponents ∅ report) = .ok ↔ Meets report limits) := by
  obtain ⟨_, _, hparse', hreport', -, hdata⟩ := dataFromVerifiedAttestation_ok hok
  obtain rfl := Option.some.inj (hparse.symm.trans hparse')
  obtain rfl := congrArg Prod.fst (hreport.symm.trans hreport')
  refine ⟨?_, checkValues_assignComponents report hlimits⟩
  have hpasses : checkValues limits
      (dataFromVerifiedAttestation lib here attestation now).1.minimumValues = .ok := by
    rw [hdata]
    exact checkValues_minimumsFromReport limits report
  exact ⟨fun h => h.mp hpasses, fun h => iff_of_true hpasses h⟩

namespace Sample

def trusting (report : Report) : Verifier Unit where
  parseEndorsements _ := some ()
  reportFromVerifiedBuffer _ _ _ := (report, .ok)

def tcb (b : Byte) : TcbVersion := ⟨b, b, b, b⟩

def report (b : Byte) : Report :=
  { version := 2, policy := 0, signatureAlgo := 1, flags := 0
    platformVersion := tcb b, reportedTcb := tcb b
    reportData := [], measurement := [7], hostData := [] }

/-- One limit: the firmware of the secure processor has at least version 2. -/
def limits : MinimumLimits := OrdMap.insert ∅ "sev_reported_tcb_snp" (U64 2)

theorem numeric_limits : Numeric limits := by
  intro key limit h
  rw [limits, OrdMap.find?_insert] at h
  split_ifs at h
  · exact ⟨2, by decide, (Option.some.inj h).symm⟩
  · cases h

theorem minimums_enforced_iff_meets_three :
    (checkValues limits (dataFromVerifiedAttestation (trusting (report 3)) (report 3) ⟨[], []⟩ 0).1.minimumValues
        = .ok ↔ Meets (report 3) limits) ∧ Meets (report 3) limits := by
  obtain ⟨hexact, hcopy⟩ := minimums_enforced_iff_meets (trusting (report 3)) (report 3) (report 3) ⟨[], []⟩ ()
    0 limits numeric_limits rfl rfl (by decide +kernel)
  have hmeets : Meets (report 3) limits := hcopy.mp (by decide +kernel)
  exact ⟨hexact.mpr hmeets, hmeets⟩

/-- A peer whose firmware has version 1 is attested, and its values pass the check against the
    limit 2; the values that went to the copy would not have. -/
theorem minimums_not_enforced :
    (dataFromVerifiedAttestation (trusting (report 1)) (report 1) ⟨[], []⟩ 0).2 = .ok ∧
      checkValues limits
          (dataFromVerifiedAttestation (trusting (report 1)) (report 1) ⟨[], []⟩ 0).1.minimumValues = .ok ∧
      ("sev_reported_tcb_snp", 1) ∈ components (report 1) ∧
      limits.find? "sev_reported_tcb_snp" = some (U64 2) ∧
      checkValues limits (assignComponents ∅ (report 1)) = .minimumsValueTooLow := by
  decide +kernel

end Sample

end SVR2.SEV
