import Subhost.Consensus.Registry
import Mathlib.Data.Finset.Card
import Mathlib.Data.Finset.Dedup
/-!
# Quorum sizing and certificate validation (subhost-consensus/src/lib.rs:21-51, 304-415)

`validateQc_ok_iff` is the only fact about `validate_qc` that later modules use: a certificate is
accepted exactly when its signers are distinct, each of its entries verifies under the key
registered for its signer, and there are at least `quorum_threshold` of them.
-/
namespace Subhost
open Bincode Uint

/-- `BLS_SIGNATURE_BYTES` (lib.rs:18). -/
def blsSignatureBytes : Nat := 96

/-- `ConsensusConfig` (lib.rs:24). -/
structure ConsensusConfig where
  validatorCount : Nat
  quorumThreshold : Nat
  maxFaulty : Nat
  blockTimeMs : U64
  dagRoundTimeoutMs : U64
deriving DecidableEq, Repr

/-- `ConsensusConfig::new` (lib.rs:39). -/
def ConsensusConfig.new (validatorCount : Nat) : Except ConsensusError ConsensusConfig :=
  if validatorCount = 0 then .error (.invalidConfig "validator_count must be > 0")
  else
    let maxFaulty := (validatorCount - 1) / 3
    .ok ⟨validatorCount, 2 * maxFaulty + 1, maxFaulty, defaultBlockTimeMs, 500#64⟩

/-- `QuorumCertificate` (lib.rs:306). -/
structure QuorumCertificate where
  view : U64
  blockHash : Hash
  signatures : List (Address × Bytes)
deriving DecidableEq

namespace QuorumCertificate

/-- `QuorumCertificate::payload_for` (lib.rs:322). -/
def payloadFor (view : U64) (blockHash : Hash) : Bytes :=
  ascii "subhost-qc-v1" ++ beBytes view.toNat ++ blockHash.toList

/-- `QuorumCertificate::signing_payload` (lib.rs:318). -/
def signingPayload (qc : QuorumCertificate) : Bytes := payloadFor qc.view qc.blockHash

/-- The addresses a certificate lists. -/
def signers (qc : QuorumCertificate) : Finset Address := (qc.signatures.map Prod.fst).toFinset

end QuorumCertificate

/-- `HotStuff` (lib.rs:332). -/
structure HotStuff (S : SigScheme) where
  view : U64
  highQc : Option QuorumCertificate
  lockedView : U64
  config : ConsensusConfig
  registry : ValidatorRegistry S

namespace HotStuff

variable {S : SigScheme}

/-- `HotStuff::new` (lib.rs:342). -/
def new (config : ConsensusConfig) (registry : ValidatorRegistry S) : HotStuff S :=
  ⟨0, none, 0, config, registry⟩

/-- The checks of one entry, in the loop's order (lib.rs:391-403). -/
def checkSigner (g : ValidatorRegistry S) (payload : Bytes) (a : Address) (bytes : Bytes) :
    Except ConsensusError Unit :=
  if bytes.length ≠ blsSignatureBytes then .error (.malformedSignature a)
  else
    match g.publicKey a with
    | none => .error (.unknownValidator a)
    | some key =>
      match S.deserialize bytes with
      | none => .error (.malformedSignature a)
      | some signature =>
        if S.verify key payload signature = false then .error (.invalidSignature a) else .ok ()

/-- The loop of `validate_qc` (lib.rs:390-407); `verified` is its `HashSet`. -/
def collectSigners (g : ValidatorRegistry S) (payload : Bytes) :
    Finset Address → List (Address × Bytes) → Except ConsensusError (Finset Address)
  | verified, [] => .ok verified
  | verified, (a, bytes) :: rest =>
    match checkSigner g payload a bytes with
    | .error e => .error e
    | .ok () =>
      -- `!verified.insert(a)`
      if a ∈ verified then .error (.duplicateSigner a) else collectSigners g payload (insert a verified) rest

/-- `HotStuff::validate_qc` (lib.rs:382). -/
def validateQc (h : HotStuff S) (qc : QuorumCertificate) : Except ConsensusError Unit :=
  if h.registry.isEmpty then .error .emptyValidatorRegistry
  else
    match collectSigners h.registry qc.signingPayload ∅ qc.signatures with
    | .error e => .error e
    | .ok verified =>
      if verified.card < h.config.quorumThreshold then
        .error (.insufficientSupport verified.card h.config.quorumThreshold)
      else .ok ()

/-! ## What acceptance means -/

/-- An entry that verifies under the registered key of its signer. -/
def Genuine (g : ValidatorRegistry S) (payload : Bytes) (entry : Address × Bytes) : Prop :=
  entry.2.length = blsSignatureBytes ∧ ∃ key signature, g.publicKey entry.1 = some key ∧
    S.deserialize entry.2 = some signature ∧ S.verify key payload signature = true

theorem checkSigner_ok_iff {g : ValidatorRegistry S} {payload bytes : Bytes} {a : Address} :
    checkSigner g payload a bytes = .ok () ↔ Genuine g payload (a, bytes) := by
  unfold checkSigner Genuine
  by_cases hlen : bytes.length = blsSignatureBytes
  · cases hkey : g.publicKey a with
    | none => simp [hlen]
    | some key =>
      cases hsig : S.deserialize bytes with
      | none => simp [hlen]
      | some signature =>
        cases hver : S.verify key payload signature <;> simp [hlen, hver]
  · simp [hlen]

theorem collectSigners_ok_iff {g : ValidatorRegistry S} {payload : Bytes} {entries : List (Address × Bytes)}
    {verified out : Finset Address} :
    collectSigners g payload verified entries = .ok out ↔
      (∀ x ∈ entries, Genuine g payload x) ∧ (entries.map Prod.fst).Nodup ∧
      (∀ x ∈ entries, x.1 ∉ verified) ∧ out = verified ∪ (entries.map Prod.fst).toFinset := by
  induction entries generalizing verified with
  | nil => simp [collectSigners, eq_comm]
  | cons x rest ih =>
    obtain ⟨a, bytes⟩ := x
    unfold collectSigners
    cases hcheck : checkSigner g payload a bytes with
    | error e =>
      have hbad : ¬ Genuine g payload (a, bytes) := by
        rw [← checkSigner_ok_iff, hcheck]
        simp
      simp [hbad]
    | ok u =>
      have hgood : Genuine g payload (a, bytes) := checkSigner_ok_iff.mp hcheck
      by_cases hdup : a ∈ verified
      · simp [hdup]
      · simp only [hdup, if_false, ih, List.forall_mem_cons, List.map_cons, List.nodup_cons, List.toFinset_cons,
          Finset.insert_union, Finset.union_insert, hgood, true_and, not_false_eq_true]
        constructor
        · rintro ⟨hall, hnodup, hfresh, hout⟩
          refine ⟨hall, ⟨?_, hnodup⟩, fun y hy hmem => hfresh y hy (Finset.mem_insert_of_mem hmem), hout⟩
          intro hmem
          obtain ⟨y, hy, hya⟩ := List.mem_map.mp hmem
          exact hfresh y hy (by rw [hya]; exact Finset.mem_insert_self a verified)
        · rintro ⟨hall, ⟨hnot, hnodup⟩, hfresh, hout⟩
          refine ⟨hall, hnodup, ?_, hout⟩
          intro y hy hmem
          rcases Finset.mem_insert.mp hmem with hya | hold
          · exact hnot (List.mem_map.mpr ⟨y, hy, hya⟩)
          · exact hfresh y hy hold

/-- **Acceptance**, in full. -/
theorem validateQc_ok_iff {h : HotStuff S} {qc : QuorumCertificate} :
    h.validateQc qc = .ok () ↔
      h.registry.isEmpty = false ∧ (∀ x ∈ qc.signatures, Genuine h.registry qc.signingPayload x) ∧
      (qc.signatures.map Prod.fst).Nodup ∧ h.config.quorumThreshold ≤ qc.signers.card := by
  unfold validateQc
  cases hempty : h.registry.isEmpty with
  | true => simp
  | false =>
    cases hrun : collectSigners h.registry qc.signingPayload ∅ qc.signatures with
    | error e =>
      simp only [Bool.false_eq_true, if_false, reduceCtorEq, true_and, false_iff]
      rintro ⟨hall, hnodup, -⟩
      have hok : collectSigners h.registry qc.signingPayload ∅ qc.signatures = .ok (∅ ∪ qc.signers) :=
        collectSigners_ok_iff.mpr ⟨hall, hnodup, by simp, rfl⟩
      rw [hrun] at hok
      cases hok
    | ok verified =>
      obtain ⟨hall, hnodup, -, hout⟩ := collectSigners_ok_iff.mp hrun
      have hcard : verified = qc.signers := by rw [hout, Finset.empty_union]; rfl
      rw [hcard]
      by_cases hfew : qc.signers.card < h.config.quorumThreshold
      · simp [hfew]
      · exact iff_of_true (by simp [hfew]) ⟨rfl, hall, hnodup, Nat.le_of_not_lt hfew⟩

/-! ## Acceptance by the entries alone -/

theorem card_signers {entries : List (Address × Bytes)} (h : (entries.map Prod.fst).Nodup) :
    (entries.map Prod.fst).toFinset.card = entries.length := by
  rw [List.toFinset_card_of_nodup h, List.length_map]

/-- The conditions on the entries of an accepted certificate, none of which sees their order. -/
def Accepts (h : HotStuff S) (payload : Bytes) (entries : List (Address × Bytes)) : Prop :=
  h.registry.isEmpty = false ∧ (∀ x ∈ entries, Genuine h.registry payload x) ∧ (entries.map Prod.fst).Nodup ∧
    h.config.quorumThreshold ≤ entries.length

theorem validateQc_ok_iff_accepts {h : HotStuff S} {qc : QuorumCertificate} :
    h.validateQc qc = .ok () ↔ h.Accepts qc.signingPayload qc.signatures := by
  rw [validateQc_ok_iff, Accepts]
  refine and_congr_right fun _ => and_congr_right fun _ => and_congr_right fun hnodup => ?_
  rw [QuorumCertificate.signers, card_signers hnodup]

theorem Accepts.perm {h : HotStuff S} {payload : Bytes} {entries entries' : List (Address × Bytes)}
    (ha : h.Accepts payload entries) (hp : entries.Perm entries') : h.Accepts payload entries' := by
  obtain ⟨hregistry, hgenuine, hnodup, hquorum⟩ := ha
  refine ⟨hregistry, fun x hx => hgenuine x (hp.mem_iff.mpr hx), ?_, hp.length_eq ▸ hquorum⟩
  exact (hp.map Prod.fst).nodup_iff.mp hnodup

/-- Every entry has a registered signer of its own. -/
theorem Accepts.length_le {h : HotStuff S} {payload : Bytes} {entries : List (Address × Bytes)}
    (ha : h.Accepts payload entries) : entries.length ≤ h.registry.len := by
  obtain ⟨-, hgenuine, hnodup, -⟩ := ha
  rw [← card_signers hnodup]
  refine Map.card_le_size fun a ha => ?_
  obtain ⟨x, hx, rfl⟩ := List.mem_map.mp (List.mem_toFinset.mp ha)
  obtain ⟨-, key, -, hkey, -⟩ := hgenuine x hx
  exact ⟨key, hkey⟩

/-- **Exact acceptance.** A certificate is accepted exactly when the registry is not empty, every entry is
96 bytes that decode to a signature of the payload under its signer's registered key, no signer is listed
twice, and there are at least `quorum_threshold` entries. So the order of the entries does not matter, and
there are never more of them than registered validators. -/
theorem validateQc_exact (h : HotStuff S) (qc : QuorumCertificate) :
    (h.validateQc qc = .ok () ↔
      h.registry.isEmpty = false ∧
      (∀ x ∈ qc.signatures, x.2.length = 96 ∧ ∃ key signature, h.registry.publicKey x.1 = some key ∧
        S.deserialize x.2 = some signature ∧
        S.verify key (QuorumCertificate.payloadFor qc.view qc.blockHash) signature = true) ∧
      (qc.signatures.map Prod.fst).Nodup ∧ h.config.quorumThreshold ≤ qc.signatures.length) ∧
    (∀ entries, entries.Perm qc.signatures →
      (h.validateQc { qc with signatures := entries } = .ok () ↔ h.validateQc qc = .ok ())) ∧
    (h.validateQc qc = .ok () → qc.signatures.length ≤ h.registry.len) := by
  refine ⟨validateQc_ok_iff_accepts, fun entries hp => ?_, fun hok => (validateQc_ok_iff_accepts.mp hok).length_le⟩
  rw [validateQc_ok_iff_accepts, validateQc_ok_iff_accepts]
  exact ⟨fun ha => ha.perm hp, fun ha => ha.perm hp.symm⟩

/-- Validator `i` registers the key of secret `i`. -/
def enrolment (i : Nat) : Registration smallBls.scheme :=
  ⟨addressOf i, smallBls.publicKey i, smallBls.proofOfPossession i⟩

def pairRegistry : ValidatorRegistry smallBls.scheme := .registered [enrolment 1, enrolment 2]

/-- Validator `i` signs the first view's block. -/
def vote (i : Nat) : Address × Bytes :=
  (addressOf i, smallBls.serialize (smallBls.sign i (QuorumCertificate.payloadFor 1 Hash.zero)))

def pairCertificate : QuorumCertificate := ⟨1, Hash.zero, [vote 1, vote 2]⟩

/-- Reversed, the certificate is accepted too, and takes no more entries. -/
theorem validateQc_exact_reversed :
    let h := HotStuff.new ⟨2, 2, 0, defaultBlockTimeMs, 500#64⟩ pairRegistry
    h.validateQc { pairCertificate with signatures := pairCertificate.signatures.reverse } = .ok () ∧
      pairCertificate.signatures.length ≤ h.registry.len := by
  intro h
  obtain ⟨-, hperm, hlen⟩ := validateQc_exact h pairCertificate
  have hok : h.validateQc pairCertificate = .ok () := by decide +kernel
  exact ⟨(hperm _ (List.reverse_perm _)).mpr hok, hlen hok⟩

end HotStuff
end Subhost
