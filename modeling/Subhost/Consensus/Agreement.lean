import Subhost.Consensus.HotStuff
import Mathlib.Data.Fintype.Card
import Mathlib.Data.List.FinRange
import Mathlib.Order.Interval.Finset.Nat
/-!
# Agreement of quorum certificates

Two certificates of one view for different blocks must share more than `max_faulty` signers; then
at most `max_faulty` double-signers cannot produce both. Each certificate has `2 f + 1` signers
out of `n`, so the common ones are at least `4 f + 2 - n`, which exceeds `f` only if
`n = 3 f + 1`. `ConsensusConfig::new` (lib.rs:39) uses `2 f + 1` for every `n`: for the other two
residues the quorum is one or two signatures short of `n - f`, and `agreement_iff` shows that the
conflict is then real, whatever the signature scheme.
-/
namespace Subhost
open Bincode Uint Run ValidatorRegistry HotStuff

/-- Two conflicting certificates of one view that replicas with the same `n` registered
validators both accept. -/
structure Conflict (S : SigScheme) (n : Nat) where
  calls : List (Registration S)
  config : ConsensusConfig
  qc₁ : QuorumCertificate
  qc₂ : QuorumCertificate
  len_eq : (registered calls).len = n
  config_eq : ConsensusConfig.new n = .ok config
  accepted₁ : (HotStuff.new config (registered calls)).validateQc qc₁ = .ok ()
  accepted₂ : (HotStuff.new config (registered calls)).validateQc qc₂ = .ok ()
  view_eq : qc₁.view = qc₂.view
  block_ne : qc₁.blockHash ≠ qc₂.blockHash

namespace Conflict

variable {S : SigScheme} {n : Nat} (c : Conflict S n)

def registry : ValidatorRegistry S := registered c.calls

/-- The signers of both certificates. -/
def common : Finset Address := c.qc₁.signers ∩ c.qc₂.signers

/-- `faulty` holds every registered validator that signed both payloads. -/
def DoubleSigners (signed : Address → Bytes → Prop) (faulty : Finset Address) : Prop :=
  ∀ a key, c.registry.publicKey a = some key → signed a c.qc₁.signingPayload → signed a c.qc₂.signingPayload →
    a ∈ faulty

/-- `verify` accepts only what the owner of the registered key signed. -/
def VerifiesGenuine (signed : Address → Bytes → Prop) : Prop :=
  ∀ a key payload signature, c.registry.publicKey a = some key → S.verify key payload signature = true →
    signed a payload

end Conflict

/-- Conflicting certificates share more than `max_faulty` registered signers, and need more than
`max_faulty` double-signers. -/
def Agreement (S : SigScheme) (n : Nat) : Prop :=
  ∀ c : Conflict S n,
    c.config.maxFaulty + 1 ≤ c.common.card ∧ (∀ a ∈ c.common, ∃ key, c.registry.publicKey a = some key) ∧
    ∀ signed faulty, c.VerifiesGenuine signed → c.DoubleSigners signed faulty → c.config.maxFaulty < faulty.card

/-! ## Enough common signers when `n = 3 f + 1` -/

section Sharing
variable {S : SigScheme} {n : Nat}

theorem config_of_new {config : ConsensusConfig} (h : ConsensusConfig.new n = .ok config) :
    config.maxFaulty = (n - 1) / 3 ∧ config.quorumThreshold = 2 * ((n - 1) / 3) + 1 := by
  unfold ConsensusConfig.new at h
  split at h
  · cases h
  · cases h; exact ⟨rfl, rfl⟩

theorem registered_of_signer {h : HotStuff S} {qc : QuorumCertificate} (hok : h.validateQc qc = .ok ())
    {a : Address} (ha : a ∈ qc.signers) :
    ∃ key signature, h.registry.publicKey a = some key ∧ S.verify key qc.signingPayload signature = true := by
  obtain ⟨-, hall, -, -⟩ := validateQc_ok_iff.mp hok
  obtain ⟨entry, hentry, rfl⟩ := List.mem_map.mp (List.mem_toFinset.mp ha)
  obtain ⟨-, key, signature, hkey, -, hver⟩ := hall entry hentry
  exact ⟨key, signature, hkey, hver⟩

theorem Conflict.common_card (c : Conflict S n) : 2 * c.config.quorumThreshold ≤ c.common.card + n := by
  obtain ⟨-, -, -, hq₁⟩ := validateQc_ok_iff.mp c.accepted₁
  obtain ⟨-, -, -, hq₂⟩ := validateQc_ok_iff.mp c.accepted₂
  have hunion : (c.qc₁.signers ∪ c.qc₂.signers).card ≤ n := by
    refine le_of_le_of_eq (Map.card_le_size ?_) c.len_eq
    intro a ha
    rcases Finset.mem_union.mp ha with h₁ | h₂
    · obtain ⟨key, -, hkey, -⟩ := registered_of_signer c.accepted₁ h₁
      exact ⟨key, hkey⟩
    · obtain ⟨key, -, hkey, -⟩ := registered_of_signer c.accepted₂ h₂
      exact ⟨key, hkey⟩
  have hcount := Finset.card_union_add_card_inter c.qc₁.signers c.qc₂.signers
  simp only [HotStuff.new] at hq₁ hq₂
  unfold Conflict.common
  omega

theorem agreement_of_mod (hmod : n % 3 = 1) : Agreement S n := by
  intro c
  obtain ⟨hf, hq⟩ := config_of_new c.config_eq
  have hcard := c.common_card
  have hmany : c.config.maxFaulty + 1 ≤ c.common.card := by omega
  refine ⟨hmany, ?_, ?_⟩
  · intro a ha
    obtain ⟨key, -, hkey, -⟩ := registered_of_signer c.accepted₁ (Finset.mem_inter.mp ha).1
    exact ⟨key, hkey⟩
  · intro signed faulty hgenuine hdouble
    have hsub : c.common ⊆ faulty := by
      intro a ha
      obtain ⟨h₁, h₂⟩ := Finset.mem_inter.mp ha
      obtain ⟨key₁, σ₁, hkey₁, hver₁⟩ := registered_of_signer c.accepted₁ h₁
      obtain ⟨key₂, σ₂, hkey₂, hver₂⟩ := registered_of_signer c.accepted₂ h₂
      exact hdouble a key₁ hkey₁ (hgenuine a key₁ _ σ₁ hkey₁ hver₁) (hgenuine a key₂ _ σ₂ hkey₂ hver₂)
    have := Finset.card_le_card hsub
    omega

end Sharing

/-! ## Too few common signers otherwise -/

/-- `n` key pairs whose owners can sign two blocks of one view: all that is asked of the
signature scheme to make the conflict real. -/
structure Signers (S : SigScheme) (n : Nat) where
  view : U64
  block₁ : Hash
  block₂ : Hash
  block_ne : block₁ ≠ block₂
  key : Fin n → S.PublicKey
  proof : Fin n → S.Signature
  possession : ∀ i, S.verifyPossession (key i) (proof i) = true
  sign : Fin n → Hash → Bytes
  sign_length : ∀ i, ∀ b ∈ [block₁, block₂], (sign i b).length = blsSignatureBytes
  sign_verifies : ∀ i, ∀ b ∈ [block₁, block₂], ∃ signature, S.deserialize (sign i b) = some signature ∧
    S.verify (key i) (QuorumCertificate.payloadFor view b) signature = true

/-- Valid registrations of new, distinct addresses all take effect. -/
theorem final_register {S : SigScheme} (g : ValidatorRegistry S) (calls : List (Registration S))
    (hvalid : ∀ c ∈ calls, S.verifyPossession c.publicKey c.proof = true)
    (hnodup : (calls.map Registration.address).Nodup) (hfree : ∀ c ∈ calls, g.publicKey c.address = none) :
    (final register g calls).len = g.len + calls.length ∧
    (∀ c ∈ calls, (final register g calls).publicKey c.address = some c.publicKey) ∧
    ∀ a, a ∉ calls.map Registration.address → (final register g calls).publicKey a = g.publicKey a := by
  induction calls generalizing g with
  | nil => simp [final]
  | cons c calls ih =>
    rw [List.map_cons, List.nodup_cons] at hnodup
    have hstep : g.register c = (.ok (), ⟨g.keys.insert c.address c.publicKey⟩) := by
      rcases register_cases g c with ⟨hv, -⟩ | ⟨-, -, h⟩ | ⟨-, ⟨k, hk⟩, -⟩
      · rw [hvalid c (List.mem_cons_self ..)] at hv; cases hv
      · exact h
      · rw [hfree c (List.mem_cons_self ..)] at hk; cases hk
    have hfree' : ∀ d ∈ calls, publicKey ⟨g.keys.insert c.address c.publicKey⟩ d.address = none := by
      intro d hd
      rw [publicKey_insert, if_neg]
      · exact hfree d (List.mem_cons_of_mem _ hd)
      · intro e
        exact hnodup.1 (List.mem_map.mpr ⟨d, hd, e.symm⟩)
    obtain ⟨hlen, hin, hout⟩ := ih ⟨g.keys.insert c.address c.publicKey⟩
      (fun d hd => hvalid d (List.mem_cons_of_mem _ hd)) hnodup.2 hfree'
    simp only [final, hstep]
    refine ⟨?_, ?_, ?_⟩
    · have hsize : (⟨g.keys.insert c.address c.publicKey⟩ : ValidatorRegistry S).len = g.len + 1 :=
        Map.size_insert_of_none _ (hfree c (List.mem_cons_self ..))
      rw [hlen, hsize, List.length_cons]
      omega
    · intro d hd
      rcases List.mem_cons.mp hd with rfl | hd
      · rw [hout _ hnodup.1, publicKey_insert, if_pos rfl]
      · exact hin d hd
    · intro a ha
      rw [List.map_cons, List.mem_cons, not_or] at ha
      rw [hout a ha.2, publicKey_insert, if_neg (Ne.symm ha.1)]

namespace Signers

variable {S : SigScheme} {n : Nat} (w : Signers S n)

def registrations : List (Registration S) :=
  (List.finRange n).map fun i => ⟨addressOf i.val, w.key i, w.proof i⟩

/-- The certificate of the validators `lo, …, hi - 1` for a block. -/
def certificate (block : Hash) (lo hi : Nat) : QuorumCertificate :=
  ⟨w.view, block, ((List.finRange n).filter fun i => lo ≤ i.val ∧ i.val < hi).map
    fun i => (addressOf i.val, w.sign i block)⟩

theorem registered_registrations (hlt : n < 2 ^ 64) :
    (registered w.registrations).len = n ∧
    ∀ i : Fin n, (registered w.registrations).publicKey (addressOf i.val) = some (w.key i) := by
  have hnodup : (w.registrations.map Registration.address).Nodup := by
    rw [registrations, List.map_map]
    refine (List.nodup_finRange n).map_on ?_
    intro i _ j _ h
    exact Fin.ext (addressOf_inj (by omega) (by omega) h)
  have hvalid : ∀ c ∈ w.registrations, S.verifyPossession c.publicKey c.proof = true := by
    intro c hc
    obtain ⟨i, -, rfl⟩ := List.mem_map.mp hc
    exact w.possession i
  obtain ⟨hlen, hin, -⟩ := final_register (ValidatorRegistry.new S) w.registrations hvalid hnodup
    (by simp [publicKey, ValidatorRegistry.new])
  refine ⟨?_, ?_⟩
  · rw [registered, hlen]
    simp [registrations, len, ValidatorRegistry.new]
  · intro i
    exact hin ⟨addressOf i.val, w.key i, w.proof i⟩ (List.mem_map.mpr ⟨i, List.mem_finRange i, rfl⟩)

theorem signers_certificate (block : Hash) {lo hi : Nat} (hhi : hi ≤ n) :
    (w.certificate block lo hi).signers = (Finset.Ico lo hi).image addressOf := by
  ext a
  simp only [QuorumCertificate.signers, certificate, List.map_map, List.mem_toFinset, List.mem_map,
    List.mem_filter, List.mem_finRange, true_and, decide_eq_true_eq, Function.comp, Finset.mem_image, Finset.mem_Ico]
  constructor
  · rintro ⟨i, hi', rfl⟩
    exact ⟨i.val, hi', rfl⟩
  · rintro ⟨i, hi', rfl⟩
    exact ⟨⟨i, by omega⟩, hi', rfl⟩

theorem card_signers_certificate (hlt : n < 2 ^ 64) (block : Hash) {lo hi : Nat} (hhi : hi ≤ n) :
    (w.certificate block lo hi).signers.card = hi - lo := by
  rw [signers_certificate w block hhi, Finset.card_image_of_injOn, Nat.card_Ico]
  intro i hi' j hj h
  rw [Finset.mem_coe, Finset.mem_Ico] at hi' hj
  exact addressOf_inj (by omega) (by omega) h

/-- A certificate with enough signers is accepted. -/
theorem validateQc_certificate (hpos : 1 ≤ n) (hlt : n < 2 ^ 64) {block : Hash} (hb : block ∈ [w.block₁, w.block₂])
    {lo hi : Nat} (hhi : hi ≤ n) {config : ConsensusConfig} (hq : config.quorumThreshold ≤ hi - lo) :
    (HotStuff.new config (registered w.registrations)).validateQc (w.certificate block lo hi) = .ok () := by
  obtain ⟨hlen, hkey⟩ := w.registered_registrations hlt
  refine validateQc_ok_iff.mpr ⟨?_, ?_, ?_, ?_⟩
  · show (registered w.registrations).keys.isEmpty = false
    rw [Std.ExtTreeMap.isEmpty_eq_size_beq_zero]
    have : (registered w.registrations).keys.size = n := hlen
    rw [this]
    exact beq_false_of_ne (by omega)
  · intro x hx
    obtain ⟨i, -, rfl⟩ := List.mem_map.mp hx
    obtain ⟨signature, hdes, hver⟩ := w.sign_verifies i block hb
    exact ⟨w.sign_length i block hb, w.key i, signature, hkey i, hdes, hver⟩
  · rw [certificate, List.map_map]
    refine ((List.nodup_finRange n).filter _).map_on ?_
    intro i _ j _ h
    exact Fin.ext (addressOf_inj (by omega) (by omega) h)
  · rw [w.card_signers_certificate hlt block hhi]
    exact hq

end Signers

/-- With `n ≠ 3 f + 1` validators the first and the last `2 f + 1` of them share at most `f`. -/
theorem not_agreement_of_signers {S : SigScheme} {n : Nat} (w : Signers S n) (hpos : 1 ≤ n) (hlt : n < 2 ^ 64)
    (hmod : n % 3 ≠ 1) : ¬ Agreement S n := by
  intro hagree
  obtain ⟨config, hconfig⟩ : ∃ config, ConsensusConfig.new n = .ok config := by
    unfold ConsensusConfig.new
    rw [if_neg (by omega)]
    exact ⟨_, rfl⟩
  obtain ⟨hf, hq⟩ := config_of_new hconfig
  have hle : config.quorumThreshold ≤ n := by omega
  let c : Conflict S n :=
    { calls := w.registrations
      config := config
      qc₁ := w.certificate w.block₁ 0 config.quorumThreshold
      qc₂ := w.certificate w.block₂ (n - config.quorumThreshold) n
      len_eq := (w.registered_registrations hlt).1
      config_eq := hconfig
      accepted₁ := w.validateQc_certificate hpos hlt (by simp) hle (by omega)
      accepted₂ := w.validateQc_certificate hpos hlt (by simp) (le_refl n) (by omega)
      view_eq := rfl
      block_ne := w.block_ne }
  have hsub : c.common ⊆ (Finset.Ico (n - config.quorumThreshold) config.quorumThreshold).image addressOf := by
    intro a ha
    obtain ⟨h₁, h₂⟩ := Finset.mem_inter.mp ha
    rw [w.signers_certificate w.block₁ hle] at h₁
    rw [w.signers_certificate w.block₂ (le_refl n)] at h₂
    obtain ⟨i, hi, rfl⟩ := Finset.mem_image.mp h₁
    obtain ⟨j, hj, hij⟩ := Finset.mem_image.mp h₂
    rw [Finset.mem_Ico] at hi hj
    have : j = i := addressOf_inj (by omega) (by omega) hij
    exact Finset.mem_image_of_mem _ (Finset.mem_Ico.mpr (by omega))
  have hfew : c.common.card ≤ config.quorumThreshold - (n - config.quorumThreshold) :=
    le_trans (Finset.card_le_card hsub) (le_of_le_of_eq Finset.card_image_le (Nat.card_Ico _ _))
  have hmany : config.maxFaulty + 1 ≤ c.common.card := (hagree c).1
  omega

/-- **When certificates agree.** For every validator count, agreement holds exactly if the count
is one more than a multiple of three. -/
theorem agreement_iff {S : SigScheme} {n : Nat} (w : Signers S n) (hpos : 1 ≤ n) (hlt : n < 2 ^ 64) :
    Agreement S n ↔ n % 3 = 1 := by
  constructor
  · intro hagree
    by_contra hmod
    exact not_agreement_of_signers w hpos hlt hmod hagree
  · exact agreement_of_mod

/-- Two block hashes for concrete certificates. -/
def sampleBlock (b : UInt8) : Hash := Vector.replicate hashSize b

/-- Validators with secrets `1, …, n` of the small scheme, and two blocks of view 1. -/
def smallSigners (n : Nat) (hsecret : ∀ i : Fin n, ((i.val + 1 : Nat) : ZMod 101) ≠ 0)
    (hkey : ∀ i : Fin n, smallBls.digest (smallBls.serializeKey (smallBls.publicKey (i.val + 1 : Nat))) ≠ 0) :
    Signers smallBls.scheme n where
  view := 1
  block₁ := sampleBlock 1
  block₂ := sampleBlock 2
  block_ne := by decide +kernel
  key i := smallBls.publicKey (i.val + 1 : Nat)
  proof i := smallBls.proofOfPossession (i.val + 1 : Nat)
  possession i := by
    have hver := smallBls.verify_sign (hsecret i) (hkey i)
    have hne : smallBls.publicKey (i.val + 1 : Nat) ≠ 0 := (smallBls.pairing.smul_g₁_eq_zero).not.mpr (hsecret i)
    show smallBls.verifyPossession _ _ = true
    rw [Bls.verifyPossession, if_neg hne]
    exact hver
  sign i b := smallBls.serialize (smallBls.sign (i.val + 1 : Nat) (QuorumCertificate.payloadFor 1 b))
  sign_length _ _ _ := rfl
  sign_verifies i b hb := by
    have hdigest : ∀ b ∈ [sampleBlock 1, sampleBlock 2],
        smallBls.digest (QuorumCertificate.payloadFor 1 b) ≠ 0 := by decide +kernel
    exact ⟨_, smallBls_deserialize_serialize _, smallBls.verify_sign (hsecret i) (hdigest b hb)⟩

theorem agreement_four : Agreement smallBls.scheme 4 :=
  (agreement_iff (smallSigners 4 (by decide +kernel) (by decide +kernel)) (by decide) (by decide)).mpr (by decide)

/-- With three validators the quorum is a single signature. With five it is three, and two quorums may have only one
validator in common. -/
theorem not_agreement_three_five : ¬ Agreement smallBls.scheme 3 ∧ ¬ Agreement smallBls.scheme 5 :=
  ⟨not_agreement_of_signers (smallSigners 3 (by decide +kernel) (by decide +kernel)) (by decide) (by decide)
      (by decide),
    not_agreement_of_signers (smallSigners 5 (by decide +kernel) (by decide +kernel)) (by decide) (by decide)
      (by decide)⟩

end Subhost
