import Subhost.Consensus.HotStuff
/-!
# View state of a replica (subhost-consensus/src/lib.rs:366-373, 417-436)

Three counters and an optional certificate move together. `step_cases` lists all that a call can do:
refuse and leave everything as it was, adopt a valid certificate newer than the one held, or count the
view up. `Locked` is what ties the counters to the certificate, `Above` is the order in which a run moves.
-/
namespace Subhost
open Uint Run

namespace HotStuff

variable {S : SigScheme}

/-- `HotStuff::enter_next_view` (lib.rs:367). -/
def enterNextView (h : HotStuff S) : Except ConsensusError U64 × HotStuff S :=
  match checkedAdd h.view 1#64 with
  | none => (.error (.invalidProposal "view counter overflow"), h)
  | some view => (.ok view, { h with view })

/-- The three writes of `update_high_qc` (lib.rs:427-429). -/
def adopt (h : HotStuff S) (qc : QuorumCertificate) : HotStuff S :=
  { h with
    lockedView := qc.view
    view := if h.view ≤ qc.view then qc.view else h.view
    highQc := some qc }

/-- `HotStuff::update_high_qc` (lib.rs:421). -/
def updateHighQc (h : HotStuff S) (qc : QuorumCertificate) : Except ConsensusError Bool × HotStuff S :=
  match h.validateQc qc with
  | .error e => (.error e, h)
  | .ok () =>
    let currentView := (h.highQc.map QuorumCertificate.view).getD 0#64
    if h.highQc.isSome && qc.view ≤ currentView then (.ok false, h)
    else (.ok true, h.adopt qc)

/-- `HotStuff::is_safe_proposal` (lib.rs:434). -/
def isSafeProposal (h : HotStuff S) (view : U64) : Bool := h.lockedView < view || h.highQc.isNone

/-- One call on the view state. -/
inductive ViewOp where
  | updateHighQc (qc : QuorumCertificate)
  | enterNextView

/-- What it returns. -/
inductive ViewReply where
  | updated (result : Except ConsensusError Bool)
  | entered (result : Except ConsensusError U64)

/-- The call returned `Err` or `Ok(false)`. -/
def ViewReply.Refused : ViewReply → Prop
  | .updated result => result ≠ .ok true
  | .entered result => ∃ e, result = .error e

def step (h : HotStuff S) : ViewOp → ViewReply × HotStuff S
  | .updateHighQc qc => (h.updateHighQc qc).map .updated id
  | .enterNextView => h.enterNextView.map .entered id

/-- **What a call can do.** -/
theorem step_cases (h : HotStuff S) (op : ViewOp) :
    ((h.step op).1.Refused ∧ (h.step op).2 = h) ∨
      (∃ qc, op = .updateHighQc qc ∧ h.validateQc qc = .ok () ∧
        (∀ old, h.highQc = some old → old.view < qc.view) ∧ h.step op = (.updated (.ok true), h.adopt qc)) ∨
      (∃ view, op = .enterNextView ∧ view.toNat = h.view.toNat + 1 ∧
        h.step op = (.entered (.ok view), { h with view })) := by
  cases op with
  | enterNextView =>
    cases hnext : checkedAdd h.view 1#64 with
    | none =>
      have heq : h.step .enterNextView = (.entered (.error (.invalidProposal "view counter overflow")), h) := by
        simp [step, enterNextView, hnext]
      rw [heq]
      exact .inl ⟨⟨_, rfl⟩, rfl⟩
    | some view =>
      have hval : view.toNat = h.view.toNat + 1 := checkedAdd_eq_some.mp hnext
      exact .inr (.inr ⟨view, rfl, hval, by simp [step, enterNextView, hnext]⟩)
  | updateHighQc qc =>
    cases hvalid : h.validateQc qc with
    | error e =>
      have heq : h.step (.updateHighQc qc) = (.updated (.error e), h) := by
        simp [step, updateHighQc, hvalid]
      rw [heq]
      exact .inl ⟨by simp [ViewReply.Refused], rfl⟩
    | ok u =>
      cases hold : h.highQc with
      | none =>
        refine .inr (.inl ⟨qc, rfl, hvalid, by simp, ?_⟩)
        simp [step, updateHighQc, hvalid, hold]
      | some old =>
        by_cases hle : qc.view ≤ old.view
        · have heq : h.step (.updateHighQc qc) = (.updated (.ok false), h) := by
            simp [step, updateHighQc, hvalid, hold, hle]
          rw [heq]
          exact .inl ⟨by simp [ViewReply.Refused], rfl⟩
        · refine .inr (.inl ⟨qc, rfl, hvalid, ?_, ?_⟩)
          · rintro _ ⟨⟩
            rw [lt_iff_toNat]
            rw [le_iff_toNat] at hle
            omega
          · simp [step, updateHighQc, hvalid, hold, hle]

/-! ## The lock -/

/-- The view of the certificate held, 0 if there is none. -/
def highView (h : HotStuff S) : U64 := (h.highQc.map QuorumCertificate.view).getD 0#64

/-- What ties the counters to the certificate. -/
structure Locked (h : HotStuff S) : Prop where
  locked : h.lockedView = h.highView
  le_view : h.lockedView ≤ h.view
  valid : ∀ qc, h.highQc = some qc → h.validateQc qc = .ok ()

theorem locked_new (config : ConsensusConfig) (registry : ValidatorRegistry S) : (new config registry).Locked where
  locked := rfl
  le_view := Nat.le_refl _
  valid := by simp [new]

theorem le_view_adopt (h : HotStuff S) (qc : QuorumCertificate) :
    h.view ≤ (h.adopt qc).view ∧ qc.view ≤ (h.adopt qc).view := by
  simp only [adopt, le_iff_toNat]
  split
  · exact ⟨‹_›, Nat.le_refl _⟩
  · exact ⟨Nat.le_refl _, by omega⟩

theorem Locked.step {h : HotStuff S} (hl : h.Locked) (op : ViewOp) : (h.step op).2.Locked := by
  rcases step_cases h op with ⟨-, heq⟩ | ⟨qc, -, hvalid, -, heq⟩ | ⟨view, -, hval, heq⟩
  · rwa [heq]
  · rw [heq]
    refine ⟨rfl, (le_view_adopt h qc).2, ?_⟩
    -- validation reads the registry and the configuration, which stay
    rintro _ ⟨⟩
    exact hvalid
  · rw [heq]
    refine ⟨hl.locked, ?_, hl.valid⟩
    have hle := le_iff_toNat.mp hl.le_view
    change h.lockedView.toNat ≤ view.toNat
    omega

/-! ## The order of a run -/

/-- `t` is at or after `s`. -/
structure Above (s t : HotStuff S) : Prop where
  view : s.view ≤ t.view
  lockedView : s.lockedView ≤ t.lockedView
  highQc : ∀ qc, s.highQc = some qc → ∃ qc', t.highQc = some qc' ∧ qc.view ≤ qc'.view

theorem Above.refl (s : HotStuff S) : s.Above s :=
  ⟨Nat.le_refl _, Nat.le_refl _, fun qc h => ⟨qc, h, Nat.le_refl _⟩⟩

theorem Above.trans {s t u : HotStuff S} (hst : s.Above t) (htu : t.Above u) : s.Above u := by
  refine ⟨Nat.le_trans hst.view htu.view, Nat.le_trans hst.lockedView htu.lockedView, ?_⟩
  intro qc hqc
  obtain ⟨qc', hqc', hle⟩ := hst.highQc qc hqc
  obtain ⟨qc'', hqc'', hle'⟩ := htu.highQc qc' hqc'
  exact ⟨qc'', hqc'', Nat.le_trans hle hle'⟩

theorem Locked.above_step {h : HotStuff S} (hl : h.Locked) (op : ViewOp) : h.Above (h.step op).2 := by
  rcases step_cases h op with ⟨-, heq⟩ | ⟨qc, -, -, hnewer, heq⟩ | ⟨view, -, hval, heq⟩
  · rw [heq]
    exact .refl h
  · rw [heq]
    refine ⟨(le_view_adopt h qc).1, ?_, fun old hold => ⟨qc, rfl, Nat.le_of_lt (hnewer old hold)⟩⟩
    rw [hl.locked, highView]
    cases hold : h.highQc with
    | none => exact Nat.zero_le _
    | some old => exact Nat.le_of_lt (hnewer old hold)
  · rw [heq]
    refine ⟨?_, Nat.le_refl _, fun qc hqc => ⟨qc, hqc, Nat.le_refl _⟩⟩
    change h.view.toNat ≤ view.toNat
    omega

theorem Locked.above_final {h : HotStuff S} (hl : h.Locked) (ops : List ViewOp) : h.Above (final HotStuff.step h ops) :=
  (final_invariant HotStuff.step (fun t => t.Locked ∧ h.Above t)
    (fun _ op ht => ⟨ht.1.step op, ht.2.trans (ht.1.above_step op)⟩) ⟨hl, .refl h⟩ ops).2

/-- Once a certificate is held, a rejected proposal view stays rejected. -/
theorem Above.rejects {s t : HotStuff S} (hst : s.Above t) (hsome : s.highQc.isSome = true) {view : U64}
    (hrejected : s.isSafeProposal view = false) : t.isSafeProposal view = false := by
  obtain ⟨qc, hqc⟩ := Option.isSome_iff_exists.mp hsome
  obtain ⟨qc', hqc', -⟩ := hst.highQc qc hqc
  have hlocked := le_iff_toNat.mp hst.lockedView
  simp only [isSafeProposal, hqc, hqc', Option.isNone_some, Bool.or_false, decide_eq_false_iff_not,
    lt_iff_toNat] at hrejected ⊢
  omega

/-- **View state.** In any run from a fresh replica: the locked view is that of the certificate held, 0 if
there is none, and at most the current view, and the certificate is one `validate_qc` accepts. From there
on no counter goes back, and with a certificate held a rejected proposal view stays rejected. A call that
returns an error or `Ok(false)` changes nothing, and one that replaces the certificate takes a newer one. -/
theorem view_state (config : ConsensusConfig) (registry : ValidatorRegistry S) (ops : List ViewOp) :
    let s := final step (new config registry) ops
    s.Locked ∧
      (∀ more, s.Above (final step s more) ∧
        (s.highQc.isSome = true → ∀ view, s.isSafeProposal view = false →
          (final step s more).isSafeProposal view = false)) ∧
      ∀ op,
        ((s.step op).1.Refused → (s.step op).2 = s) ∧
        ((s.step op).2.highQc ≠ s.highQc →
          ∃ qc, (s.step op).2.highQc = some qc ∧ ∀ old, s.highQc = some old → old.view < qc.view) := by
  intro s
  have hlocked : s.Locked :=
    final_invariant step Locked (fun _ op h => h.step op) (locked_new config registry) ops
  refine ⟨hlocked, ?_, ?_⟩
  · intro more
    have habove := hlocked.above_final more
    exact ⟨habove, fun hsome view hrejected => habove.rejects hsome hrejected⟩
  · intro op
    rcases step_cases s op with ⟨-, heq⟩ | ⟨qc, -, -, hnewer, heq⟩ | ⟨view, -, -, heq⟩
    · exact ⟨fun _ => heq, fun hne => absurd (congrArg HotStuff.highQc heq) hne⟩
    · rw [heq]
      exact ⟨fun hrefused => absurd rfl hrefused, fun _ => ⟨qc, rfl, hnewer⟩⟩
    · rw [heq]
      refine ⟨?_, fun hne => absurd rfl hne⟩
      rintro ⟨e, he⟩
      cases he

/-! A certificate of view 3, and the views it rules out. -/

def soloRegistry : ValidatorRegistry smallBls.scheme := ⟨(∅ : Map Address _).insert Address.zero (smallBls.publicKey 1)⟩

def soloCertificate (view : U64) : QuorumCertificate :=
  ⟨view, Hash.zero, [(Address.zero, smallBls.serialize (smallBls.sign 1 (QuorumCertificate.payloadFor view Hash.zero)))]⟩

def soloReplica : HotStuff smallBls.scheme := new ⟨1, 1, 0, defaultBlockTimeMs, 500#64⟩ soloRegistry

/-- The view 3 is rejected from then on, whatever follows. -/
theorem view_state_solo :
    (final step soloReplica [.updateHighQc (soloCertificate 3)]).lockedView = 3 ∧
    ∀ more,
      (final step (final step soloReplica [.updateHighQc (soloCertificate 3)]) more).isSafeProposal 3 = false := by
  refine ⟨by decide +kernel, fun more => ?_⟩
  exact ((view_state _ soloRegistry [.updateHighQc (soloCertificate 3)]).2.1 more).2 (by decide +kernel) 3
    (by decide +kernel)

end HotStuff
end Subhost
