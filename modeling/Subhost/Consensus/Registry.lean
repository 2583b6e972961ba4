import Subhost.Crypto.Bls
import Subhost.Lib.Run
/-!
# The validator registry (subhost-consensus/src/lib.rs:54-100)

`register` checks the proof of possession first, but learns that an address is taken from the
return value of the very `insert` that overwrites it (lib.rs:79): a duplicate registration is
reported as an error *after* the key has been replaced. `register_atomic_iff` says exactly which
runs are not hurt by that.
-/
namespace Subhost
open Bincode Run

/-- `ConsensusError` (lib.rs:440). -/
inductive ConsensusError where
  | invalidConfig (message : String)
  | missingParent (h : Hash)
  | unknownVertex (h : Hash)
  | invalidVertex (message : String)
  | insufficientSupport (have_ need : Nat)
  | unknownValidator (a : Address)
  | duplicateSigner (a : Address)
  | duplicateValidator (a : Address)
  | malformedSignature (a : Address)
  | invalidSignature (a : Address)
  | invalidProofOfPossession (a : Address)
  | emptyValidatorRegistry
  | invalidProposal (message : String)
deriving DecidableEq, Repr

/-- `impl Display for ConsensusError`. -/
def ConsensusError.display : ConsensusError → String
  | .invalidConfig m => "invalid consensus configuration: " ++ m
  | .missingParent h => "missing parent vertex: " ++ displayBytes h.toList
  | .unknownVertex h => "unknown vertex: " ++ displayBytes h.toList
  | .invalidVertex m => "invalid vertex: " ++ m
  | .insufficientSupport h n => "insufficient quorum support: have " ++ toString h ++ ", need " ++ toString n
  | .unknownValidator a => "validator " ++ displayBytes a.toList ++ " is not registered"
  | .duplicateSigner a => "validator " ++ displayBytes a.toList ++ " signed more than once"
  | .duplicateValidator a => "validator " ++ displayBytes a.toList ++ " is already registered"
  | .malformedSignature a => "validator " ++ displayBytes a.toList ++ " provided a malformed signature"
  | .invalidSignature a => "validator " ++ displayBytes a.toList ++ " provided an invalid signature"
  | .invalidProofOfPossession a =>
    "validator " ++ displayBytes a.toList ++ " provided an invalid proof of possession"
  | .emptyValidatorRegistry => "no validator public keys are registered"
  | .invalidProposal m => "invalid proposal: " ++ m

/-- `ValidatorRegistry` (lib.rs:60). -/
structure ValidatorRegistry (S : SigScheme) where
  keys : Map Address S.PublicKey

/-- The arguments of one `register` call. -/
structure Registration (S : SigScheme) where
  address : Address
  publicKey : S.PublicKey
  proof : S.Signature

namespace ValidatorRegistry

variable {S : SigScheme}

/-- `ValidatorRegistry::new`. -/
def new (S : SigScheme) : ValidatorRegistry S := ⟨∅⟩

/-- `ValidatorRegistry::public_key` (lib.rs:85). -/
def publicKey (g : ValidatorRegistry S) (a : Address) : Option S.PublicKey := g.keys[a]?

/-- `ValidatorRegistry::len`. -/
def len (g : ValidatorRegistry S) : Nat := g.keys.size

/-- `ValidatorRegistry::is_empty`. -/
def isEmpty (g : ValidatorRegistry S) : Bool := g.keys.isEmpty

/-- `ValidatorRegistry::register` (lib.rs:70). -/
def register (g : ValidatorRegistry S) (c : Registration S) : Except ConsensusError Unit × ValidatorRegistry S :=
  if S.verifyPossession c.publicKey c.proof = false then
    (.error (.invalidProofOfPossession c.address), g)
  else
    let previous := g.publicKey c.address
    let g := ⟨g.keys.insert c.address c.publicKey⟩
    match previous with
    | some _ => (.error (.duplicateValidator c.address), g)
    | none => (.ok (), g)

/-- The registry after a run of `register` calls from the empty one. -/
def registered (calls : List (Registration S)) : ValidatorRegistry S := final register (new S) calls

/-- The calls of that run. -/
def registerTrace (calls : List (Registration S)) :
    List (Call (ValidatorRegistry S) (Registration S) (Except ConsensusError Unit)) :=
  trace register (new S) calls

/-! ## What one call does -/

/-- The call does not reach the overwrite with another key: its proof is refused, or the address
is free, or it holds this very key. -/
def Harmless (g : ValidatorRegistry S) (c : Registration S) : Prop :=
  S.verifyPossession c.publicKey c.proof = false ∨ g.publicKey c.address = none ∨
    g.publicKey c.address = some c.publicKey

/-- Everything one call can do. -/
theorem register_cases (g : ValidatorRegistry S) (c : Registration S) :
    (S.verifyPossession c.publicKey c.proof = false ∧
      g.register c = (.error (.invalidProofOfPossession c.address), g)) ∨
    (S.verifyPossession c.publicKey c.proof = true ∧ g.publicKey c.address = none ∧
      g.register c = (.ok (), ⟨g.keys.insert c.address c.publicKey⟩)) ∨
    (S.verifyPossession c.publicKey c.proof = true ∧ (∃ k, g.publicKey c.address = some k) ∧
      g.register c = (.error (.duplicateValidator c.address), ⟨g.keys.insert c.address c.publicKey⟩)) := by
  unfold register
  cases hv : S.verifyPossession c.publicKey c.proof with
  | false => exact .inl ⟨rfl, rfl⟩
  | true =>
    cases hk : g.publicKey c.address with
    | none => exact .inr (.inl ⟨rfl, rfl, by simp⟩)
    | some k => exact .inr (.inr ⟨rfl, ⟨k, rfl⟩, by simp⟩)

theorem publicKey_insert (g : ValidatorRegistry S) (a x : Address) (k : S.PublicKey) :
    publicKey ⟨g.keys.insert a k⟩ x = if a = x then some k else g.publicKey x := by
  unfold publicKey
  by_cases h : a = x
  · subst h
    rw [if_pos rfl, Map.get_insert_self]
  · rw [if_neg h, Map.get_insert_ne _ _ h]

/-- **One call is atomic exactly when it is harmless.** -/
theorem register_unchanged_iff (g : ValidatorRegistry S) (c : Registration S) :
    (∀ e, (g.register c).1 = .error e → (g.register c).2 = g) ↔ Harmless g c := by
  rcases register_cases g c with ⟨hv, h⟩ | ⟨hv, hfree, h⟩ | ⟨hv, ⟨k, hk⟩, h⟩
  · rw [h]
    exact ⟨fun _ => .inl hv, fun _ e _ => rfl⟩
  · rw [h]
    exact ⟨fun _ => .inr (.inl hfree), fun _ e he => by cases he⟩
  · rw [h]
    constructor
    · intro hsame
      have hg := hsame _ rfl
      have hkey := publicKey_insert g c.address c.address c.publicKey
      rw [if_pos rfl] at hkey
      exact .inr (.inr (by rw [← hg]; exact hkey))
    · rintro (hno | hno | hsame) e -
      · rw [hv] at hno; cases hno
      · rw [hk] at hno; cases hno
      · show (⟨g.keys.insert c.address c.publicKey⟩ : ValidatorRegistry S) = g
        rw [Map.insert_get hsame]

/-! ## Whole runs -/

/-- Whether a recorded call registered `a`. -/
def registers (a : Address) : Call (ValidatorRegistry S) (Registration S) (Except ConsensusError Unit) → Bool
  | ⟨_, c, .ok _, _⟩ => c.address = a
  | ⟨_, _, .error _, _⟩ => false

/-- The key of the first successful registration of `a`. -/
def firstKey (a : Address) (calls : List (Call (ValidatorRegistry S) (Registration S) (Except ConsensusError Unit))) :
    Option S.PublicKey :=
  (calls.find? (registers a)).map fun c => c.input.publicKey

/-- A failed call of the run leaves the key map unchanged, and at every point of the run the key
of an address is that of its first successful registration. -/
def NeverRebinds (calls : List (Registration S)) : Prop :=
  (∀ c ∈ registerTrace calls, ∀ e, c.result = .error e → c.after = c.before) ∧
  ∀ done rest, calls = done ++ rest → ∀ a, (registered done).publicKey a = firstKey a (registerTrace done)

theorem publicKey_run (a : Address) (g : ValidatorRegistry S) (calls : List (Registration S))
    (h : ∀ c ∈ trace register g calls, Harmless c.before c.input) :
    (final register g calls).publicKey a = (g.publicKey a).or (firstKey a (trace register g calls)) := by
  induction calls generalizing g with
  | nil => simp [final, trace, firstKey]
  | cons c calls ih =>
    have hhead : Harmless g c := h _ (List.mem_cons_self ..)
    have hrest := ih (g.register c).2 fun d hd => h d (List.mem_cons_of_mem _ hd)
    simp only [final, trace]
    rw [hrest]
    rcases register_cases g c with ⟨-, hc⟩ | ⟨-, hfree, hc⟩ | ⟨-, -, hc⟩
    · simp [hc, firstKey, registers]
    · rw [hc]
      simp only [publicKey_insert]
      by_cases ha : c.address = a
      · subst ha
        simp [firstKey, registers, hfree]
      · simp [firstKey, registers, ha]
    · -- a harmless duplicate writes the key that is already there
      have hsame := (register_unchanged_iff g c).mpr hhead (.duplicateValidator c.address) (by rw [hc])
      rw [hsame, hc]
      simp [firstKey, registers]

/-- **When registration is atomic.** A run never rebinds a key, and each of its failed calls
changes nothing, exactly when none of its calls brings a valid proof for a registered address
under another key. -/
theorem register_atomic_iff (calls : List (Registration S)) :
    NeverRebinds calls ↔ ∀ c ∈ registerTrace calls, Harmless c.before c.input := by
  constructor
  · rintro ⟨hatomic, -⟩ c hc
    have hcall := trace_step register (new S) calls c hc
    rw [← register_unchanged_iff, hcall]
    exact hatomic c hc
  · intro hall
    refine ⟨?_, ?_⟩
    · intro c hc e he
      have hcall := trace_step register (new S) calls c hc
      have hone := (register_unchanged_iff c.before c.input).mpr (hall c hc) e
      rw [hcall] at hone
      exact hone he
    · rintro done rest rfl a
      have hdone : ∀ c ∈ trace register (new S) done, Harmless c.before c.input := by
        intro c hc
        apply hall
        rw [registerTrace, trace_append]
        exact List.mem_append_left _ hc
      have hkey := publicKey_run a (new S) done hdone
      rw [registered, registerTrace, hkey]
      simp [publicKey, new]

/-- Validator `0x00..` registers the key of secret 1, then that of secret 2. -/
def rebindingCalls : List (Registration smallBls.scheme) :=
  [⟨Address.zero, smallBls.publicKey 1, smallBls.proofOfPossession 1⟩,
   ⟨Address.zero, smallBls.publicKey 2, smallBls.proofOfPossession 2⟩]

/-- The second registration is refused, yet its key is the one stored. -/
theorem rebindingCalls_rebind : ¬ NeverRebinds rebindingCalls := by
  rintro ⟨-, hkeys⟩
  have hstored := hkeys rebindingCalls [] (by simp) Address.zero
  revert hstored
  decide +kernel

end ValidatorRegistry
end Subhost
