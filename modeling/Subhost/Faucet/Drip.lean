import Subhost.Faucet.Cooldown
import Subhost.Rpc.Clients
import Subhost.Rpc.Identifiers
import Mathlib.Data.List.DropRight
/-!
# Concurrent drips (subhost-faucet/src/lib.rs:200-378, 483-501)

A `drip` call parses the address, claims its cooldown slot and then waits: for the submit lock, for the
node's chain id, for the faucet's nonce, and for the answer to `eth_sendTransaction`. Other calls run
between any two of these. The node may commit the transfer at any time after it was sent, whether or not
its answer is ever read.

If any answer is missing or wrong the call fails and releases its claim (lib.rs:262), on the ground that
nothing was paid. That ground is missing when only the answer was lost: the address can then be funded
again at once. `paid_once_per_window` says when an address is paid at most once in a cooldown.

The faucet keeps its ledger the way a `Desk` does: `desk_step`.
-/
namespace Subhost
open Uint Bincode Run

/-! ## Text -/

/-- `str::trim`. -/
def trim (text : String) : String :=
  String.ofList ((text.toList.dropWhile isWhitespace).reverse.dropWhile isWhitespace).reverse

theorem trim_trim (text : String) : trim (trim text) = trim text := by
  have hright : ∀ l : List Char, (l.reverse.dropWhile isWhitespace).reverse = l.rdropWhile isWhitespace := fun _ => rfl
  -- what is cut off on the right leaves the first character where it is
  have hleft : ∀ l : List Char, ((l.dropWhile isWhitespace).rdropWhile isWhitespace).dropWhile isWhitespace =
      (l.dropWhile isWhitespace).rdropWhile isWhitespace := by
    intro l
    rw [List.dropWhile_eq_self_iff]
    intro hpos
    have hpart := List.rdropWhile_prefix isWhitespace (l.dropWhile isWhitespace)
    rw [hpart.getElem hpos]
    exact List.dropWhile_get_zero_not isWhitespace l (hpos.trans_le hpart.length_le)
  unfold trim
  rw [hright, hright, String.toList_ofList, hleft, List.rdropWhile_idempotent]

/-- `u64::from_str_radix(text, 16)`: one leading `+` is accepted. -/
def u64FromHex (text : List Char) : Option U64 :=
  let digits := match text with
    | '+' :: rest => rest
    | _ => text
  if digits.isEmpty ∨ ¬ digits.all (fun c => (hexValue c).isSome) then none else fromStrRadix 64 digits

/-- `Number::as_u64` of a JSON literal. -/
def literalAsU64 (literal : String) : Option U64 :=
  if literal.toList.isEmpty ∨ ¬ literal.toList.all Char.isDigit then none
  else
    let value := literal.toList.foldl (fun acc c => 10 * acc + (c.toNat - 48)) 0
    if value < 2 ^ 64 then some (BitVec.ofNat 64 value) else none

namespace Faucet

/-- `parse_address` (lib.rs:483). -/
def parseAddress (value : String) : Except FaucetError Address :=
  if byteLen (trim value) ≠ 42 ∨ (strip0x (trim value)).isNone then
    .error (.invalidAddress "address must be 0x followed by 40 hex characters")
  else (Address.fromHex (trim value)).elim (.error (.invalidAddress "address is not valid hex")) .ok

/-- `parse_quantity` (lib.rs:494). -/
def parseQuantity : Json → Option U64
  | .string text => (strip0x text).bind u64FromHex
  | .number literal => literalAsU64 literal
  | _ => none

/-! The lower-case text of an address is its printed form, so that the claims for one recipient share a key. -/

/-- What the parser accepts: an address between whitespace. -/
theorem parseAddress_ok_iff {value : String} {a : Address} :
    parseAddress value = .ok a ↔ ∃ digits, trim value = "0x" ++ String.ofList digits ∧ Spells digits a.toList := by
  unfold parseAddress Address.fromHex
  cases hstrip : strip0x (trim value) with
  | none =>
    refine iff_of_false (by simp) ?_
    rintro ⟨digits, htext, -⟩
    rw [strip0x_eq_some_iff.mpr htext] at hstrip
    cases hstrip
  | some digits =>
    have htext := strip0x_eq_some_iff.mp hstrip
    have hread := fromHex_eq_some_iff hstrip (v := a)
    rw [hstrip] at hread
    constructor
    · intro h
      split at h
      · cases h
      · refine ⟨digits, htext, hread.mp ?_⟩
        cases hhex : (hexDecode ((some digits).getD (trim value).toList)).bind (toArray? addressSize) with
        | none =>
          rw [hhex] at h
          cases h
        | some b =>
          rw [hhex] at h
          exact congrArg some (Except.ok.inj h)
    · rintro ⟨found, hfound, hspells⟩
      have hsame : found = digits := by
        rw [strip0x_eq_some_iff.mpr hfound] at hstrip
        exact Option.some.inj hstrip
      subst hsame
      have hlen : byteLen (trim value) = 42 := by
        rw [htext, byteLen_digits hspells.2.1, hspells.1, Vector.length_toList]
        rfl
      rw [if_neg (by simp [hlen]), hread.mpr hspells]
      rfl

theorem lowercase_of_parseAddress {value : String} {a : Address} (h : parseAddress value = .ok a) :
    toAsciiLowercase (trim value) = displayBytes a.toList := by
  obtain ⟨digits, htext, hspells⟩ := parseAddress_ok_iff.mp h
  have hlower : ∀ text : String, text.toLower = text.map Char.toLower := fun _ => rfl
  rw [hspells.display, htext, hlower]
  apply String.toList_injective
  simp [toAsciiLowercase]

/-! ## The state -/

/-- How a request to the node ends, before its answer is looked into (lib.rs:344-366). -/
inductive RpcOutcome where
  | requestFailed (error : String)
  | httpStatus (status : String)
  | tooLarge
  | readFailed (error : String)
  | invalidJson (error : String)
  | body (value : Json)

/-- `FaucetState::rpc_call` (lib.rs:344). -/
def rpcCall (method : String) : RpcOutcome → Except FaucetError Json
  | .requestFailed error => .error (.rpc (method ++ " request failed: " ++ error))
  | .httpStatus status => .error (.rpc (method ++ " returned HTTP " ++ status))
  | .tooLarge => .error (.rpc "response is too large")
  | .readFailed error => .error (.rpc ("response read failed: " ++ error))
  | .invalidJson error => .error (.rpc (method ++ " returned invalid JSON: " ++ error))
  | .body value =>
    match value.get "error" with
    | some error =>
      .error (.rpc (method ++ " failed: " ++ ((error.get "message").bind Json.asStr).getD "unknown error"))
    | none => (value.get "result").elim (.error (.rpc (method ++ " response has no result"))) .ok

/-- Where a call is that has claimed its slot. -/
inductive Phase where
  /-- at `submit_lock.lock().await` -/
  | waiting
  | askingChainId
  | askingNonce (chainId : ChainId)
  /-- `eth_sendTransaction` is on its way -/
  | sending
  /-- `submit_transfer` has returned an error and the lock is dropped -/
  | failed (error : FaucetError)
  /-- the claim is released and the error returned -/
  | released (error : FaucetError)
  | paid (txHash : String)
  /-- the future was dropped: the caller went away -/
  | dropped
deriving DecidableEq

def Phase.isReleased : Phase → Bool
  | .released _ => true
  | _ => false

/-- `submit_transfer` has not returned. -/
def Phase.underWay : Phase → Bool
  | .waiting | .askingChainId | .askingNonce _ | .sending => true
  | _ => false

/-- A `drip` call whose claim was granted, with the two readings of the clock in `try_claim`. `sent` are the
parameters of its `eth_sendTransaction`, and `committed` says whether the node has committed that transfer. -/
structure Drip where
  address : String
  recipient : Address
  claimedAt : Nat
  grantedAt : Nat
  phase : Phase
  sent : Option Json
  committed : Bool

/-- `FaucetSigner` (lib.rs:137). -/
structure FaucetSigner where
  signingKey : SigningKey
  address : Address

/-- `FaucetResponse` (lib.rs:178). -/
structure FaucetResponse where
  txHash : String
  address : String
  amount : String
deriving DecidableEq

end Faucet

open Faucet

/-- `FaucetState` (lib.rs:200), with the clock, the calls under way and the holder of the submit lock. -/
structure FaucetState where
  config : FaucetConfig
  signer : FaucetSigner
  clock : Nat
  cooldown : CooldownLedger
  drips : List Drip
  submitLock : Option Nat

/-- What happens to the faucet: time, the sweeper, a new call, and the calls under way by their number. As at a `Desk`,
a call read the clock for the time it stores `delay` ago, and the sweeper that for an entry `lag key` ago. -/
inductive FaucetOp where
  | tick (elapsed : Nat)
  | sweep (lag : String → Nat)
  | drip (address : String) (delay : Nat)
  | lock (request : Nat)
  | reply (request : Nat) (outcome : RpcOutcome)
  | release (request : Nat)
  | drop (request : Nat)
  /-- the node commits the transfer of a call -/
  | commit (request : Nat)

namespace FaucetState

/-- `FaucetState::new` (lib.rs:210), of a configuration that passes its check. -/
def new (config : FaucetConfig) (signer : FaucetSigner) (start : Nat) : FaucetState :=
  ⟨config, signer, start, .new (fromSecs config.cooldownSecs), [], none⟩

/-- What a call returned, if it returned in this step. -/
abbrev Returned := Option (Except FaucetError FaucetResponse)

/-- `FaucetState::drip` (lib.rs:240) up to its first `await`. -/
def drip (s : FaucetState) (address : String) (delay : Nat) : Returned × FaucetState :=
  match Faucet.parseAddress address with
  | .error e => (some (.error e), s)
  | .ok recipient =>
    if recipient = s.signer.address then (some (.error .selfFunding), s)
    else
      match s.cooldown.tryClaim (s.clock - delay) s.clock address with
      | (.error remaining, cooldown) =>
        (some (.error (.cooldown (max (remaining / 1000000000) 1))), { s with cooldown })
      | (.ok (), cooldown) =>
        (none, { s with
          cooldown, drips := s.drips ++ [⟨address, recipient, s.clock - delay, s.clock, .waiting, none, false⟩] })

/-- `submit_transfer` (lib.rs:268) from one `await` to the next: the answer that has arrived, and where the
call is then. -/
def resume (s : FaucetState) (d : Drip) (outcome : RpcOutcome) : Drip :=
  match d.phase with
  | .askingChainId =>
    match rpcCall "eth_chainId" outcome with
    | .error e => { d with phase := .failed e }
    | .ok value =>
      match parseQuantity value with
      | none => { d with phase := .failed (.rpc "invalid chain ID") }
      | some chainId => { d with phase := .askingNonce chainId }
  | .askingNonce chainId =>
    match rpcCall "eth_getTransactionCount" outcome with
    | .error e => { d with phase := .failed e }
    | .ok value =>
      match parseQuantity value with
      | none => { d with phase := .failed (.rpc "invalid nonce") }
      | some nonce =>
        { d with
          phase := .sending
          sent := some (submitTransfer s.signer.signingKey s.signer.address d.recipient s.config.dripAmount nonce chainId) }
  | .sending =>
    match rpcCall "eth_sendTransaction" outcome with
    | .error e => { d with phase := .failed e }
    | .ok value =>
      match value.asStr with
      | none => { d with phase := .failed (.rpc "node did not return a transaction hash") }
      | some txHash => { d with phase := .paid txHash }
  | _ => d

/-- The state with one call moved on. -/
def put (s : FaucetState) (i : Nat) (d : Drip) (lock : Option Nat) : FaucetState :=
  { s with drips := s.drips.set i d, submitLock := lock }

/-- `submit_lock.lock().await` (lib.rs:269), when the lock is free. -/
def acquire (s : FaucetState) (i : Nat) : FaucetState :=
  match s.drips[i]? with
  | none => s
  | some d =>
    if d.phase = .waiting ∧ s.submitLock = none then s.put i { d with phase := .askingChainId } (some i) else s

/-- The holder of the lock reads an answer; the guard is dropped when `submit_transfer` returns. -/
def receive (s : FaucetState) (i : Nat) (outcome : RpcOutcome) : Returned × FaucetState :=
  match s.drips[i]? with
  | none => (none, s)
  | some d =>
    if s.submitLock = some i then
      let moved := s.resume d outcome
      let returned := match moved.phase with
        | .paid txHash => some (.ok ⟨txHash, displayBytes d.recipient.toList, toString s.config.dripAmount.toNat⟩)
        | _ => none
      (returned, s.put i moved (if moved.phase.underWay then s.submitLock else none))
    else (none, s)

/-- The error branch of `drip` (lib.rs:261-264). -/
def releaseClaim (s : FaucetState) (i : Nat) : Returned × FaucetState :=
  match s.drips[i]? with
  | none => (none, s)
  | some d =>
    match d.phase with
    | .failed e =>
      (some (.error e),
        { s.put i { d with phase := .released e } s.submitLock with cooldown := s.cooldown.release d.address })
    | _ => (none, s)

/-- The future of a call is dropped at an `await`, and the guard with it. -/
def dropCall (s : FaucetState) (i : Nat) : FaucetState :=
  match s.drips[i]? with
  | none => s
  | some d =>
    if d.phase.underWay then
      s.put i { d with phase := .dropped } (if s.submitLock = some i then none else s.submitLock)
    else s

/-- The node commits a transfer that was sent. -/
def commitTransfer (s : FaucetState) (i : Nat) : FaucetState :=
  match s.drips[i]? with
  | none => s
  | some d => if d.sent.isSome then s.put i { d with committed := true } s.submitLock else s

/-- One event. -/
def step (s : FaucetState) : FaucetOp → Returned × FaucetState
  | .tick elapsed => (none, { s with clock := s.clock + elapsed })
  | .sweep lag => (none, { s with cooldown := (s.cooldown.sweep fun key => s.clock - lag key).2 })
  | .drip address delay => s.drip address delay
  | .lock i => (none, s.acquire i)
  | .reply i outcome => s.receive i outcome
  | .release i => s.releaseClaim i
  | .drop i => (none, s.dropCall i)
  | .commit i => (none, s.commitTransfer i)

/-! ## The desk behind the faucet -/

end FaucetState

/-- The call as a request at the desk. -/
def Faucet.Drip.grant (d : Drip) : Grant := ⟨d.address, d.claimedAt, d.grantedAt, d.phase.isReleased⟩

namespace FaucetState

def desk (s : FaucetState) : Desk := ⟨s.clock, s.cooldown, s.drips.map Drip.grant⟩

/-- What an event is at the desk, if it is anything there. -/
def deskOp (s : FaucetState) : FaucetOp → Option DeskOp
  | .tick elapsed => some (.tick elapsed)
  | .sweep lag => some (.sweep lag)
  | .drip address delay =>
    match Faucet.parseAddress address with
    | .error _ => none
    | .ok recipient => if recipient = s.signer.address then none else some (.claim address delay)
  | .release i =>
    match (s.drips[i]?).map Drip.phase with
    | some (.failed _) => some (.release i)
    | _ => none
  | _ => none

/-- The desk after the event. -/
def deskAfter (s : FaucetState) (op : FaucetOp) : Desk := (s.deskOp op).elim s.desk fun o => (s.desk.step o).2

/-- A call that is somewhere else, and released exactly if it was. -/
structure Moved (d d' : Drip) : Prop where
  address : d'.address = d.address
  recipient : d'.recipient = d.recipient
  claimedAt : d'.claimedAt = d.claimedAt
  grantedAt : d'.grantedAt = d.grantedAt
  released : d'.phase.isReleased = d.phase.isReleased

/-- The event is none at the desk: at most one call has moved, and only a commit makes it a committed one. -/
def Quiet (s : FaucetState) (op : FaucetOp) : Prop :=
  (s.step op).2 = s ∨
    ∃ i d d' lock, s.drips[i]? = some d ∧ Moved d d' ∧ (s.step op).2 = s.put i d' lock ∧
      (d'.committed = true → d.committed = true ∨ op = .commit i)

/-- A call goes on: its claim was not released and is not. -/
theorem moved_on {d : Drip} (hold : d.phase.isReleased = false) {phase : Phase} (hnew : phase.isReleased = false)
    (sent : Option Json) : Moved d { d with phase := phase, sent := sent } :=
  ⟨rfl, rfl, rfl, rfl, hnew.trans hold.symm⟩

theorem quiet_lock (s : FaucetState) (i : Nat) : s.Quiet (.lock i) := by
  unfold Quiet
  simp only [step, acquire]
  cases hi : s.drips[i]? with
  | none => exact .inl rfl
  | some d =>
    dsimp only
    split
    · rename_i hphase
      have hmoved : Moved d { d with phase := .askingChainId } := moved_on (by rw [hphase.1]; rfl) rfl d.sent
      exact .inr ⟨i, d, _, _, hi, hmoved, rfl, .inl⟩
    · exact .inl rfl

/-- An answer moves a call. -/
theorem resume_spec (s : FaucetState) (d : Drip) (outcome : RpcOutcome) :
    Moved d (s.resume d outcome) ∧ (s.resume d outcome).committed = d.committed := by
  unfold resume
  cases hphase : d.phase with
  | askingChainId =>
    have hopen : d.phase.isReleased = false := by rw [hphase]; rfl
    dsimp only
    split
    · exact ⟨moved_on hopen rfl d.sent, rfl⟩
    · split
      · exact ⟨moved_on hopen rfl d.sent, rfl⟩
      · exact ⟨moved_on hopen rfl d.sent, rfl⟩
  | askingNonce chainId =>
    have hopen : d.phase.isReleased = false := by rw [hphase]; rfl
    dsimp only
    split
    · exact ⟨moved_on hopen rfl d.sent, rfl⟩
    · split
      · exact ⟨moved_on hopen rfl d.sent, rfl⟩
      · exact ⟨moved_on hopen rfl (some _), rfl⟩
  | sending =>
    have hopen : d.phase.isReleased = false := by rw [hphase]; rfl
    dsimp only
    split
    · exact ⟨moved_on hopen rfl d.sent, rfl⟩
    · split
      · exact ⟨moved_on hopen rfl d.sent, rfl⟩
      · exact ⟨moved_on hopen rfl d.sent, rfl⟩
  | _ => exact ⟨⟨rfl, rfl, rfl, rfl, rfl⟩, rfl⟩

theorem quiet_reply (s : FaucetState) (i : Nat) (outcome : RpcOutcome) : s.Quiet (.reply i outcome) := by
  unfold Quiet
  simp only [step, receive]
  cases hi : s.drips[i]? with
  | none => exact .inl rfl
  | some d =>
    obtain ⟨hmoved, hcommitted⟩ := resume_spec s d outcome
    dsimp only
    split
    · exact .inr ⟨i, d, _, _, hi, hmoved, rfl, fun hc => .inl (hcommitted ▸ hc)⟩
    · exact .inl rfl

theorem quiet_drop (s : FaucetState) (i : Nat) : s.Quiet (.drop i) := by
  unfold Quiet
  simp only [step, dropCall]
  cases hi : s.drips[i]? with
  | none => exact .inl rfl
  | some d =>
    have hreleased : d.phase.underWay = true → d.phase.isReleased = false := by
      cases d.phase with
      | released e => intro h; cases h
      | _ => intro _; rfl
    dsimp only
    split
    · rename_i hphase
      have hmoved : Moved d { d with phase := .dropped } := moved_on (hreleased hphase) rfl d.sent
      exact .inr ⟨i, d, _, _, hi, hmoved, rfl, .inl⟩
    · exact .inl rfl

theorem quiet_commit (s : FaucetState) (i : Nat) : s.Quiet (.commit i) := by
  unfold Quiet
  simp only [step, commitTransfer]
  cases hi : s.drips[i]? with
  | none => exact .inl rfl
  | some d =>
    dsimp only
    split
    · have hmoved : Moved d { d with committed := true } := ⟨rfl, rfl, rfl, rfl, rfl⟩
      exact .inr ⟨i, d, _, _, hi, hmoved, rfl, fun _ => .inr rfl⟩
    · exact .inl rfl

theorem desk_put {s : FaucetState} {i : Nat} {d d' : Drip} (hi : s.drips[i]? = some d) (hmoved : Moved d d')
    (lock : Option Nat) : (s.put i d' lock).desk = s.desk := by
  obtain ⟨hlt, hget⟩ := List.getElem?_eq_some_iff.mp hi
  have hgrant : d'.grant = d.grant := by
    rw [Drip.grant, Drip.grant, hmoved.address, hmoved.claimedAt, hmoved.grantedAt, hmoved.released]
  have hmap : (s.drips.set i d').map Drip.grant = s.drips.map Drip.grant := by
    rw [List.map_set, hgrant, ← hget, ← List.getElem_map Drip.grant]
    · exact List.set_getElem_self _
    · simpa using hlt
  rw [desk, desk, put, hmap]

theorem Quiet.desk_eq {s : FaucetState} {op : FaucetOp} (h : s.Quiet op) : (s.step op).2.desk = s.desk := by
  rcases h with heq | ⟨i, d, d', lock, hi, hmoved, heq, -⟩
  · rw [heq]
  · rw [heq]
    exact desk_put hi hmoved lock

theorem desk_drip (s : FaucetState) (address : String) (delay : Nat) :
    (s.drip address delay).2.desk = s.deskAfter (.drip address delay) := by
  unfold deskAfter deskOp drip
  dsimp only
  cases hparse : Faucet.parseAddress address with
  | error e => rfl
  | ok recipient =>
    by_cases hself : recipient = s.signer.address
    · simp only [hself, if_true, Option.elim_none]
    · have hledger : s.desk.ledger.tryClaim (s.desk.clock - delay) s.desk.clock address =
          s.cooldown.tryClaim (s.clock - delay) s.clock address := rfl
      simp only [hself, if_false, Option.elim_some, Desk.step, hledger]
      rcases s.cooldown.tryClaim (s.clock - delay) s.clock address with ⟨result, ledger⟩
      cases result with
      | error remaining => rfl
      | ok u => simp [desk, Drip.grant, Phase.isReleased]

theorem desk_release (s : FaucetState) (i : Nat) : (s.releaseClaim i).2.desk = s.deskAfter (.release i) := by
  unfold deskAfter deskOp releaseClaim
  dsimp only
  cases hi : s.drips[i]? with
  | none => rfl
  | some d =>
    cases hphase : d.phase with
    | failed e => simp [hi, hphase, Desk.step, Desk.releaseGrant, desk, put, Drip.grant, Phase.isReleased, List.map_set]
    | _ => simp only [hphase, Option.map_some, Option.elim_none]

/-- **The faucet keeps its ledger as a desk does.** -/
theorem desk_step (s : FaucetState) (op : FaucetOp) : (s.step op).2.desk = s.deskAfter op := by
  cases op with
  | tick elapsed => rfl
  | sweep lag => rfl
  | drip address delay =>
    simp only [step]
    exact desk_drip s address delay
  | release i =>
    simp only [step]
    exact desk_release s i
  | lock i => exact (quiet_lock s i).desk_eq
  | reply i outcome => exact (quiet_reply s i outcome).desk_eq
  | drop i => exact (quiet_drop s i).desk_eq
  | commit i => exact (quiet_commit s i).desk_eq

/-! ## Paid once -/

/-- Of two committed transfers to one recipient, the later call was granted its claim no earlier than a cooldown after
the time that the earlier one stored. -/
def OncePerWindow (s : FaucetState) : Prop :=
  s.drips.Pairwise fun d d' => d.committed = true → d'.committed = true → d.recipient = d'.recipient →
    d.claimedAt + s.cooldown.cooldown ≤ d'.grantedAt

instance (s : FaucetState) : Decidable s.OncePerWindow := inferInstanceAs (Decidable (List.Pairwise _ _))

/-- The text of an address has no white space around it; a call that releases finds its own claim, none or
an expired one, and its transfer is not committed; and the node commits no transfer whose claim was released. -/
def Orderly (s : FaucetState) : FaucetOp → Prop
  | .drip address _ => trim address = address
  | .release i => s.desk.OwnRelease (.release i) ∧ ∀ d ∈ s.drips[i]?, d.committed = false
  | .commit i => ∀ d ∈ s.drips[i]?, d.phase.isReleased = false
  | _ => True

instance (s : FaucetState) (op : FaucetOp) : Decidable (s.Orderly op) :=
  match op with
  | .drip _ _ => inferInstanceAs (Decidable (_ = _))
  | .release _ => inferInstanceAs (Decidable (_ ∧ _))
  | .commit _ => inferInstanceAs (Decidable (∀ _ ∈ (_ : Option Drip), _))
  | .tick _ | .sweep _ | .lock _ | .reply _ _ | .drop _ => inferInstanceAs (Decidable True)

/-- The call `handle_drip` makes for the address of a request (lib.rs:449). -/
def handleDrip (address : String) (delay : Nat) : FaucetOp := .drip (trim address) delay

/-- Requests over HTTP are orderly: their address is trimmed. -/
theorem orderly_handleDrip (s : FaucetState) (address : String) (delay : Nat) : s.Orderly (handleDrip address delay) :=
  trim_trim address

/-- What an orderly run keeps of every call: a committed transfer's claim is not released, and the key of
the claim is the printed recipient. -/
structure Honest (d : Drip) : Prop where
  kept : d.committed = true → d.phase.isReleased = false
  key : toAsciiLowercase d.address = displayBytes d.recipient.toList

/-- What an orderly run keeps. -/
structure Kept (s : FaucetState) : Prop where
  tracked : s.desk.Tracked
  honest : ∀ d ∈ s.drips, Honest d

theorem Kept.oncePerWindow {s : FaucetState} (hs : s.Kept) : s.OncePerWindow := by
  have hexclusive : s.drips.Pairwise fun d d' => d.grant.key = d'.grant.key → d.grant.released = false →
      d.claimedAt + s.cooldown.cooldown ≤ d'.grantedAt := List.pairwise_map.mp hs.tracked.exclusive
  refine hexclusive.imp_of_mem ?_
  intro d d' hd hd' hshut hcommitted _ hrecipient
  have hkey : d.grant.key = d'.grant.key := by
    change toAsciiLowercase d.address = toAsciiLowercase d'.address
    rw [(hs.honest d hd).key, (hs.honest d' hd').key, hrecipient]
  exact hshut hkey ((hs.honest d hd).kept hcommitted)

/-- Replacing a call by an honest one. -/
theorem honest_set {s : FaucetState} (hs : ∀ d ∈ s.drips, Honest d) {i : Nat} {d' : Drip} (hd' : Honest d') :
    ∀ d ∈ s.drips.set i d', Honest d := by
  intro d hd
  rcases List.mem_or_eq_of_mem_set hd with hd | rfl
  · exact hs d hd
  · exact hd'

theorem Quiet.honest {s : FaucetState} {op : FaucetOp} (h : s.Quiet op) (hs : ∀ d ∈ s.drips, Honest d)
    (hcommit : ∀ i d, op = .commit i → s.drips[i]? = some d → d.phase.isReleased = false) :
    ∀ d ∈ (s.step op).2.drips, Honest d := by
  rcases h with heq | ⟨i, d, d', lock, hi, hmoved, heq, hcommitted⟩
  · rwa [heq]
  · have hd := hs d (List.mem_of_getElem? hi)
    rw [heq]
    refine honest_set hs ⟨?_, by rw [hmoved.address, hmoved.recipient, hd.key]⟩
    intro hc
    rw [hmoved.released]
    rcases hcommitted hc with hbefore | hop
    · exact hd.kept hbefore
    · exact hcommit i d hop hi

theorem honest_drip {s : FaucetState} (hs : ∀ d ∈ s.drips, Honest d) {address : String}
    (htrim : trim address = address) (delay : Nat) : ∀ d ∈ (s.drip address delay).2.drips, Honest d := by
  unfold drip
  cases hparse : Faucet.parseAddress address with
  | error e => exact hs
  | ok recipient =>
    dsimp only
    split
    · exact hs
    · split
      · exact hs
      · have hkey := lowercase_of_parseAddress hparse
        rw [htrim] at hkey
        intro d hd
        rcases List.mem_append.mp hd with hd | hd
        · exact hs d hd
        · rw [List.mem_singleton.mp hd]
          exact ⟨by simp, hkey⟩

theorem honest_release {s : FaucetState} (hs : ∀ d ∈ s.drips, Honest d) {i : Nat}
    (hnot : ∀ d ∈ s.drips[i]?, d.committed = false) : ∀ d ∈ (s.releaseClaim i).2.drips, Honest d := by
  unfold releaseClaim
  cases hi : s.drips[i]? with
  | none => exact hs
  | some d =>
    have hd := hs d (List.mem_of_getElem? hi)
    dsimp only
    split
    · refine honest_set hs ⟨?_, hd.key⟩
      intro hc
      simp [hnot d hi] at hc
    · exact hs

theorem honest_step {s : FaucetState} (hs : ∀ d ∈ s.drips, Honest d) {op : FaucetOp} (horderly : s.Orderly op) :
    ∀ d ∈ (s.step op).2.drips, Honest d := by
  cases op with
  | tick elapsed => exact hs
  | sweep lag => exact hs
  | drip address delay =>
    have htrim : trim address = address := horderly
    simp only [step]
    exact honest_drip hs htrim delay
  | release i =>
    simp only [step]
    exact honest_release hs horderly.2
  | lock i => exact (quiet_lock s i).honest hs (by simp)
  | reply i outcome => exact (quiet_reply s i outcome).honest hs (by simp)
  | drop i => exact (quiet_drop s i).honest hs (by simp)
  | commit i =>
    refine (quiet_commit s i).honest hs ?_
    rintro _ d ⟨⟩ hi
    exact horderly d hi

/-- An orderly event releases, at the desk, only what the call owns. -/
theorem Orderly.ownRelease {s : FaucetState} {op : FaucetOp} (h : s.Orderly op) {o : DeskOp}
    (ho : s.deskOp op = some o) : s.desk.OwnRelease o := by
  cases op with
  | release i =>
    simp only [deskOp] at ho
    split at ho
    · cases ho
      exact h.1
    · cases ho
  | drip address delay =>
    simp only [deskOp] at ho
    split at ho
    · cases ho
    · split at ho
      · cases ho
      · cases ho
        trivial
  | tick elapsed =>
    cases ho
    trivial
  | sweep lag =>
    cases ho
    trivial
  | _ => cases ho

theorem Kept.step {s : FaucetState} (hs : s.Kept) {op : FaucetOp} (horderly : s.Orderly op) :
    (FaucetState.step s op).2.Kept := by
  refine ⟨?_, honest_step hs.honest horderly⟩
  rw [desk_step, deskAfter]
  cases ho : s.deskOp op with
  | none => exact hs.tracked
  | some o => exact hs.tracked.step (horderly.ownRelease ho)

/-- **An address is paid at most once in a cooldown**, whatever the interleaving of calls, sweeps, answers
and commits, as long as every event of the run is orderly. The cooldown counts from the time that the earlier call
stored to the moment when the later one was granted its claim. -/
theorem paid_once_per_window {config : FaucetConfig} (hvalid : config.validate = .ok ()) (signer : FaucetSigner)
    (start : Nat) (ops : List FaucetOp)
    (horderly : ∀ c ∈ trace step (new config signer start) ops, c.before.Orderly c.input) :
    (final step (new config signer start) ops).OncePerWindow := by
  have hnew : (new config signer start).Kept := ⟨Desk.tracked_new hvalid start, by simp [new]⟩
  exact (final_invariant_of step Kept (fun c => c.before.Orderly c.input) (fun _ _ hs hc => hs.step hc) hnew ops
    horderly).oncePerWindow

/-! One address, funded, and funded again after the answer was lost. -/

def sampleSigner : FaucetSigner := ⟨⟨Vector.replicate 32 7, fun _ => Vector.replicate 64 9⟩, Vector.replicate 20 5⟩

def sampleText : String := "0x00112233445566778899AABBCCDDEEFF00112233"

def answer (text : String) : RpcOutcome := .body (.object [("jsonrpc", .string "2.0"), ("result", .string text)])

/-- A call is made, gets the lock, the chain id and a nonce, and its transfer is sent and committed. -/
def payingCall (i : Nat) (nonce : String) : List FaucetOp :=
  [.drip sampleText 300, .lock i, .reply i (answer "0x1"), .reply i (answer nonce), .commit i]

/-- The answer to the first transfer is read; a second call within the cooldown is refused, one after it paid. -/
theorem paid_once_per_window_answered :
    (final step (new Desk.secondConfig sampleSigner 0)
      (payingCall 0 "0x0" ++ [.reply 0 (answer "0xfeed"), .drip sampleText 0, .tick 1000000000] ++
        payingCall 1 "0x1")).OncePerWindow ∧
    (final step (new Desk.secondConfig sampleSigner 0)
      (payingCall 0 "0x0" ++ [.reply 0 (answer "0xfeed"), .drip sampleText 0, .tick 1000000000] ++
        payingCall 1 "0x1")).drips.map Drip.committed = [true, true] :=
  ⟨paid_once_per_window rfl sampleSigner 0 _ (by decide +kernel), by decide +kernel⟩

/-- The node commits the first transfer and its answer is lost: the claim is released, and the next call is
paid at the same instant. The two transfers carry the nonces 0 and 1. -/
theorem paid_twice_lost_answer :
    ¬ (final step (new Desk.secondConfig sampleSigner 0)
      (payingCall 0 "0x0" ++ [.reply 0 (.requestFailed "operation timed out"), .release 0] ++
        payingCall 1 "0x1")).OncePerWindow := by
  decide +kernel

end FaucetState
end Subhost
