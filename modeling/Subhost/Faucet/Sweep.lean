import Subhost.Faucet.Cooldown
/-!
# Sweeping the cooldown ledger (subhost-faucet/src/lib.rs:94-124, 407-419)

| here | there |
| --- | --- |
| `CooldownLedger.callStep`    | `try_claim`, `release` and `sweep` as calls |
| `CooldownLedger.sweepAmong`  | `sweep` in its three steps, with other calls between them |

A sweep drops what is older than twice the cooldown, and such an entry refuses nobody any more. So no answer to
`try_claim` tells whether the ledger was swept (`sweep_invisible`).

The number a sweep returns is the difference of two lengths, read before and after on a map that others change
meanwhile, and the limit of its age test is a product that is computed for every entry. Neither is guarded:
`sweepAmong_iff` says when both are what they should be.
-/
namespace Subhost
open Uint Run

namespace CooldownLedger

theorem retainLive_eq_none_iff (l : CooldownLedger) (clock : String → Nat) :
    l.retainLive clock = none ↔ l.entries.isEmpty = false ∧ durationLimit ≤ l.cooldown * 2 := by
  unfold retainLive
  split
  · rename_i hempty
    simp [hempty]
  · rename_i hempty
    split
    · rename_i hlimit
      simp [hempty, hlimit]
    · rename_i hlimit
      simp [hlimit]

theorem size_retainLive_le {l kept : CooldownLedger} {clock : String → Nat} (h : l.retainLive clock = some kept) :
    kept.entries.size ≤ l.entries.size := by
  unfold retainLive at h
  split at h
  · cases h
    exact Nat.le_refl _
  · split at h
    · cases h
    · cases h
      dsimp only
      exact Map.size_retain_le _ l.entries

/-! ## Calls -/

/-- A call of `try_claim`, with its two readings of the clock, or of `release`. -/
inductive SlotCall where
  | tryClaim (now later : Nat) (address : String)
  | release (address : String)
deriving DecidableEq

/-- Such a call, or a sweep that reads the clock for every entry and is over at `stop`. -/
inductive LedgerCall where
  | slot (call : SlotCall)
  | sweep (clock : String → Nat) (stop : Nat)

/-- What a call returns; a sweep returns a number, or panics. -/
inductive LedgerReply where
  | slot (reply : Except Nat Unit)
  | swept (removed : Option Nat)
deriving DecidableEq

def LedgerCall.isSweep : LedgerCall → Bool
  | .slot _ => false
  | .sweep _ _ => true

def slotStep (l : CooldownLedger) : SlotCall → Except Nat Unit × CooldownLedger
  | .tryClaim now later address => l.tryClaim now later address
  | .release address => (.ok (), l.release address)

def callStep (l : CooldownLedger) : LedgerCall → LedgerReply × CooldownLedger
  | .slot call => (.slot (l.slotStep call).1, (l.slotStep call).2)
  | .sweep clock _ =>
    match l.retainLive clock with
    | none => (.swept none, l)
    | some kept => (.swept (some (l.entries.size - kept.entries.size)), kept)

theorem cooldown_slotStep (l : CooldownLedger) (call : SlotCall) : (l.slotStep call).2.cooldown = l.cooldown := by
  cases call with
  | release address => rfl
  | tryClaim now later address =>
    change (l.tryClaim now later address).2.cooldown = _
    rcases l.tryClaim_cases now later address with ⟨_, -, -, heq⟩ | ⟨-, heq⟩
    · rw [heq]
    · rw [heq]

/-! ## Sweeping is invisible -/

/-- The readings of the clock do not decrease, from `t` on. -/
def InOrder : Nat → List LedgerCall → Prop
  | _, [] => True
  | t, .slot (.tryClaim now later _) :: rest => t ≤ now ∧ now ≤ later ∧ InOrder later rest
  | t, .slot (.release _) :: rest => InOrder t rest
  | t, .sweep clock stop :: rest => (∀ key, t ≤ clock key ∧ clock key ≤ stop) ∧ InOrder stop rest

/-- The swept ledger lacks only entries whose cooldown was over at `t`. -/
structure Shadows (t : Nat) (swept l : CooldownLedger) : Prop where
  cooldown : swept.cooldown = l.cooldown
  subset : ∀ (key : String) (claimed : Nat), swept.entries[key]? = some claimed → l.entries[key]? = some claimed
  expired : ∀ (key : String) (claimed : Nat), l.entries[key]? = some claimed → swept.entries[key]? ≠ some claimed →
    l.cooldown ≤ t - claimed

theorem Shadows.refl (t : Nat) (l : CooldownLedger) : Shadows t l l :=
  ⟨rfl, fun _ _ h => h, fun _ _ h hne => absurd h hne⟩

theorem Shadows.mono {t t' : Nat} {swept l : CooldownLedger} (h : Shadows t swept l) (hle : t ≤ t') : Shadows t' swept l := by
  refine ⟨h.cooldown, h.subset, fun key claimed hentry hne => ?_⟩
  have hexpired := h.expired key claimed hentry hne
  omega

/-- One update of both ledgers. -/
theorem Shadows.insert {t : Nat} {swept l : CooldownLedger} (h : Shadows t swept l) (key : String) (now : Nat) :
    Shadows t { swept with entries := swept.entries.insert key now } { l with entries := l.entries.insert key now } := by
  refine ⟨h.cooldown, ?_, ?_⟩
  · intro k claimed hk
    dsimp only at hk ⊢
    by_cases e : key = k
    · subst e
      rwa [Map.get_insert_self] at hk ⊢
    · rw [Map.get_insert_ne _ _ e] at hk ⊢
      exact h.subset k claimed hk
  · intro k claimed hk hne
    dsimp only at hk hne ⊢
    by_cases e : key = k
    · subst e
      rw [Map.get_insert_self] at hk hne
      exact absurd hk hne
    · rw [Map.get_insert_ne _ _ e] at hk hne
      exact h.expired k claimed hk hne

theorem Shadows.release {t : Nat} {swept l : CooldownLedger} (h : Shadows t swept l) (address : String) :
    Shadows t (swept.release address) (l.release address) := by
  refine ⟨h.cooldown, ?_, ?_⟩
  · intro k claimed hk
    dsimp only [CooldownLedger.release] at hk ⊢
    by_cases e : toAsciiLowercase address = k
    · rw [e, Map.get_erase_self] at hk
      cases hk
    · rw [Map.get_erase_ne _ e] at hk ⊢
      exact h.subset k claimed hk
  · intro k claimed hk hne
    dsimp only [CooldownLedger.release] at hk hne ⊢
    by_cases e : toAsciiLowercase address = k
    · rw [e, Map.get_erase_self] at hk
      cases hk
    · rw [Map.get_erase_ne _ e] at hk hne
      exact h.expired k claimed hk hne

/-- Both ledgers give the same answer, and the swept one goes on lacking only what is over. -/
theorem Shadows.tryClaim {t : Nat} {swept l : CooldownLedger} (h : Shadows t swept l) (now : Nat) {later : Nat}
    (hlater : t ≤ later) (address : String) :
    (swept.tryClaim now later address).1 = (l.tryClaim now later address).1 ∧
      Shadows t (swept.tryClaim now later address).2 (l.tryClaim now later address).2 := by
  rcases l.tryClaim_cases now later address with ⟨claimed, hentry, hearly, heq⟩ | ⟨hgranted, heq⟩
  · -- an entry that refuses is not over, so the swept ledger has it
    have hkept : swept.entries[toAsciiLowercase address]? = some claimed := by
      by_contra hne
      have hexpired := h.expired _ claimed hentry hne
      omega
    have hswept : swept.tryClaim now later address = (.error (swept.cooldown - (later - claimed)), swept) := by
      rw [CooldownLedger.tryClaim, hkept]
      exact if_pos (h.cooldown ▸ hearly)
    rw [heq, hswept, h.cooldown]
    exact ⟨rfl, h⟩
  · rcases swept.tryClaim_cases now later address with ⟨claimed, hentry, hearly, -⟩ | ⟨-, hswept⟩
    · have hover := hgranted claimed (h.subset _ claimed hentry)
      rw [h.cooldown] at hearly
      omega
    · rw [heq, hswept]
      exact ⟨rfl, h.insert _ now⟩

/-- A sweep takes away what is over. -/
theorem Shadows.retainLive {t : Nat} {swept l kept : CooldownLedger} (h : Shadows t swept l) {clock : String → Nat}
    {stop : Nat} (hclock : ∀ key, t ≤ clock key ∧ clock key ≤ stop) (hkept : swept.retainLive clock = some kept) :
    Shadows stop kept l := by
  obtain ⟨hcooldown, hget⟩ := get_retainLive hkept
  refine ⟨hcooldown.trans h.cooldown, fun key claimed hk => h.subset key claimed ((hget key claimed).mp hk).1, ?_⟩
  intro key claimed hk hne
  obtain ⟨hstart, hstop⟩ := hclock key
  by_cases hswept : swept.entries[key]? = some claimed
  · -- it was dropped now, at twice the cooldown
    have hold : ¬ clock key - claimed < swept.cooldown * 2 := fun hlive => hne ((hget key claimed).mpr ⟨hswept, hlive⟩)
    rw [h.cooldown] at hold
    omega
  · have hexpired := h.expired key claimed hk hswept
    omega

/-- **Sweeping is invisible.** On every ledger whose cooldown can be doubled, for all calls of `try_claim` and
`release` at times that do not decrease, and with sweeps anywhere between them: every call returns what it returns
without the sweeps. -/
theorem sweep_invisible (l : CooldownLedger) (hlimit : l.cooldown * 2 < durationLimit) (t : Nat)
    (calls : List LedgerCall) (horder : InOrder t calls) :
    ((trace callStep l calls).filter fun c => !c.input.isSweep).map Call.result =
      (trace callStep l (calls.filter fun call => !call.isSweep)).map Call.result := by
  refine results_skip callStep LedgerCall.isSweep
    (fun rest swept l => swept.cooldown * 2 < durationLimit ∧ ∃ t, InOrder t rest ∧ Shadows t swept l) ?_ ?_
    ⟨hlimit, t, horder, .refl t l⟩
  · rintro swept l call rest hsweep ⟨hlimit, t, horder, hshadows⟩
    cases call with
    | slot call => cases hsweep
    | sweep clock stop =>
      obtain ⟨hclock, horder⟩ := horder
      cases hkept : swept.retainLive clock with
      | none =>
        have hover := ((retainLive_eq_none_iff swept clock).mp hkept).2
        omega
      | some kept =>
        have hcooldown := (get_retainLive hkept).1
        simp only [callStep, hkept]
        exact ⟨hcooldown ▸ hlimit, stop, horder, hshadows.retainLive hclock hkept⟩
  · rintro swept l call rest hslot ⟨hlimit, t, horder, hshadows⟩
    cases call with
    | sweep clock stop => cases hslot
    | slot call =>
      cases call with
      | release address => exact ⟨rfl, hlimit, t, horder, hshadows.release address⟩
      | tryClaim now later address =>
        obtain ⟨hnow, hlater, horder⟩ := horder
        obtain ⟨hreply, hnext⟩ := hshadows.tryClaim now (hnow.trans hlater) address
        have hcooldown := swept.cooldown_slotStep (.tryClaim now later address)
        refine ⟨congrArg LedgerReply.slot hreply, ?_, later, horder, hnext.mono (hnow.trans hlater)⟩
        change (swept.slotStep (.tryClaim now later address)).2.cooldown * 2 < durationLimit
        rwa [hcooldown]

/-! A minute's cooldown, and a sweep between the end of twice that time and the next claim. -/

def minuteCalls : List LedgerCall :=
  [.slot (.tryClaim 0 0 "0xab"), .slot (.tryClaim 1000000000 1000000001 "0xAB"), .sweep (fun _ => 130000000000) 130000000000,
    .slot (.tryClaim 131000000000 131000000000 "0xab")]

theorem sweep_invisible_minute :
    InOrder 0 minuteCalls ∧
      ((trace callStep (.new (fromSecs 60)) minuteCalls).filter fun c => !c.input.isSweep).map Call.result =
        (trace callStep (.new (fromSecs 60)) (minuteCalls.filter fun call => !call.isSweep)).map Call.result := by
  have horder : InOrder 0 minuteCalls := by
    simp [InOrder, minuteCalls]
  exact ⟨horder, sweep_invisible (.new (fromSecs 60)) (by decide) 0 minuteCalls horder⟩

/-! ## A sweep among other calls -/

/-- The call adds an entry: it claims a key that is not there. -/
def takes (l : CooldownLedger) : SlotCall → Bool
  | .tryClaim _ _ address => l.entries[toAsciiLowercase address]?.isNone
  | .release _ => false

/-- The call removes an entry: it releases a key that is there. -/
def frees (l : CooldownLedger) : SlotCall → Bool
  | .tryClaim _ _ _ => false
  | .release address => l.entries[toAsciiLowercase address]?.isSome

/-- How many entries the calls add. -/
def slotsTaken (l : CooldownLedger) (calls : List SlotCall) : Nat :=
  ((trace slotStep l calls).map fun c => (c.before.takes c.input).toNat).sum

/-- How many entries the calls remove. -/
def slotsFreed (l : CooldownLedger) (calls : List SlotCall) : Nat :=
  ((trace slotStep l calls).map fun c => (c.before.frees c.input).toNat).sum

/-- **One call**: the number of entries changes by what it takes and frees. -/
theorem size_slotStep (l : CooldownLedger) (call : SlotCall) :
    l.entries.size + (l.takes call).toNat = (l.slotStep call).2.entries.size + (l.frees call).toNat := by
  cases call with
  | release address =>
    cases hentry : l.entries[toAsciiLowercase address]? with
    | none =>
      have hsame : (l.slotStep (.release address)).2.entries = l.entries := Map.erase_of_none hentry
      simp [takes, frees, hsame, hentry]
    | some claimed =>
      have hsize : (l.slotStep (.release address)).2.entries.size + 1 = l.entries.size := Map.size_erase_of_some hentry
      simp [takes, frees, hentry, hsize]
  | tryClaim now later address =>
    change _ = (l.tryClaim now later address).2.entries.size + _
    rcases l.tryClaim_cases now later address with ⟨claimed, hentry, -, heq⟩ | ⟨-, heq⟩
    · rw [heq]
      simp [takes, frees, hentry]
    · rw [heq]
      cases hentry : l.entries[toAsciiLowercase address]? with
      | none => simp [takes, frees, hentry, Map.size_insert_of_none _ hentry]
      | some claimed => simp [takes, frees, hentry, Map.size_insert_of_some _ hentry]

/-- **All calls.** -/
theorem size_final (l : CooldownLedger) (calls : List SlotCall) :
    l.entries.size + l.slotsTaken calls = (final slotStep l calls).entries.size + l.slotsFreed calls :=
  account_trace slotStep (fun l => l.entries.size) (fun c => (c.before.takes c.input).toNat)
    (fun c => (c.before.frees c.input).toNat) (fun l call => size_slotStep l call) l calls

/-- How a sweep ends. A build without overflow checks returns a wrapped number in place of `lengthOverflow`. -/
inductive SweepOutcome where
  | durationOverflow
  | lengthOverflow
  | returned (removed : Nat)
deriving DecidableEq

/-- `CooldownLedger::sweep` (lib.rs:120) with the calls `early` between its first length and its `retain`, and the
calls `late` between its `retain` and its second length. -/
def sweepAmong (l : CooldownLedger) (early : List SlotCall) (clock : String → Nat) (late : List SlotCall) : SweepOutcome :=
  let before := l.entries.size
  match (final slotStep l early).retainLive clock with
  | none => .durationOverflow
  | some kept =>
    let after := (final slotStep kept late).entries.size
    if after ≤ before then .returned (before - after) else .lengthOverflow

/-- The ledger as `retain` leaves it. -/
def keptAmong (l : CooldownLedger) (early : List SlotCall) (clock : String → Nat) : CooldownLedger :=
  ((final slotStep l early).retainLive clock).getD (final slotStep l early)

/-- How many entries the sweep removes. -/
def removedAmong (l : CooldownLedger) (early : List SlotCall) (clock : String → Nat) : Nat :=
  (final slotStep l early).entries.size - (l.keptAmong early clock).entries.size

/-- **When a sweep is safe.** With the cooldown of any configuration, on any ledger, at any times and among any
calls of `try_claim` and `release`: neither its multiplication nor its subtraction overflows and the number it
returns is that of the entries it removed, exactly if twice the cooldown is a duration or `retain` meets no entry,
and the other calls add as many entries between the two lengths as they remove. -/
theorem sweepAmong_iff (config : FaucetConfig) (entries : Map String Nat) (early : List SlotCall)
    (clock : String → Nat) (late : List SlotCall) :
    let l : CooldownLedger := ⟨entries, fromSecs config.cooldownSecs⟩
    l.sweepAmong early clock late = .returned (l.removedAmong early clock) ↔
      (2 * config.cooldownSecs.toNat < 2 ^ 64 ∨ (final slotStep l early).entries.isEmpty) ∧
        l.slotsTaken early + (l.keptAmong early clock).slotsTaken late =
          l.slotsFreed early + (l.keptAmong early clock).slotsFreed late := by
  intro l
  have hcooldown : (final slotStep l early).cooldown = fromSecs config.cooldownSecs := by
    refine final_invariant slotStep (fun m => m.cooldown = fromSecs config.cooldownSecs) ?_ rfl early
    intro m call hm
    rw [cooldown_slotStep, hm]
  have hearly := size_final l early
  cases hkept : (final slotStep l early).retainLive clock with
  | none =>
    obtain ⟨hentry, hover⟩ := (retainLive_eq_none_iff _ clock).mp hkept
    refine iff_of_false (by simp [sweepAmong, hkept]) ?_
    rintro ⟨hfit | hempty, -⟩
    · rw [hcooldown, durationLimit, fromSecs] at hover
      omega
    · rw [hentry] at hempty
      cases hempty
  | some kept =>
    have hsame : l.keptAmong early clock = kept := by rw [keptAmong, hkept, Option.getD_some]
    have hle := size_retainLive_le hkept
    have hlate := size_final kept late
    have hsafe : 2 * config.cooldownSecs.toNat < 2 ^ 64 ∨ (final slotStep l early).entries.isEmpty := by
      by_contra hunsafe
      rw [not_or] at hunsafe
      have hnone : (final slotStep l early).retainLive clock = none := by
        refine (retainLive_eq_none_iff _ clock).mpr ⟨by simpa using hunsafe.2, ?_⟩
        rw [hcooldown, durationLimit, fromSecs]
        omega
      rw [hnone] at hkept
      cases hkept
    rw [sweepAmong, hkept, removedAmong, hsame]
    simp only [hsafe, true_and]
    split
    · rename_i hfit
      rw [SweepOutcome.returned.injEq]
      omega
    · rename_i hfit
      refine iff_of_false (by simp) ?_
      omega

/-! Sweeps of a ledger with one entry, or none. -/

def oneEntry (cooldown : Nat) : CooldownLedger := ⟨(∅ : Map String Nat).insert "0xab" 0, cooldown⟩

/-- Another address claims its slot while the old entry is swept, and gives it back. -/
theorem sweepAmong_iff_one :
    (oneEntry (fromSecs Desk.secondConfig.cooldownSecs)).sweepAmong [.tryClaim 2000000000 2000000000 "0xcd"]
        (fun _ => 2000000000) [.release "0xcd"] =
      .returned ((oneEntry (fromSecs Desk.secondConfig.cooldownSecs)).removedAmong
        [.tryClaim 2000000000 2000000000 "0xcd"] fun _ => 2000000000) := by
  refine (sweepAmong_iff Desk.secondConfig _ _ _ _).mpr ⟨.inl (by decide), ?_⟩
  decide +kernel

/-- A cooldown that passes the check and cannot be doubled. -/
def longConfig : FaucetConfig := ⟨"http://127.0.0.1:8545", 1#128, 9223372036854775808#64⟩

/-- The doubled cooldown overflows; a claim between the lengths of an empty ledger makes the difference negative;
and a claim after the old entry was removed hides the removal. -/
theorem sweep_unsafe :
    longConfig.validate = .ok () ∧
      (oneEntry (fromSecs longConfig.cooldownSecs)).sweepAmong [] (fun _ => 0) [] = .durationOverflow ∧
    Desk.secondConfig.validate = .ok () ∧
      (new (fromSecs Desk.secondConfig.cooldownSecs)).sweepAmong [.tryClaim 0 0 "0xab"] (fun _ => 0) [] = .lengthOverflow ∧
      (oneEntry (fromSecs Desk.secondConfig.cooldownSecs)).sweepAmong [] (fun _ => 2000000000)
        [.tryClaim 2000000000 2000000000 "0xcd"] = .returned 0 ∧
      (oneEntry (fromSecs Desk.secondConfig.cooldownSecs)).removedAmong [] (fun _ => 2000000000) = 1 := by
  decide +kernel

end CooldownLedger
end Subhost
