import Subhost.Core.Types
import Subhost.Lib.Map
import Subhost.Lib.Run
/-!
# The faucet's cooldown ledger (subhost-faucet/src/lib.rs:46-124, 246-265)

| here | there |
| --- | --- |
| `FaucetConfig.validate`     | `FaucetConfig::validate` (lib.rs:68) |
| `CooldownLedger.tryClaim`   | `CooldownLedger::try_claim` (lib.rs:96) |
| `CooldownLedger.release`    | `CooldownLedger::release` (lib.rs:115) |
| `CooldownLedger.sweep`      | `CooldownLedger::sweep` (lib.rs:120) |

A `Desk` is the ledger together with the requests that claimed a slot on it and the clock they read.
`try_claim` reads the clock twice: first for the time it stores, and then, when it has the entry, for the age
of what is stored there. Others run between the two.

A request claims once and, if its submission fails, releases once. `release` removes whatever is stored
under the address. If the cooldown passed while the submission was under way, that can be the claim of
another request, which then protects nothing although its owner never released it.
`claim_released_by_owner` says that this is the only way in which a claim is lost.
-/
namespace Subhost
open Uint Run

/-- `FaucetError` (lib.rs:503), the variants the modelled functions return. -/
inductive FaucetError where
  | invalidAddress (message : String)
  | selfFunding
  | cooldown (remainingSecs : Nat)
  | rpc (message : String)
  | config (message : String)
deriving DecidableEq, Repr

/-- `impl Display for FaucetError`. -/
def FaucetError.display : FaucetError → String
  | .invalidAddress m => "invalid address: " ++ m
  | .selfFunding => "the faucet cannot fund itself"
  | .cooldown secs => "rate limited: try again in " ++ toString secs ++ " seconds"
  | .rpc m => "node RPC error: " ++ m
  | .config m => "invalid faucet configuration: " ++ m

/-- `FaucetConfig` (lib.rs:46), the fields the modelled functions read. -/
structure FaucetConfig where
  rpcUrl : String
  dripAmount : Amount
  cooldownSecs : U64

/-- `FaucetConfig::validate` (lib.rs:68). -/
def FaucetConfig.validate (config : FaucetConfig) : Except FaucetError Unit :=
  if config.dripAmount = 0#128 then .error (.config "drip_amount must be > 0")
  else if config.cooldownSecs = 0#64 then .error (.config "cooldown_secs must be > 0")
  else if !"http://".toList.isPrefixOf config.rpcUrl.toList && !"https://".toList.isPrefixOf config.rpcUrl.toList then
    .error (.config "rpc_url must be an http(s) URL")
  else .ok ()

/-- `Duration::from_secs`; durations and instants are in nanoseconds. -/
def fromSecs (secs : U64) : Nat := secs.toNat * 1000000000

/-- What is no `Duration`, in nanoseconds. -/
def durationLimit : Nat := 2 ^ 64 * 1000000000

/-- `str::to_ascii_lowercase`. -/
def toAsciiLowercase (text : String) : String := String.ofList (text.toList.map Char.toLower)

/-- `CooldownLedger` (lib.rs:84). -/
structure CooldownLedger where
  entries : Map String Nat
  cooldown : Nat

namespace CooldownLedger

/-- `CooldownLedger::new` (lib.rs:90). -/
def new (cooldown : Nat) : CooldownLedger := ⟨∅, cooldown⟩

/-- `CooldownLedger::try_claim` (lib.rs:96). The clock is read when the call starts, and once more by
`elapsed` when there is an entry. -/
def tryClaim (l : CooldownLedger) (now later : Nat) (address : String) : Except Nat Unit × CooldownLedger :=
  match l.entries[toAsciiLowercase address]? with
  | some claimed =>
    let elapsed := later - claimed
    if elapsed < l.cooldown then (.error (l.cooldown - elapsed), l)
    else (.ok (), { l with entries := l.entries.insert (toAsciiLowercase address) now })
  | none => (.ok (), { l with entries := l.entries.insert (toAsciiLowercase address) now })

/-- `CooldownLedger::release` (lib.rs:115). -/
def release (l : CooldownLedger) (address : String) : CooldownLedger :=
  { l with entries := l.entries.erase (toAsciiLowercase address) }

/-- The `retain` of `sweep` (lib.rs:122). The clock is read and `cooldown * 2` is computed for every entry; `none` is
the panic if that is no `Duration`. -/
def retainLive (l : CooldownLedger) (clock : String → Nat) : Option CooldownLedger :=
  if l.entries.isEmpty then some l
  else if durationLimit ≤ l.cooldown * 2 then none
  else some { l with
    entries := l.entries.retain fun key claimed => if clock key - claimed < l.cooldown * 2 then some claimed else none }

/-- `CooldownLedger::sweep` (lib.rs:120). Nothing has been removed when it panics. -/
def sweep (l : CooldownLedger) (clock : String → Nat) : Option Nat × CooldownLedger :=
  match l.retainLive clock with
  | none => (none, l)
  | some kept => (some (l.entries.size - kept.entries.size), kept)

/-- **What `try_claim` can do**: refuse within the cooldown of the stored claim, or store a new one. -/
theorem tryClaim_cases (l : CooldownLedger) (now later : Nat) (address : String) :
    (∃ claimed, l.entries[toAsciiLowercase address]? = some claimed ∧ later - claimed < l.cooldown ∧
      l.tryClaim now later address = (.error (l.cooldown - (later - claimed)), l)) ∨
    ((∀ claimed, l.entries[toAsciiLowercase address]? = some claimed → l.cooldown ≤ later - claimed) ∧
      l.tryClaim now later address =
        (.ok (), { l with entries := l.entries.insert (toAsciiLowercase address) now })) := by
  unfold tryClaim
  cases hentry : l.entries[toAsciiLowercase address]? with
  | none => exact .inr ⟨by simp, rfl⟩
  | some claimed =>
    by_cases hlt : later - claimed < l.cooldown
    · exact .inl ⟨claimed, rfl, hlt, if_pos hlt⟩
    · refine .inr ⟨?_, if_neg hlt⟩
      rintro _ ⟨⟩
      exact Nat.le_of_not_lt hlt

/-- **What `retain` leaves**: the entries younger than twice the cooldown. -/
theorem get_retainLive {l kept : CooldownLedger} {clock : String → Nat} (h : l.retainLive clock = some kept) :
    kept.cooldown = l.cooldown ∧ ∀ key claimed, kept.entries[key]? = some claimed ↔
      l.entries[key]? = some claimed ∧ clock key - claimed < l.cooldown * 2 := by
  unfold retainLive at h
  split at h
  · rename_i hempty
    cases h
    refine ⟨rfl, fun key claimed => ?_⟩
    have hnone : l.entries[key]? = none := by simp [Std.ExtTreeMap.isEmpty_iff.mp hempty]
    simp [hnone]
  · split at h
    · cases h
    · cases h
      refine ⟨rfl, fun key claimed => ?_⟩
      dsimp only
      rw [Map.get_retain, Option.bind_eq_some_iff]
      simp only [Option.ite_none_right_eq_some, Option.some.injEq]
      constructor
      · rintro ⟨_, hentry, hlive, rfl⟩
        exact ⟨hentry, hlive⟩
      · rintro ⟨hentry, hlive⟩
        exact ⟨claimed, hentry, hlive, rfl⟩

/-- A sweep keeps the cooldown and, of the entries, at least those that are not expired. -/
theorem sweep_effect (l : CooldownLedger) {clock : String → Nat} {now : Nat} (hclock : ∀ key, clock key ≤ now)
    (hpos : 0 < l.cooldown) :
    (l.sweep clock).2.cooldown = l.cooldown ∧
      (∀ (key : String) (t : Nat), (l.sweep clock).2.entries[key]? = some t → l.entries[key]? = some t) ∧
      ∀ (key : String) (t : Nat), l.entries[key]? = some t → now < t + l.cooldown →
        (l.sweep clock).2.entries[key]? = some t := by
  unfold sweep
  cases hkept : l.retainLive clock with
  | none => exact ⟨rfl, fun _ _ h => h, fun _ _ h _ => h⟩
  | some kept =>
    obtain ⟨hcooldown, hget⟩ := get_retainLive hkept
    refine ⟨hcooldown, fun key t h => ((hget key t).mp h).1, fun key t h hlive => (hget key t).mpr ⟨h, ?_⟩⟩
    have hread := hclock key
    omega

end CooldownLedger

/-! ## Requests at the ledger -/

/-- A request whose `try_claim` succeeded: the reading of the clock that it stored, and the one when it had the entry. -/
structure Grant where
  address : String
  claimedAt : Nat
  grantedAt : Nat
  released : Bool
deriving DecidableEq

/-- The key its claim is stored under. -/
def Grant.key (g : Grant) : String := toAsciiLowercase g.address

/-- The ledger, the clock and the granted requests in the order of their claims. -/
structure Desk where
  clock : Nat
  ledger : CooldownLedger
  grants : List Grant

/-- What happens at the desk. -/
inductive DeskOp where
  | tick (elapsed : Nat)
  /-- A `try_claim` gets hold of the entry. It read the clock for what it stores `delay` ago. -/
  | claim (address : String) (delay : Nat)
  | release (request : Nat)
  /-- A sweep ends. It read the clock for the entry of a key `lag key` ago. -/
  | sweep (lag : String → Nat)

namespace Desk

/-- A new ledger with the cooldown of the configuration. -/
def new (config : FaucetConfig) (start : Nat) : Desk :=
  ⟨start, .new (fromSecs config.cooldownSecs), []⟩

/-- The release of a granted request, once. -/
def releaseGrant (d : Desk) (i : Nat) : Desk :=
  match d.grants[i]? with
  | none => d
  | some g =>
    if g.released then d
    else { d with ledger := d.ledger.release g.address, grants := d.grants.set i { g with released := true } }

/-- One event; the result is that of `try_claim`. -/
def step (d : Desk) : DeskOp → Except Nat Unit × Desk
  | .tick elapsed => (.ok (), { d with clock := d.clock + elapsed })
  | .claim address delay =>
    match d.ledger.tryClaim (d.clock - delay) d.clock address with
    | (.error remaining, ledger) => (.error remaining, { d with ledger })
    | (.ok (), ledger) =>
      (.ok (), { d with ledger, grants := d.grants ++ [⟨address, d.clock - delay, d.clock, false⟩] })
  | .release i => (.ok (), d.releaseGrant i)
  | .sweep lag => (.ok (), { d with ledger := (d.ledger.sweep fun key => d.clock - lag key).2 })

/-- A claim that its owner did not release shuts out all later ones for the cooldown, counted from the time it stored. -/
def Exclusive (d : Desk) : Prop :=
  d.grants.Pairwise fun g g' => g.key = g'.key → g.released = false → g.claimedAt + d.ledger.cooldown ≤ g'.grantedAt

instance (d : Desk) : Decidable d.Exclusive := inferInstanceAs (Decidable (List.Pairwise _ _))

/-- A request that releases finds its own claim, none, or one that has expired. -/
def OwnRelease (d : Desk) : DeskOp → Prop
  | .release i => ∀ g ∈ d.grants[i]?, g.released = false →
      ∀ t ∈ d.ledger.entries[g.key]?, t = g.claimedAt ∨ t + d.ledger.cooldown ≤ d.clock
  | _ => True

instance (d : Desk) (op : DeskOp) : Decidable (d.OwnRelease op) :=
  match op with
  | .release _ => inferInstanceAs (Decidable (∀ _ ∈ (_ : Option Grant), _))
  | .tick _ | .claim _ _ | .sweep _ => inferInstanceAs (Decidable True)

/-! ## What ties the ledger to the requests -/

/-- Slots were given in the past, every claim that was not released is expired or is the stored one, every stored one
is that of a request which did not release, and claims shut each other out. -/
structure Tracked (d : Desk) : Prop where
  cooldown_pos : 0 < d.ledger.cooldown
  past : ∀ g ∈ d.grants, g.grantedAt ≤ d.clock
  live : ∀ g ∈ d.grants, g.released = false →
    g.claimedAt + d.ledger.cooldown ≤ d.clock ∨ d.ledger.entries[g.key]? = some g.claimedAt
  owned : ∀ (key : String) (t : Nat), d.ledger.entries[key]? = some t →
    ∃ g ∈ d.grants, g.released = false ∧ g.key = key ∧ g.claimedAt = t
  exclusive : d.Exclusive

theorem tracked_new {config : FaucetConfig} (h : config.validate = .ok ()) (start : Nat) :
    (new config start).Tracked where
  cooldown_pos := by
    have hne : config.cooldownSecs ≠ 0#64 := by
      intro hzero
      unfold FaucetConfig.validate at h
      split at h
      · cases h
      · cases h
    have hpos : config.cooldownSecs.toNat ≠ 0 := fun e => hne (BitVec.eq_of_toNat_eq e)
    change 0 < config.cooldownSecs.toNat * 1000000000
    omega
  past := by simp [new]
  live := by simp [new]
  owned := by simp [new, CooldownLedger.new]
  exclusive := .nil

theorem Tracked.tick {d : Desk} (hd : d.Tracked) (elapsed : Nat) : Tracked { d with clock := d.clock + elapsed } where
  cooldown_pos := hd.cooldown_pos
  past g hg := (hd.past g hg).trans (Nat.le_add_right _ _)
  live := by
    intro g hg hr
    rcases hd.live g hg hr with hexpired | hstored
    · exact .inl (Nat.le_trans hexpired (Nat.le_add_right _ _))
    · exact .inr hstored
  owned := hd.owned
  exclusive := hd.exclusive

/-- A new claim is granted only after every earlier one for the key that was not released has expired. -/
theorem Tracked.expired_of_granted {d : Desk} (hd : d.Tracked) {address : String}
    (hgranted : ∀ claimed, d.ledger.entries[toAsciiLowercase address]? = some claimed →
      d.ledger.cooldown ≤ d.clock - claimed) {g : Grant} (hg : g ∈ d.grants) (hkey : g.key = toAsciiLowercase address)
    (hr : g.released = false) : g.claimedAt + d.ledger.cooldown ≤ d.clock := by
  rcases hd.live g hg hr with hexpired | hstored
  · exact hexpired
  · have helapsed := hgranted g.claimedAt (hkey ▸ hstored)
    have hpos := hd.cooldown_pos
    omega

theorem Tracked.claim {d : Desk} (hd : d.Tracked) (address : String) (delay : Nat) :
    (d.step (.claim address delay)).2.Tracked := by
  rcases CooldownLedger.tryClaim_cases d.ledger (d.clock - delay) d.clock address with
    ⟨claimed, -, -, heq⟩ | ⟨hgranted, heq⟩
  · have hsame : (d.step (.claim address delay)).2 = d := by simp [Desk.step, heq]
    rwa [hsame]
  · have hstep : (d.step (.claim address delay)).2 =
        { d with
          ledger := { d.ledger with entries := d.ledger.entries.insert (toAsciiLowercase address) (d.clock - delay) }
          grants := d.grants ++ [⟨address, d.clock - delay, d.clock, false⟩] } := by
      simp [Desk.step, heq]
    rw [hstep]
    refine ⟨hd.cooldown_pos, ?_, ?_, ?_, ?_⟩
    · exact List.forall_mem_append.mpr ⟨hd.past, List.forall_mem_singleton.mpr (Nat.le_refl _)⟩
    · intro g hg hr
      rcases List.mem_append.mp hg with hg | hg
      · by_cases hkey : toAsciiLowercase address = g.key
        · exact .inl (hd.expired_of_granted hgranted hg hkey.symm hr)
        · rcases hd.live g hg hr with hexpired | hstored
          · exact .inl hexpired
          · right
            dsimp only
            rw [Map.get_insert_ne _ _ hkey]
            exact hstored
      · rw [List.mem_singleton.mp hg]
        exact .inr (Map.get_insert_self _ _ _)
    · intro key t ht
      dsimp only at ht
      by_cases hkey : toAsciiLowercase address = key
      · subst hkey
        rw [Map.get_insert_self, Option.some.injEq] at ht
        exact ⟨_, List.mem_append_right _ (List.mem_singleton_self _), rfl, rfl, ht⟩
      · rw [Map.get_insert_ne _ _ hkey] at ht
        obtain ⟨g, hg, hrest⟩ := hd.owned key t ht
        exact ⟨g, List.mem_append_left _ hg, hrest⟩
    · refine List.pairwise_append.mpr ⟨hd.exclusive, List.pairwise_singleton _ _, ?_⟩
      intro g hg g' hg' hkey hr
      rw [List.mem_singleton.mp hg'] at hkey ⊢
      exact hd.expired_of_granted hgranted hg hkey hr

theorem Tracked.sweep {d : Desk} (hd : d.Tracked) (lag : String → Nat) : (d.step (.sweep lag)).2.Tracked := by
  have hclock : ∀ key, d.clock - lag key ≤ d.clock := fun _ => Nat.sub_le _ _
  obtain ⟨hcooldown, hsubset, hkept⟩ := d.ledger.sweep_effect hclock hd.cooldown_pos
  refine ⟨?_, hd.past, ?_, ?_, ?_⟩
  · change 0 < (d.ledger.sweep fun key => d.clock - lag key).2.cooldown
    rw [hcooldown]
    exact hd.cooldown_pos
  · intro g hg hr
    change g.claimedAt + (d.ledger.sweep fun key => d.clock - lag key).2.cooldown ≤ d.clock ∨
      (d.ledger.sweep fun key => d.clock - lag key).2.entries[g.key]? = some g.claimedAt
    rw [hcooldown]
    rcases hd.live g hg hr with hexpired | hstored
    · exact .inl hexpired
    · by_cases hexpired : g.claimedAt + d.ledger.cooldown ≤ d.clock
      · exact .inl hexpired
      · exact .inr (hkept _ _ hstored (by omega))
  · intro key t ht
    exact hd.owned key t (hsubset key t ht)
  · change d.grants.Pairwise fun g g' => g.key = g'.key → g.released = false →
      g.claimedAt + (d.ledger.sweep fun key => d.clock - lag key).2.cooldown ≤ g'.grantedAt
    rw [hcooldown]
    exact hd.exclusive

/-- If two requests for one key that did not release have stored the same time, the cooldown of that time is over: the
later of the two waited for it. -/
theorem Tracked.expired_of_claimedAt_eq {d : Desk} (hd : d.Tracked) {i j : Nat} {g g' : Grant}
    (hi : d.grants[i]? = some g) (hj : d.grants[j]? = some g') (hne : i ≠ j) (hkey : g.key = g'.key)
    (hr : g.released = false) (hr' : g'.released = false) (heq : g.claimedAt = g'.claimedAt) :
    g.claimedAt + d.ledger.cooldown ≤ d.clock := by
  have hexclusive := List.pairwise_iff_getElem.mp hd.exclusive
  obtain ⟨hilt, hiv⟩ := List.getElem?_eq_some_iff.mp hi
  obtain ⟨hjlt, hjv⟩ := List.getElem?_eq_some_iff.mp hj
  rcases Nat.lt_or_gt_of_ne hne with hlt | hlt
  · have hle := hexclusive i j hilt hjlt hlt
    rw [hiv, hjv] at hle
    exact (hle hkey hr).trans (hd.past g' (List.mem_of_getElem? hj))
  · have hle := hexclusive j i hjlt hilt hlt
    rw [hiv, hjv] at hle
    rw [heq]
    exact (hle hkey.symm hr').trans (hd.past g (List.mem_of_getElem? hi))

/-- A grant of the list with one entry replaced. -/
theorem mem_set_cases {l : List Grant} {i : Nat} {a g : Grant} (h : g ∈ l.set i a) :
    g = a ∨ ∃ j, j ≠ i ∧ l[j]? = some g := by
  obtain ⟨j, hj⟩ := List.mem_iff_getElem?.mp h
  rw [List.getElem?_set] at hj
  by_cases e : i = j
  · left
    rw [if_pos e] at hj
    split at hj
    · exact (Option.some.inj hj).symm
    · cases hj
  · rw [if_neg e] at hj
    exact .inr ⟨j, Ne.symm e, hj⟩

/-- Marking a grant as released keeps exclusivity. -/
theorem exclusive_set {d : Desk} (hd : d.Exclusive) {i : Nat} {g : Grant} (hi : d.grants[i]? = some g) :
    Exclusive { d with grants := d.grants.set i { g with released := true } } := by
  obtain ⟨hilt, hiv⟩ := List.getElem?_eq_some_iff.mp hi
  refine List.pairwise_iff_getElem.mpr ?_
  intro a b ha hb hlt hkey hr
  have hold := List.pairwise_iff_getElem.mp hd a b (by simpa using ha) (by simpa using hb) hlt
  simp only [List.getElem_set] at hkey hr ⊢
  by_cases ea : i = a
  · rw [if_pos ea] at hr
    cases hr
  · rw [if_neg ea] at hkey hr ⊢
    by_cases eb : i = b
    · subst eb
      rw [if_pos rfl] at hkey ⊢
      rw [hiv] at hold
      exact hold hkey hr
    · rw [if_neg eb] at hkey ⊢
      exact hold hkey hr

theorem releaseGrant_cases (d : Desk) (i : Nat) :
    d.releaseGrant i = d ∨
      ∃ g, d.grants[i]? = some g ∧ g.released = false ∧
        d.releaseGrant i = { d with
          ledger := d.ledger.release g.address, grants := d.grants.set i { g with released := true } } := by
  unfold releaseGrant
  cases hg : d.grants[i]? with
  | none => exact .inl rfl
  | some g =>
    cases hr : g.released with
    | true => exact .inl (by simp [hr])
    | false => exact .inr ⟨g, rfl, hr, by simp [hr]⟩

theorem Tracked.release {d : Desk} (hd : d.Tracked) {i : Nat} (hown : d.OwnRelease (.release i)) :
    (d.step (.release i)).2.Tracked := by
  change (d.releaseGrant i).Tracked
  rcases releaseGrant_cases d i with heq | ⟨g, hi, hr, heq⟩
  · rwa [heq]
  · rw [heq]
    refine ⟨hd.cooldown_pos, ?_, ?_, ?_, exclusive_set hd.exclusive hi⟩
    · intro g' hg'
      rcases List.mem_or_eq_of_mem_set hg' with hg' | rfl
      · exact hd.past g' hg'
      · exact hd.past g (List.mem_of_getElem? hi)
    · intro g' hg' hr'
      rcases mem_set_cases hg' with rfl | ⟨j, hne, hj⟩
      · cases hr'
      · rcases hd.live g' (List.mem_of_getElem? hj) hr' with hexpired | hstored
        · exact .inl hexpired
        · by_cases hkey : g.key = g'.key
          · -- what is removed is the releasing request's own claim, unless it has expired
            rcases hown g hi hr g'.claimedAt (hkey ▸ hstored) with hsame | hexpired
            · exact .inl (hd.expired_of_claimedAt_eq hj hi hne hkey.symm hr' hr hsame)
            · exact .inl hexpired
          · right
            change (d.ledger.entries.erase g.key)[g'.key]? = some g'.claimedAt
            rw [Map.get_erase_ne _ hkey]
            exact hstored
    · intro key t ht
      change (d.ledger.entries.erase g.key)[key]? = some t at ht
      by_cases hkey : g.key = key
      · rw [hkey, Map.get_erase_self] at ht
        cases ht
      · rw [Map.get_erase_ne _ hkey] at ht
        obtain ⟨g', hg', hr', hkey', ht'⟩ := hd.owned key t ht
        obtain ⟨j, hj⟩ := List.mem_iff_getElem?.mp hg'
        have hne : i ≠ j := by
          rintro rfl
          rw [hi, Option.some.injEq] at hj
          exact hkey (hj ▸ hkey')
        refine ⟨g', List.mem_iff_getElem?.mpr ⟨j, ?_⟩, hr', hkey', ht'⟩
        change (d.grants.set i _)[j]? = some g'
        rw [List.getElem?_set_ne hne]
        exact hj

theorem Tracked.step {d : Desk} (hd : d.Tracked) {op : DeskOp} (hown : d.OwnRelease op) : (d.step op).2.Tracked := by
  cases op with
  | tick elapsed => exact hd.tick elapsed
  | claim address delay => exact hd.claim address delay
  | release i => exact hd.release hown
  | sweep lag => exact hd.sweep lag

/-! ## Whole runs -/

/-- Releasing the live claim of another request lets a third one in at once. -/
theorem Tracked.not_exclusive {d : Desk} (hd : d.Tracked) {op : DeskOp} (hforeign : ¬ d.OwnRelease op) :
    ∃ address, ¬ (final Desk.step d [op, .claim address 0]).Exclusive := by
  cases op with
  | tick elapsed => exact absurd trivial hforeign
  | claim address delay => exact absurd trivial hforeign
  | sweep lag => exact absurd trivial hforeign
  | release i =>
    simp only [OwnRelease, not_forall, not_or] at hforeign
    obtain ⟨g, hi, hr, t, ht, hother, hlive⟩ := hforeign
    rw [Option.mem_def] at hi ht
    -- the claim that is removed belongs to another request, which has not released it
    obtain ⟨g', hg', hr', hkey', rfl⟩ := hd.owned g.key t ht
    obtain ⟨j, hj⟩ := List.mem_iff_getElem?.mp hg'
    have hne : i ≠ j := by
      rintro rfl
      rw [hi, Option.some.injEq] at hj
      exact hother (congrArg Grant.claimedAt hj.symm)
    have hreleased : (d.step (.release i)).2 = { d with
        ledger := d.ledger.release g.address, grants := d.grants.set i { g with released := true } } := by
      simp [Desk.step, releaseGrant, hi, hr]
    refine ⟨g.address, ?_⟩
    have hfinal : (final Desk.step d [.release i, .claim g.address 0]).grants =
          d.grants.set i { g with released := true } ++ [⟨g.address, d.clock, d.clock, false⟩] ∧
        (final Desk.step d [.release i, .claim g.address 0]).ledger.cooldown = d.ledger.cooldown := by
      simp only [final, hreleased]
      simp [Desk.step, CooldownLedger.tryClaim, CooldownLedger.release]
    intro hexclusive
    rw [Exclusive, hfinal.1, hfinal.2] at hexclusive
    have hmem : g' ∈ d.grants.set i { g with released := true } := by
      refine List.mem_iff_getElem?.mpr ⟨j, ?_⟩
      rw [List.getElem?_set_ne hne]
      exact hj
    have hshut := (List.pairwise_append.mp hexclusive).2.2 g' hmem _ (List.mem_singleton_self _) hkey' hr'
    exact hlive hshut

/-- **A claim is released by its owner.** With a cooldown the configuration check accepts, and whatever the
interleaving of claims, releases, sweeps and the clock: if every request that releases finds its own claim,
none, or an expired one, then no claim for an address is granted within the cooldown of an earlier one that was
not released, counted from the time the earlier one stored to the moment the later one has the entry. And a first
release that finds another request's live claim is not harmless: a claim made right after it is granted within
the cooldown of that other one. -/
theorem claim_released_by_owner {config : FaucetConfig} (hvalid : config.validate = .ok ()) (start : Nat)
    (ops : List DeskOp) (hown : ∀ c ∈ trace step (new config start) ops, c.before.OwnRelease c.input) :
    (final step (new config start) ops).Exclusive ∧
      ∀ op, ¬ (final step (new config start) ops).OwnRelease op →
        ∃ address, ¬ (final step (new config start) (ops ++ [op, .claim address 0])).Exclusive := by
  have htracked : (final step (new config start) ops).Tracked :=
    final_invariant_of step Tracked (fun c => c.before.OwnRelease c.input)
      (fun _ _ hd hc => hd.step hc) (tracked_new hvalid start) ops hown
  refine ⟨htracked.exclusive, ?_⟩
  intro op hforeign
  obtain ⟨address, hnot⟩ := htracked.not_exclusive hforeign
  exact ⟨address, by rwa [final_append]⟩

/-! Three requests for one address, the first one slow. -/

def secondConfig : FaucetConfig := ⟨"http://127.0.0.1:8545", 1#128, 1#64⟩

/-- The first request is still under way when its cooldown ends and the second one, which had to wait for the entry,
claims. -/
def slowRequest : List DeskOp := [.claim "0xAB" 0, .tick 1000100000, .claim "0xab" 200000]

/-- The second request is the one that releases, and the address is free again for a third. -/
theorem claim_released_by_owner_second :
    (final step (new secondConfig 0) (slowRequest ++ [.release 1])).Exclusive ∧
      (final step (new secondConfig 0) (slowRequest ++ [.release 1])).ledger.entries["0xab"]? = none := by
  exact ⟨(claim_released_by_owner rfl 0 _ (by decide +kernel)).1, by decide +kernel⟩

/-- The first request releases the claim of the second, and a third one is let in at the same instant. -/
theorem foreign_release_not_exclusive :
    ¬ (final step (new secondConfig 0) (slowRequest ++ [.release 0, .claim "0xab" 0])).Exclusive := by
  decide +kernel

end Desk
end Subhost
