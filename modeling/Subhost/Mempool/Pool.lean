import Subhost.Core.Encoding
/-!
# The pending transaction pool (subhost-mempool/src/lib.rs)

Two maps: the transactions by hash, and for each sender the hashes by nonce. `Sound` is what
the block producer relies on: a transaction is stored under its own hash and passed the pool's
size limit. Every operation keeps it, failed ones included.
-/
namespace Subhost
open Uint Bincode

/-- `MempoolConfig` (lib.rs:13). -/
structure MempoolConfig where
  maxPending : Nat
  maxPerSender : Nat
  minGasPrice : U128
  maxTxDataBytes : Nat
deriving DecidableEq

/-- `impl Default for MempoolConfig` (lib.rs:24). -/
def MempoolConfig.default : MempoolConfig := ⟨10000, 64, 1, 128 * 1024⟩

/-- `MempoolError` (lib.rs:321). -/
inductive MempoolError where
  | full
  | gasPriceTooLow (provided min : U128)
  | invalidTransaction (message : String)
  | senderQueueFull (sender : Address)
  | dataTooLarge (provided max : Nat)
  | invalidConfig (message : String)
deriving DecidableEq

/-- `impl Display for MempoolError`. -/
def MempoolError.display : MempoolError → String
  | .full => "transaction pool is full"
  | .gasPriceTooLow p m => "gas price " ++ toString p.toNat ++ " is below the minimum " ++ toString m.toNat
  | .invalidTransaction m => "submitted transaction is invalid: " ++ m
  | .senderQueueFull s => "sender queue is full: " ++ displayBytes s.toList
  | .dataTooLarge p m =>
    "transaction data is too large: " ++ toString p ++ " bytes (max " ++ toString m ++ ")"
  | .invalidConfig m => "invalid mempool configuration: " ++ m

/-- `MempoolConfig::validate` (lib.rs:40). -/
def MempoolConfig.validate (c : MempoolConfig) : Except MempoolError Unit :=
  if c.maxPending = 0 then .error (.invalidConfig "max_pending must be > 0")
  else if c.maxPerSender = 0 then .error (.invalidConfig "max_per_sender must be > 0")
  else .ok ()

/-- `Admission` (lib.rs:53). -/
structure Admission where
  hash : Hash
  accepted : Bool
  displaced : Option Transaction

/-- `Mempool` (lib.rs:74). -/
structure Mempool where
  config : MempoolConfig
  txs : Map Hash Transaction
  bySender : Map Address (Map Nonce Hash)

namespace Mempool

/-- `Mempool::try_new` (lib.rs:98). -/
def tryNew (config : MempoolConfig) : Except MempoolError Mempool :=
  match config.validate with
  | .error e => .error e
  | .ok () => .ok ⟨config, ∅, ∅⟩

/-- `Mempool::default` (lib.rs:81): the default configuration is valid. -/
def default : Mempool := ⟨MempoolConfig.default, ∅, ∅⟩

/-- `Mempool::get` (lib.rs:197). -/
def get (p : Mempool) (hash : Hash) : Option Transaction := p.txs[hash]?

/-- `Mempool::get_by_sender_nonce` (lib.rs:205). -/
def getBySenderNonce (p : Mempool) (sender : Address) (nonce : Nonce) : Option (Hash × Transaction) := do
  let nonces ← p.bySender[sender]?
  let hash ← nonces[nonce]?
  let tx ← p.txs[hash]?
  return (hash, tx)

/-- `Mempool::remove` (lib.rs:184). -/
def remove (p : Mempool) (hash : Hash) : Bool × Mempool :=
  match p.txs[hash]? with
  | none => (false, p)
  | some tx =>
    let bySender :=
      match p.bySender[tx.fromAddr]? with
      | none => p.bySender
      | some nonces =>
        let nonces := nonces.erase tx.nonce
        if nonces.isEmpty then p.bySender.erase tx.fromAddr else p.bySender.insert tx.fromAddr nonces
    (true, ⟨p.config, p.txs.erase hash, bySender⟩)

/-- `Mempool::prune_below_nonce` (lib.rs:280). -/
def pruneBelowNonce (p : Mempool) (sender : Address) (nextNonce : Nonce) : Nat × Mempool :=
  match p.bySender[sender]? with
  | none => (0, p)
  | some nonces =>
    let stale := (nonces.toList.filter fun e => decide (e.1 < nextNonce)).map Prod.snd
    let txs := stale.foldl (fun txs hash => txs.erase hash) p.txs
    let nonces := nonces.filter fun nonce _ => decide (nextNonce ≤ nonce)
    (stale.length, ⟨p.config, txs,
      if nonces.isEmpty then p.bySender.erase sender else p.bySender.insert sender nonces⟩)

/-- The order of `evict_lowest_priority` (lib.rs:298): cheapest first, then the highest nonce,
then the smallest hash. -/
def evictOrder (l r : Hash × Transaction) : Ordering :=
  (compare l.2.gasPrice.toNat r.2.gasPrice.toNat).then
    ((compare r.2.nonce.toNat l.2.nonce.toNat).then (compare l.1 r.1))

/-- `Mempool::evict_lowest_priority` (lib.rs:295). -/
def evictLowestPriority (p : Mempool) : Except MempoolError (Option Transaction) × Mempool :=
  match minBy evictOrder p.txs.toList with
  | some (hash, _) => (.ok p.txs[hash]?, (p.remove hash).2)
  | none => (.error .full, p)

/-- The checks of `admit` that read only the transaction and the limits (lib.rs:128-142). -/
def checkTx (config : MempoolConfig) (tx : Transaction) : Except MempoolError Unit :=
  if tx.gasLimit = 0 then .error (.invalidTransaction "gas limit must be > 0")
  else if tx.gasPrice < config.minGasPrice then .error (.gasPriceTooLow tx.gasPrice config.minGasPrice)
  else if tx.totalCost = none then .error (.invalidTransaction "gas_price * gas_limit + value overflows")
  else .ok ()

/-- Steps (2) and (3) of `admit` and the insertion (lib.rs:162-180). -/
def insertTx (p : Mempool) (hash : Hash) (tx : Transaction) (displaced : Option Transaction) :
    Except MempoolError Admission × Mempool :=
  let senderLen := ((p.bySender[tx.fromAddr]?).map fun nonces => nonces.size).getD 0
  if displaced = none ∧ p.config.maxPerSender ≤ senderLen then (.error (.senderQueueFull tx.fromAddr), p)
  else
    let room : Except MempoolError (Option Transaction) × Mempool :=
      if p.config.maxPending ≤ p.txs.size then p.evictLowestPriority else (.ok none, p)
    match room with
    | (.error e, p) => (.error e, p)
    | (.ok evicted, p) =>
      let nonces := ((p.bySender[tx.fromAddr]?).getD ∅).insert tx.nonce hash
      (.ok ⟨hash, true, displaced.or evicted⟩,
        ⟨p.config, p.txs.insert hash tx, p.bySender.insert tx.fromAddr nonces⟩)

section
variable [Blake3]

/-- `Mempool::admit` (lib.rs:114). -/
def admitTx (p : Mempool) (tx : Transaction) : Except MempoolError Admission × Mempool :=
  if p.config.maxTxDataBytes < tx.data.length then
    (.error (.dataTooLarge tx.data.length p.config.maxTxDataBytes), p)
  else
    let hash := tx.hash
    if (p.txs[hash]?).isSome then (.ok ⟨hash, true, none⟩, p)
    else
      match checkTx p.config tx with
      | .error e => (.error e, p)
      | .ok () =>
        -- (1) replace by fee
        match (p.bySender[tx.fromAddr]?).bind fun nonces => nonces[tx.nonce]? with
        | none => p.insertTx hash tx none
        | some existing =>
          let price : U128 := ((p.txs[existing]?).map fun t => t.gasPrice).getD 0
          if tx.gasPrice ≤ price then (.ok ⟨existing, false, none⟩, p)
          else
            let bySender :=
              match p.bySender[tx.fromAddr]? with
              | none => p.bySender
              | some nonces => p.bySender.insert tx.fromAddr (nonces.erase tx.nonce)
            insertTx ⟨p.config, p.txs.erase existing, bySender⟩ hash tx p.txs[existing]?

/-- `Mempool::add` (lib.rs:108). -/
def add (p : Mempool) (tx : Transaction) : Except MempoolError Hash × Mempool :=
  ((p.admitTx tx).1.map Admission.hash, (p.admitTx tx).2)

/-! ## What the operations keep -/

/-- Every transaction is stored under its hash and within the size limit. -/
structure Sound (p : Mempool) : Prop where
  keyed : ∀ {hash tx}, p.get hash = some tx → tx.hash = hash
  bounded : ∀ {hash tx}, p.get hash = some tx → tx.data.length ≤ p.config.maxTxDataBytes

omit [Blake3] in
/-- `remove` keeps the limits and adds nothing. -/
theorem remove_spec (p : Mempool) (hash : Hash) :
    (p.remove hash).2.config = p.config ∧ ∀ {h t}, (p.remove hash).2.get h = some t → p.get h = some t := by
  unfold remove
  split
  · exact ⟨rfl, fun h => h⟩
  · refine ⟨rfl, ?_⟩
    intro h t hget
    by_cases e : hash = h
    · subst e
      rw [get, Map.get_erase_self] at hget
      cases hget
    · rwa [get, Map.get_erase_ne _ e] at hget

omit [Blake3] in
theorem evictLowestPriority_spec (p : Mempool) :
    p.evictLowestPriority.2.config = p.config ∧
    ∀ {h t}, p.evictLowestPriority.2.get h = some t → p.get h = some t := by
  unfold evictLowestPriority
  split
  · exact remove_spec p _
  · exact ⟨rfl, fun h => h⟩

omit [Blake3] in
theorem insertTx_spec (p : Mempool) (hash : Hash) (tx : Transaction) (displaced : Option Transaction) :
    (p.insertTx hash tx displaced).2.config = p.config ∧
    ∀ {h t}, (p.insertTx hash tx displaced).2.get h = some t → p.get h = some t ∨ (h = hash ∧ t = tx) := by
  have hroom : ∀ {q : Except MempoolError (Option Transaction) × Mempool},
      q = (if p.config.maxPending ≤ p.txs.size then p.evictLowestPriority else (.ok none, p)) →
      q.2.config = p.config ∧ ∀ {h t}, q.2.get h = some t → p.get h = some t := by
    rintro q rfl
    split
    · exact evictLowestPriority_spec p
    · exact ⟨rfl, fun h => h⟩
  unfold insertTx
  dsimp only
  split
  · exact ⟨rfl, .inl⟩
  · split
    · rename_i e q hq
      obtain ⟨hconfig, hget⟩ := hroom hq.symm
      exact ⟨hconfig, fun h => .inl (hget h)⟩
    · rename_i evicted q hq
      obtain ⟨hconfig, hget⟩ := hroom hq.symm
      refine ⟨hconfig, ?_⟩
      intro h t ht
      by_cases e : hash = h
      · subst e
        rw [get, Map.get_insert_self] at ht
        exact .inr ⟨rfl, (Option.some.inj ht).symm⟩
      · rw [get, Map.get_insert_ne _ _ e] at ht
        exact .inl (hget ht)

/-- `admit` adds at most the submitted transaction, under its hash and within the limit. -/
theorem admitTx_spec (p : Mempool) (tx : Transaction) :
    (p.admitTx tx).2.config = p.config ∧
    ∀ {h t}, (p.admitTx tx).2.get h = some t →
      p.get h = some t ∨ (h = tx.hash ∧ t = tx ∧ tx.data.length ≤ p.config.maxTxDataBytes) := by
  unfold admitTx
  split
  · exact ⟨rfl, .inl⟩
  · rename_i hsize
    have hle : tx.data.length ≤ p.config.maxTxDataBytes := Nat.le_of_not_lt hsize
    dsimp only
    split
    · exact ⟨rfl, .inl⟩
    · split
      · exact ⟨rfl, .inl⟩
      · split
        · obtain ⟨hconfig, hget⟩ := insertTx_spec p tx.hash tx none
          refine ⟨hconfig, ?_⟩
          intro h t ht
          rcases hget ht with hold | ⟨hh, htx⟩
          · exact .inl hold
          · exact .inr ⟨hh, htx, hle⟩
        · rename_i existing _
          split
          · exact ⟨rfl, .inl⟩
          · obtain ⟨hconfig, hget⟩ := insertTx_spec ⟨p.config, p.txs.erase existing, _⟩ tx.hash tx p.txs[existing]?
            refine ⟨hconfig, ?_⟩
            intro h t ht
            rcases hget ht with hold | ⟨hh, htx⟩
            · -- the replaced transaction is gone, the others are as before
              by_cases e : existing = h
              · subst e
                rw [get, Map.get_erase_self] at hold
                cases hold
              · rw [get, Map.get_erase_ne _ e] at hold
                exact .inl hold
            · exact .inr ⟨hh, htx, hle⟩

theorem Sound.remove {p : Mempool} (h : p.Sound) (hash : Hash) : (p.remove hash).2.Sound := by
  obtain ⟨hconfig, hget⟩ := remove_spec p hash
  exact ⟨fun ht => h.keyed (hget ht), fun ht => by rw [hconfig]; exact h.bounded (hget ht)⟩

theorem Sound.admitTx {p : Mempool} (h : p.Sound) (tx : Transaction) : (p.admitTx tx).2.Sound := by
  obtain ⟨hconfig, hget⟩ := admitTx_spec p tx
  constructor
  · intro hash t ht
    rcases hget ht with hold | ⟨rfl, rfl, -⟩
    · exact h.keyed hold
    · rfl
  · intro hash t ht
    rw [hconfig]
    rcases hget ht with hold | ⟨-, rfl, hle⟩
    · exact h.bounded hold
    · exact hle

theorem Sound.add {p : Mempool} (h : p.Sound) (tx : Transaction) : (p.add tx).2.Sound := h.admitTx tx

theorem sound_default : default.Sound := by
  constructor
  · intro hash t ht
    simp [default, get] at ht
  · intro hash t ht
    simp [default, get] at ht

end
end Mempool
end Subhost
