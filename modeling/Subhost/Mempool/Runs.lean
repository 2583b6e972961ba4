import Subhost.Lib.Run
import Subhost.Mempool.Rollback
/-!
# Runs of the pool (subhost-mempool/src/lib.rs:107-318)

`prune_below_nonce` takes several transactions out at once: their hashes are read off the sender's
queue, so that it removes the right ones only where queue and transactions agree
(`Consistent.pruneBelowNonce`, `get_pruneBelowNonce`). With it every operation keeps the pool
consistent, and `pool_invariant` spells out what that says of any run from a new pool.
-/
namespace Subhost.Mempool
open Uint Bincode Run

/-- The transaction is one that `prune_below_nonce` drops. -/
def isStale (sender : Address) (nextNonce : Nonce) (tx : Transaction) : Bool :=
  decide (tx.fromAddr = sender) && decide (tx.nonce < nextNonce)

/-- The hashes `prune_below_nonce` reads off the sender's queue (lib.rs:284). -/
def staleHashes (p : Mempool) (sender : Address) (nextNonce : Nonce) : List Hash :=
  ((Nested.row p.bySender sender).filter fun e => decide (e.1 < nextNonce)).map Prod.snd

theorem restrict_of_none {index : Map Address (Map Nonce Hash)} {sender : Address} (h : index[sender]? = none)
    (keep : Nonce → Bool) : Nested.restrict index sender keep = index := by
  simp [Nested.restrict, h]

theorem pruneBelowNonce_eq (p : Mempool) (sender : Address) (nextNonce : Nonce) :
    p.pruneBelowNonce sender nextNonce = ((p.staleHashes sender nextNonce).length,
      ⟨p.config, (p.staleHashes sender nextNonce).foldl (fun txs hash => txs.erase hash) p.txs,
        Nested.restrict p.bySender sender fun nonce => decide (nextNonce ≤ nonce)⟩) := by
  unfold pruneBelowNonce staleHashes Nested.row
  cases hqueue : p.bySender[sender]? with
  | none => simp [restrict_of_none hqueue]
  | some nonces => simp [Nested.restrict, hqueue]

section
variable [Blake3] {p : Mempool}

theorem ConsistentBut.mem_staleHashes (hp : p.Consistent) {sender : Address} {nextNonce : Nonce} {hash : Hash} :
    hash ∈ p.staleHashes sender nextNonce ↔ ∃ tx, p.get hash = some tx ∧ isStale sender nextNonce tx = true := by
  unfold staleHashes isStale
  constructor
  · intro h
    obtain ⟨⟨nonce, g⟩, hentry, rfl⟩ := List.mem_map.mp h
    obtain ⟨hrow, hlt⟩ := List.mem_filter.mp hentry
    obtain ⟨tx, hget, hfrom, rfl⟩ := (hp.indexed _ _ _).mp (Nested.mem_row.mp hrow)
    exact ⟨tx, hget, by simpa [hfrom] using hlt⟩
  · rintro ⟨tx, hget, hstale⟩
    obtain ⟨rfl, hlt⟩ : tx.fromAddr = sender ∧ tx.nonce < nextNonce := by simpa using hstale
    have hrow := Nested.mem_row.mpr (hp.slot_of_get hget)
    exact List.mem_map.mpr ⟨(tx.nonce, hash), List.mem_filter.mpr ⟨hrow, by simpa using hlt⟩, rfl⟩

/-- Exactly the stale transactions of the sender go. -/
theorem ConsistentBut.get_pruneBelowNonce (hp : p.Consistent) (sender : Address) (nextNonce : Nonce) (hash : Hash) :
    (p.pruneBelowNonce sender nextNonce).2.get hash =
      (p.get hash).filter fun tx => !isStale sender nextNonce tx := by
  rw [pruneBelowNonce_eq, get, Map.get_foldl_erase]
  split
  · rename_i hmem
    obtain ⟨tx, hget, hstale⟩ := hp.mem_staleHashes.mp hmem
    simp [hget, hstale, Option.filter_some]
  · rename_i hmem
    cases hget : p.get hash with
    | none => exact hget
    | some tx =>
      have hfresh : isStale sender nextNonce tx = false := by
        by_contra hstale
        exact hmem (hp.mem_staleHashes.mpr ⟨tx, hget, by simpa using hstale⟩)
      rw [Option.filter_some, hfresh]
      exact hget

/-- The number returned is that of the transactions dropped. -/
theorem ConsistentBut.pruneBelowNonce_count (hp : p.Consistent) (sender : Address) (nextNonce : Nonce) :
    (p.pruneBelowNonce sender nextNonce).1 =
      (p.txs.toList.filter fun e => isStale sender nextNonce e.2).length := by
  have hperm := hp.indexed.row_perm sender fun nonce => decide (nonce < nextNonce)
  rw [pruneBelowNonce_eq, staleHashes, hperm.length_eq, List.length_map]
  rfl

/-- A sender's queue is as long as it has transactions in the pool. -/
theorem ConsistentBut.width_eq (hp : p.Consistent) (sender : Address) :
    Nested.width p.bySender sender = (p.txs.toList.filter fun e => decide (e.2.fromAddr = sender)).length := by
  have hperm := hp.indexed.row_perm sender fun _ => true
  have hlength := hperm.length_eq
  simpa [Nested.length_row] using hlength

theorem ConsistentBut.pruneBelowNonce (hp : p.Consistent) (sender : Address) (nextNonce : Nonce) :
    (p.pruneBelowNonce sender nextNonce).2.Consistent := by
  have hget := hp.get_pruneBelowNonce sender nextNonce
  have hsub : ∀ {hash tx}, (p.pruneBelowNonce sender nextNonce).2.get hash = some tx → p.get hash = some tx := by
    intro hash tx h
    rw [hget] at h
    exact (Option.filter_eq_some_iff.mp h).1
  have hconfig : (p.pruneBelowNonce sender nextNonce).2.config = p.config := by rw [pruneBelowNonce_eq]
  refine ⟨?_, ⟨fun h => hp.sound.keyed (hsub h), ?_⟩, ?_, ?_, ?_, ?_, ?_⟩
  · rw [hconfig]
    exact hp.limits
  · intro hash tx h
    rw [hconfig]
    exact hp.sound.bounded (hsub h)
  · intro hash tx h
    rw [hconfig]
    exact hp.checked (hsub h)
  · have hrest : ∀ hash : Hash, (p.pruneBelowNonce sender nextNonce).2.txs[hash]? = (p.txs[hash]?).filter fun tx =>
        !decide (tx.fromAddr = sender ∧ decide (nextNonce ≤ tx.nonce) = false) := by
      intro hash
      simpa [isStale, get] using hget hash
    have hindexed := hp.indexed.restrict sender (fun nonce => decide (nextNonce ≤ nonce)) hrest
    rw [pruneBelowNonce_eq] at hindexed ⊢
    exact hindexed
  · rw [pruneBelowNonce_eq]
    exact Nested.compact_restrict _ _ hp.compact
  · rw [hconfig]
    refine Nat.le_trans ?_ hp.capacity
    rw [← Std.ExtTreeMap.length_toList, ← Std.ExtTreeMap.length_toList]
    refine List.Subperm.length_le ((Map.nodup_toList _).subperm ?_)
    rintro ⟨hash, tx⟩ h
    exact Map.mem_toList.mpr (hsub (Map.mem_toList.mp h))
  · intro s
    rw [hconfig]
    refine Nat.le_trans ?_ (hp.budget s)
    rw [pruneBelowNonce_eq]
    exact Nested.width_restrict_le _ _ _ _

end

/-! ## Runs -/

inductive PoolOp where
  | admitTx (tx : Transaction)
  | add (tx : Transaction)
  | remove (hash : Hash)
  | pruneBelowNonce (sender : Address) (nextNonce : Nonce)

/-- What the calls return. -/
inductive PoolReply where
  | admission (result : Except MempoolError Admission)
  | hash (result : Except MempoolError Hash)
  | removed (found : Bool)
  | pruned (count : Nat)

section
variable [Blake3]

def step (p : Mempool) : PoolOp → PoolReply × Mempool
  | .admitTx tx => (.admission (p.admitTx tx).1, (p.admitTx tx).2)
  | .add tx => (.hash (p.add tx).1, (p.add tx).2)
  | .remove hash => (.removed (p.remove hash).1, (p.remove hash).2)
  | .pruneBelowNonce sender nextNonce =>
    (.pruned (p.pruneBelowNonce sender nextNonce).1, (p.pruneBelowNonce sender nextNonce).2)

theorem ConsistentBut.step {p : Mempool} (hp : p.Consistent) (op : PoolOp) : (p.step op).2.Consistent := by
  cases op with
  | admitTx tx | add tx => exact hp.admitTx tx
  | remove hash => exact hp.remove hash
  | pruneBelowNonce sender nextNonce => exact hp.pruneBelowNonce sender nextNonce

theorem config_step (p : Mempool) (op : PoolOp) : (p.step op).2.config = p.config := by
  cases op with
  | admitTx tx | add tx => exact (admitTx_spec p tx).1
  | remove hash => exact remove_config p hash
  | pruneBelowNonce sender nextNonce =>
    show (p.pruneBelowNonce sender nextNonce).2.config = p.config
    rw [pruneBelowNonce_eq]

theorem consistent_run {p : Mempool} (hp : p.Consistent) (ops : List PoolOp) :
    (final step p ops).Consistent ∧ (final step p ops).config = p.config :=
  final_invariant step (fun q => q.Consistent ∧ q.config = p.config)
    (fun q op hq => ⟨hq.1.step op, (config_step q op).trans hq.2⟩) ⟨hp, rfl⟩ ops

omit [Blake3] in
theorem config_of_tryNew {config : MempoolConfig} {p : Mempool} (h : tryNew config = .ok p) : p.config = config := by
  unfold tryNew at h
  split at h
  · cases h
  · cases h
    rfl

/-- **The representation invariant**, in full, after any run from a new pool: every transaction is
stored under its hash; the sender index and the transactions correspond exactly, so that a sender
and nonce have one pending transaction; no sender has an empty queue; both limits are kept; every
pending transaction passes the static checks. And each `prune_below_nonce` of the run removes
exactly the entries of the sender below the nonce and returns their number. -/
theorem pool_invariant (config : MempoolConfig) (p : Mempool) (hnew : tryNew config = .ok p) (ops : List PoolOp) :
    ((∀ (hash : Hash) (tx : Transaction), (final step p ops).txs[hash]? = some tx → tx.hash = hash) ∧
      (∀ (sender : Address) (nonce : Nonce) (hash : Hash),
        ((final step p ops).bySender[sender]?).bind (fun nonces => nonces[nonce]?) = some hash ↔
        ∃ tx, (final step p ops).txs[hash]? = some tx ∧ tx.fromAddr = sender ∧ tx.nonce = nonce) ∧
      (∀ (hash hash' : Hash) (tx tx' : Transaction), (final step p ops).txs[hash]? = some tx →
        (final step p ops).txs[hash']? = some tx' →
        tx.fromAddr = tx'.fromAddr → tx.nonce = tx'.nonce → hash = hash' ∧ tx = tx') ∧
      (∀ (sender : Address) (nonces : Map Nonce Hash), (final step p ops).bySender[sender]? = some nonces →
        nonces.isEmpty = false) ∧
      (final step p ops).txs.size ≤ config.maxPending ∧
      (∀ sender, ((final step p ops).txs.toList.filter fun e => decide (e.2.fromAddr = sender)).length ≤
        config.maxPerSender) ∧
      (∀ (hash : Hash) (tx : Transaction), (final step p ops).txs[hash]? = some tx →
        tx.data.length ≤ config.maxTxDataBytes ∧ checkTx config tx = .ok ())) ∧
    ∀ c ∈ trace step p ops, ∀ sender nextNonce, c.input = .pruneBelowNonce sender nextNonce →
      (∀ hash : Hash, c.after.txs[hash]? = (c.before.txs[hash]?).filter fun tx => !isStale sender nextNonce tx) ∧
      c.result = .pruned (c.before.txs.toList.filter fun e => isStale sender nextNonce e.2).length := by
  have hp := consistent_tryNew hnew
  obtain ⟨hq, hconfig⟩ := consistent_run hp ops
  rw [config_of_tryNew hnew] at hconfig
  constructor
  · refine ⟨fun hash tx h => hq.sound.keyed h, hq.indexed, ?_, fun sender nonces h => hq.compact sender nonces id h,
      hconfig ▸ hq.capacity, ?_, ?_⟩
    · intro hash hash' tx tx' h h' hfrom hnonce
      have hslot := hq.slot_of_get h
      rw [hfrom, hnonce, hq.slot_of_get h'] at hslot
      cases hslot
      rw [h] at h'
      exact ⟨rfl, Option.some.inj h'⟩
    · intro sender
      rw [← hq.width_eq, ← hconfig]
      exact hq.budget sender
    · intro hash tx h
      rw [← hconfig]
      exact ⟨hq.sound.bounded h, hq.checked h⟩
  · intro c hc sender nextNonce hinput
    have hbefore := trace_invariant step Consistent (fun q op hq => hq.step op) hp ops c hc
    have hcall := trace_step step p ops c hc
    rw [hinput] at hcall
    obtain ⟨hresult, hafter⟩ := Prod.mk.inj hcall
    rw [← hresult, ← hafter]
    exact ⟨hbefore.get_pruneBelowNonce sender nextNonce, congrArg _ (hbefore.pruneBelowNonce_count sender nextNonce)⟩

end

section
open scoped Concrete

/-- A pool for two transactions. -/
def smallConfig : MempoolConfig := ⟨2, 2, 1, 16⟩

def pooled (sender : UInt8) (nonce : Nonce) (gasPrice : U128) : Transaction :=
  ⟨.transfer, nonce, Vector.replicate addressSize sender, some Address.zero, 1, gasPrice, 21000, [], 1,
    TransactionSignature.empty⟩

/-- A replacement by fee, an eviction and a pruning. -/
def crowdedOps : List PoolOp :=
  [.add (pooled 1 0 5), .add (pooled 1 0 6), .add (pooled 2 0 7), .admitTx (pooled 1 1 8),
    .pruneBelowNonce (Vector.replicate addressSize 1) 2]

theorem pool_invariant_crowded :
    (final step ⟨smallConfig, ∅, ∅⟩ (crowdedOps.take 4)).txs.size = 2 ∧
    (final step ⟨smallConfig, ∅, ∅⟩ crowdedOps).txs.size = 1 ∧
    (final step ⟨smallConfig, ∅, ∅⟩ crowdedOps).txs.size ≤ smallConfig.maxPending :=
  ⟨by decide +kernel, by decide +kernel, (pool_invariant smallConfig ⟨smallConfig, ∅, ∅⟩ rfl crowdedOps).1.2.2.2.2.1⟩

end
end Subhost.Mempool
