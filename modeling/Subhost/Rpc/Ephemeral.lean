import Subhost.Rpc.Runs
/-!
# Ephemeral and durable nodes (subhost-storage/src/lib.rs:63-92, 163-193)

An ephemeral store is documented to validate exactly like a durable one and to discard the write. In
`persist` it returns after the chain ids are compared (lib.rs:171), and the size of the encoded ledger is
compared with `MAX_LEDGER_BYTES` after that. An ephemeral node therefore goes on where a durable one fails.

A call makes at most one write, and what it does around it does not depend on the store
(`nodeStep_shape`). Two nodes over the two kinds of store so run in lockstep until the first ledger above
the limit, and part there (`ephemeral_agrees_iff`).
-/
namespace Subhost
open Uint Bincode Run

/-- The calls of a node that meets no I/O error. -/
inductive NodeOp where
  | seed (allocations : List (Address × Amount))
  | submit (tx : Transaction) (now : Timestamp)

/-- What the calls return, in full. -/
inductive NodeReply where
  | seeded (r : Except RpcError Unit)
  | submitted (r : Except RpcError Hash)
deriving DecidableEq

def NodeReply.isOk : NodeReply → Bool
  | .seeded r => r.isOk
  | .submitted r => r.isOk

def NodeOp.toRpcOp : NodeOp → RpcOp
  | .seed allocations => .seed allocations none
  | .submit tx now => .submit tx now none

namespace RpcState
section
variable [Blake3]

def nodeStep (w : RpcState × Disk) : NodeOp → NodeReply × RpcState × Disk
  | .seed allocations =>
    let (r, w') := w.1.seedAccounts w.2 allocations none
    (.seeded r, w')
  | .submit tx now =>
    let (r, w') := w.1.submitTransaction w.2 tx now none
    (.submitted r, w')

theorem nodeStep_snd (w : RpcState × Disk) (op : NodeOp) : (nodeStep w op).2 = (step w op.toRpcOp).2 := by
  cases op with
  | seed allocations => rfl
  | submit tx now => rfl

/-- The calls return the same and leave the same state, blocks, receipts and height. -/
structure Agree (c c' : Call (RpcState × Disk) NodeOp NodeReply) : Prop where
  result : c.result = c'.result
  state : c.after.1.state = c'.after.1.state
  blocks : c.after.1.blocks = c'.after.1.blocks
  receipts : c.after.1.receipts = c'.after.1.receipts
  height : c.after.1.blockHeight = c'.after.1.blockHeight

/-- The ledger a call tries to write, if it gets as far as writing. -/
def writeTarget (s : RpcState) : NodeOp → Option Ledger
  | .seed allocations => some (s.ledger.seed allocations)
  | .submit tx now => s.submitTarget tx now

/-- What the call tries to write is within the limit of a durable store. -/
def TargetWithinLimit (s : RpcState) (op : NodeOp) : Prop :=
  ∀ l ∈ s.writeTarget op, (encodeLedger (l.snapshot s.chainId)).length ≤ maxLedgerBytes

/-! ## One call over any store -/

/-- The node over another store. -/
def onStore (s : RpcState) (store : LedgerStore) : RpcState := { s with store := store }

/-- A call whatever the store: it is refused before it writes, or it writes one ledger, and continues with
that ledger if the write succeeded and with the old one if not. -/
inductive Shape (s : RpcState) (op : NodeOp) : Prop where
  | refused (reply : NodeReply) (s' : RpcState) (target : s.writeTarget op = none)
      (run : ∀ store d, nodeStep (s.onStore store, d) op = (reply, s'.onStore store, d))
  | writes (reply : NodeReply) (failure : RpcError → NodeReply) (s' back : RpcState) (succeeds : reply.isOk = true)
      (fails : ∀ e, (failure e).isOk = false) (target : s.writeTarget op = some s'.ledger)
      (next : Ledger.Next s.chainId s.ledger s'.ledger)
      (run : ∀ store d, nodeStep (s.onStore store, d) op =
        match (s.onStore store).persist s'.state s'.blocks s'.receipts none d with
        | (.error e, d') => (failure e, back.onStore store, d')
        | (.ok (), d') => (reply, s'.onStore store, d'))

theorem nodeStep_shape {s : RpcState} (hpool : PoolReady s.mempool) (op : NodeOp) : Shape s op := by
  cases op with
  | seed allocations =>
    refine .writes (.seeded (.ok ())) (fun e => .seeded (.error e))
      { s with state := setBalances s.state allocations } s rfl (fun _ => rfl) rfl (.seeded allocations)
      fun store d => ?_
    rcases hp : (s.onStore store).persist (setBalances s.state allocations) s.blocks s.receipts none d with ⟨e | u, d'⟩
    all_goals
      unfold onStore at hp
      simp [nodeStep, seedAccounts, onStore, hp]
  | submit tx now =>
    have hready := hpool.admitTx tx
    rcases hadmitted : s.mempool.admitTx tx with ⟨e | admission, p⟩
    · refine .refused (.submitted (.error (.transactionRejected e.display))) (s.withPool p)
        (by simp [writeTarget, submitTarget, hadmitted]) fun store d => ?_
      simp [nodeStep, submitTransaction, onStore, hadmitted, withPool]
    rw [hadmitted] at hready
    by_cases hacc : admission.accepted = false
    · refine .refused (.submitted (.error (.transactionRejected
        "a transaction with this sender and nonce already has an equal or higher gas price"))) (s.withPool p)
        (by simp [writeTarget, submitTarget, hadmitted, hacc]) fun store d => ?_
      simp [nodeStep, submitTransaction, onStore, hadmitted, hacc, withPool]
    -- the transaction is in the pool; what is left is `seal_next_block`, and the rollback if it fails
    cases hprep : (s.withPool p).prepareBlock admission.hash now with
    | error e =>
      refine .refused (.submitted (.error e)) (s.withPool (restorePool p admission.hash
        ((s.mempool.getBySenderNonce tx.fromAddr tx.nonce).map Prod.snd) admission.displaced))
        (by simp [writeTarget, submitTarget, hadmitted, hacc, hprep]) fun store d => ?_
      have hprep' : prepareBlock { s.onStore store with mempool := p } admission.hash now = .error e := hprep
      unfold onStore at hprep'
      simp [nodeStep, submitTransaction, sealNextBlock, hadmitted, hacc, hprep', onStore, withPool]
    | ok c =>
      have htarget : s.writeTarget (.submit tx now) = some ((s.withPool p).commitBlock admission.hash c).ledger := by
        simp only [writeTarget, submitTarget, hadmitted, hacc, hprep]
        rfl
      refine .writes (.submitted (.ok c.receipt.txHash)) (fun e => .submitted (.error e))
        ((s.withPool p).commitBlock admission.hash c) (s.withPool (restorePool p admission.hash
        ((s.mempool.getBySenderNonce tx.fromAddr tx.nonce).map Prod.snd) admission.displaced)) rfl (fun _ => rfl)
        htarget (.sealed (prepareBlock_ok (s := s.withPool p) hready hprep)) fun store d => ?_
      have hprep' : prepareBlock { s.onStore store with mempool := p } admission.hash now = .ok c := hprep
      rcases hp : persist { s.onStore store with mempool := p } c.state (s.blocks ++ [c.block])
        (s.receipts.insert admission.hash c.receipt) none d with ⟨e | u, d'⟩
      all_goals
        have hp' : (s.onStore store).persist c.state (s.blocks ++ [c.block])
          (s.receipts.insert admission.hash c.receipt) none d = _ := hp
        unfold onStore at hp hp' hprep'
        simp [nodeStep, submitTransaction, sealNextBlock, onStore, hadmitted, hacc, hprep', hp, hp', commitBlock,
          withPool]

/-- Without I/O errors a node's own ledger is refused by a durable store above the limit, and by nothing else. -/
theorem persist_result {s : RpcState} {l : Ledger} (hchain : s.chainId = s.store.chainId)
    (hstate : l.state.chainId = s.store.chainId) (d : Disk) :
    ∃ d', s.persist l.state l.blocks l.receipts none d =
      (if s.store.path.isSome ∧ maxLedgerBytes < (encodeLedger (l.snapshot s.chainId)).length then
        .error (.persistence
          (StorageError.tooLarge (encodeLedger (l.snapshot s.chainId)).length maxLedgerBytes).display)
      else .ok (), d') := by
  refine ⟨(s.store.persist (l.snapshot s.chainId) none d).2, ?_⟩
  rw [persist_eq, s.store.persist_of_chain (l.snapshot s.chainId) hchain hstate d]
  split_ifs <;> rfl

/-! ## Two nodes -/

section TwoStores
variable (ephemeral durable : LedgerStore)

/-- A node over the ephemeral store and its twin over the durable one. -/
structure Paired (w w' : RpcState × Disk) : Prop where
  sane : Sane ephemeral w
  twin : w'.1 = w.1.onStore durable

variable {ephemeral durable} {w w' : RpcState × Disk}

theorem Paired.next (h : Paired ephemeral durable w w') (op : NodeOp)
    (htwin : (nodeStep w' op).2.1 = (nodeStep w op).2.1.onStore durable) :
    Paired ephemeral durable (nodeStep w op).2 (nodeStep w' op).2 := by
  refine ⟨?_, htwin⟩
  rw [nodeStep_snd]
  exact h.sane.step op.toRpcOp

/-- One call of the two nodes: they stay paired and return the same, unless what the call tries to write is
above the limit; then the ephemeral node succeeds and the durable one fails. -/
theorem Paired.step (h : Paired ephemeral durable w w') (hnone : ephemeral.path = none) (hsome : durable.path.isSome)
    (hchain : durable.chainId = ephemeral.chainId) (op : NodeOp) :
    (w.1.TargetWithinLimit op →
      Paired ephemeral durable (nodeStep w op).2 (nodeStep w' op).2 ∧ (nodeStep w op).1 = (nodeStep w' op).1) ∧
    (¬ w.1.TargetWithinLimit op → (nodeStep w op).1 ≠ (nodeStep w' op).1) := by
  have hnext := h.next op
  obtain ⟨s, d⟩ := w
  obtain ⟨s', d'⟩ := w'
  obtain rfl : s' = s.onStore durable := h.twin
  have hself : s = s.onStore ephemeral := by rw [← h.sane.store_eq]; rfl
  unfold TargetWithinLimit
  cases nodeStep_shape h.sane.pool op with
  | refused reply t target run =>
    have hleft := run ephemeral d
    rw [← hself] at hleft
    rw [hleft, run durable d'] at hnext ⊢
    exact ⟨fun _ => ⟨hnext rfl, rfl⟩, fun hbad => absurd (by simp [target]) hbad⟩
  | writes reply failure t back succeeds fails target next run =>
    have hs : s.chainId = ephemeral.chainId := h.sane.chain
    have ht : t.ledger.state.chainId = ephemeral.chainId := by
      rw [hs] at next
      exact (h.sane.wf.next next).chain
    -- the ephemeral store accepts the ledger whatever its size
    obtain ⟨e₁, hephemeral⟩ := persist_result (s := s.onStore ephemeral) (l := t.ledger) hs ht d
    rw [if_neg (by simp [onStore, hnone])] at hephemeral
    have hleft := run ephemeral d
    rw [show (s.onStore ephemeral).persist t.state t.blocks t.receipts none d = _ from hephemeral, ← hself] at hleft
    obtain ⟨d₁, hdurable⟩ := persist_result (s := s.onStore durable) (l := t.ledger) (hs.trans hchain.symm)
      (ht.trans hchain.symm) d'
    have hright := run durable d'
    rw [show (s.onStore durable).persist t.state t.blocks t.receipts none d' = _ from hdurable] at hright
    simp only [target, Option.mem_some_iff, forall_eq']
    by_cases hbig : maxLedgerBytes < (encodeLedger (t.ledger.snapshot s.chainId)).length
    · rw [if_pos ⟨hsome, hbig⟩] at hright
      rw [hleft, hright]
      refine ⟨fun hsmall => absurd hbig (Nat.not_lt.mpr hsmall), fun _ heq => ?_⟩
      have hsame := congrArg NodeReply.isOk heq
      dsimp only at hsame
      rw [succeeds, fails] at hsame
      cases hsame
    · rw [if_neg (fun hand => hbig hand.2)] at hright
      rw [hleft, hright] at hnext ⊢
      exact ⟨fun _ => ⟨hnext rfl, rfl⟩, fun hlarge => absurd (Nat.not_lt.mp hbig) hlarge⟩

/-- **An ephemeral node behaves like a durable one up to the size limit.** For every sequence of calls, an
ephemeral node and a node over a fresh durable store with the same chain id, fed the same calls and clock
readings, return the same results and hold the same state, blocks, receipts and height after each call if
and only if no call of the ephemeral node sets out to write a ledger that encodes to more than 64 MiB. -/
theorem ephemeral_agrees_iff (chainId : ChainId) (dataDir : String) (ephemeral durable : LedgerStore)
    (hephemeral : LedgerStore.ephemeral chainId = .ok ephemeral)
    (hdurable : LedgerStore.openAt chainId dataDir none = .ok durable) (s s' : RpcState)
    (hs : withStore ephemeral emptyDisk none = .ok s) (hs' : withStore durable emptyDisk none = .ok s')
    (ops : List NodeOp) :
    List.Forall₂ Agree (trace nodeStep (s, emptyDisk) ops) (trace nodeStep (s', emptyDisk) ops) ↔
      ∀ c ∈ trace nodeStep (s, emptyDisk) ops, c.before.1.TargetWithinLimit c.input := by
  obtain ⟨hnone, hid⟩ : ephemeral.path = none ∧ ephemeral.chainId = chainId := by
    unfold LedgerStore.ephemeral at hephemeral
    split at hephemeral <;> cases hephemeral
    exact ⟨rfl, rfl⟩
  obtain ⟨hsome, hid'⟩ : durable.path.isSome ∧ durable.chainId = chainId := by
    unfold LedgerStore.openAt at hdurable
    split at hdurable <;> cases hdurable
    exact ⟨rfl, rfl⟩
  have hchain : durable.chainId = ephemeral.chainId := hid'.trans hid.symm
  rw [withStore_empty ephemeral rfl] at hs
  rw [withStore_empty durable rfl] at hs'
  cases hs
  cases hs'
  have hstart : Paired ephemeral durable (fresh ephemeral, emptyDisk) (fresh durable, emptyDisk) :=
    ⟨sane_fresh ephemeral, by simp [fresh, onStore, hchain]⟩
  refine forall₂_trace_iff nodeStep nodeStep (Paired ephemeral durable)
    (fun c => c.before.1.TargetWithinLimit c.input) Agree ?_ ?_ hstart ops
  · intro w w' op hpair hgood
    obtain ⟨hnext, hresult⟩ := (hpair.step hnone hsome hchain op).1 hgood
    have htwin := hnext.twin
    refine ⟨hnext, hresult, ?_, ?_, ?_, ?_⟩
    all_goals
      dsimp only
      rw [htwin]
      rfl
  · intro w w' op hpair hbad hagree
    exact (hpair.step hnone hsome hchain op).2 hbad hagree.result

end TwoStores

/-! ## A ledger above the limit -/

omit [Blake3] in
/-- Every account that was there or is allocated is there afterwards. -/
theorem account_setBalances (s : State) (allocations : List (Address × Amount)) {a : Address}
    (h : (s.account a).isSome ∨ a ∈ allocations.map Prod.fst) : ((setBalances s allocations).account a).isSome := by
  induction allocations generalizing s with
  | nil => simpa [setBalances] using h
  | cons p rest ih =>
    refine ih (s.setBalance p.1 p.2) ?_
    by_cases e : p.1 = a
    · left
      rw [← e, State.account_setBalance_self]
      rfl
    · rw [State.account_setBalance_ne s p.2 e]
      simpa [Ne.symm e] using h

/-- Every account takes 44 bytes. -/
theorem le_length_encodeLedger (snapshot : LedgerSnapshot) :
    44 * snapshot.state.accounts.length ≤ (encodeLedger snapshot).length := by
  have hentries : (snapshot.state.accounts.flatMap (Codec.pair Address.codec Account.codec).encode).length =
      44 * snapshot.state.accounts.length := by
    induction snapshot.state.accounts with
    | nil => rfl
    | cons p rest ih =>
      rw [List.flatMap_cons, List.length_append, ih, List.length_cons]
      simp only [Codec.encode_pair, Account.codec, Codec.encode_iso, List.length_append, Address.length_encode,
        Codec.length_encode_u64, Codec.length_encode_u128]
      omega
  simp only [encodeLedger, LedgerEnvelope.length_encode, LedgerSnapshot.codec, StateSnapshot.codec, Codec.encode_iso,
    Codec.encode_pair, List.length_append, Codec.length_encode_list, hentries]
  omega

/-- Seeding many distinct accounts makes a large ledger. -/
theorem le_length_seeded (s : RpcState) {allocations : List (Address × Amount)}
    (hnodup : (allocations.map Prod.fst).Nodup) :
    44 * allocations.length ≤ (encodeLedger ((s.ledger.seed allocations).snapshot s.chainId)).length := by
  refine le_trans (Nat.mul_le_mul_left 44 ?_) (le_length_encodeLedger _)
  have hcard : (allocations.map Prod.fst).toFinset.card ≤ (setBalances s.state allocations).accounts.size := by
    refine Map.card_le_size fun a ha => ?_
    exact Option.isSome_iff_exists.mp (account_setBalances s.state allocations (.inr (List.mem_toFinset.mp ha)))
  rw [List.toFinset_card_of_nodup hnodup, List.length_map] at hcard
  refine le_trans hcard (le_of_eq ?_)
  rw [← Std.ExtTreeMap.length_toList]
  exact (sortByKey_perm _ _).length_eq.symm

theorem nodeStep_seed (s : RpcState) (d : Disk) (allocations : List (Address × Amount)) :
    (nodeStep (s, d) (.seed allocations)).1 = .seeded (s.persist (s.ledger.seed allocations).state
      (s.ledger.seed allocations).blocks (s.ledger.seed allocations).receipts none d).1 := by
  simp only [nodeStep, seedAccounts, Ledger.seed, ledger]
  split <;> simp_all

/-- Seeding that many accounts succeeds on an ephemeral node and fails on a durable one. -/
theorem seed_parts {ephemeral durable : LedgerStore} (hnone : ephemeral.path = none) (hsome : durable.path.isSome)
    {allocations : List (Address × Amount)} (hnodup : (allocations.map Prod.fst).Nodup)
    (hmany : maxLedgerBytes < 44 * allocations.length) :
    (nodeStep (fresh ephemeral, emptyDisk) (.seed allocations)).1 = .seeded (.ok ()) ∧
    ∃ message,
      (nodeStep (fresh durable, emptyDisk) (.seed allocations)).1 = .seeded (.error (.persistence message)) := by
  have hresult := fun store => persist_result (s := fresh store) (l := (fresh store).ledger.seed allocations) rfl
    (chainId_setBalances _ _) emptyDisk
  constructor
  · obtain ⟨d, hp⟩ := hresult ephemeral
    rw [if_neg (by simp [fresh, hnone])] at hp
    rw [nodeStep_seed, hp]
  · obtain ⟨d, hp⟩ := hresult durable
    rw [if_pos ⟨hsome, lt_of_lt_of_le hmany (le_length_seeded _ hnodup)⟩] at hp
    rw [nodeStep_seed, hp]
    exact ⟨_, rfl⟩

end

section
open scoped Concrete

def ephemeralStore : LedgerStore := ⟨none, 1, chainId_one_ne⟩

instance (s : RpcState) (op : NodeOp) : Decidable (s.TargetWithinLimit op) :=
  inferInstanceAs (Decidable (∀ l ∈ s.writeTarget op, (encodeLedger (l.snapshot s.chainId)).length ≤ maxLedgerBytes))

theorem ephemeral_agrees_paying :
    List.Forall₂ Agree (trace nodeStep (fresh ephemeralStore, emptyDisk) [.seed [(alice, 100000)], .submit payment 7])
      (trace nodeStep (fresh durableStore, emptyDisk) [.seed [(alice, 100000)], .submit payment 7]) :=
  (ephemeral_agrees_iff 1 "data" ephemeralStore durableStore rfl rfl _ _ rfl rfl _).mpr
    (by decide +kernel)

/-- Two million accounts. -/
def manyAccounts : List (Address × Amount) := (List.range (2 ^ 21)).map fun i => (addressOf i, 1)

theorem nodup_manyAccounts : (manyAccounts.map Prod.fst).Nodup := by
  rw [manyAccounts, List.map_map]
  refine List.nodup_range.map_on ?_
  intro i hi j hj heq
  rw [List.mem_range] at hi hj
  exact addressOf_inj (by omega) (by omega) heq

/-- One call on which the two nodes part: what the ephemeral node accepts, the durable one refuses. -/
theorem oversized_seed_parts :
    (nodeStep (fresh ephemeralStore, emptyDisk) (.seed manyAccounts)).1 = .seeded (.ok ()) ∧
    ∃ message, (nodeStep (fresh durableStore, emptyDisk) (.seed manyAccounts)).1 =
      .seeded (.error (.persistence message)) :=
  seed_parts rfl rfl nodup_manyAccounts
    (by rw [manyAccounts, List.length_map, List.length_range]; decide)

end
end RpcState
end Subhost
