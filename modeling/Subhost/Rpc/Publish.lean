import Subhost.Rpc.Lookup
/-!
# Publishing a block to readers (subhost-rpc/src/lib.rs:325-338)

`seal_next_block` makes a persisted block visible by five writes, each under a lock of its own: the state,
the mempool, the blocks, the receipts and the height. The commit lock keeps other writers out, but readers
do not take it, so they see every intermediate state. Here the writes are steps of their own (`MemWrite`),
a call that sealed a block leaves them pending, and an event list interleaves calls, single writes and
single reads at will. Completing the writes gives the call as `Rpc/Runs.lean` has it (`beginCommit_spec`).

The order matters twice: a receipt is published after its block, and a height after both. `Coherent` is what
holds at each intermediate point because of it, and `Grows` what never goes back; together they give
`publication_order`.
-/
namespace Subhost
open Uint Bincode Run

namespace RpcState

/-- One of the in-memory writes of a commit. -/
inductive MemWrite where
  | state (candidate : State)
  | mempool (txHash : Hash)
  | blocks (next : List Block)
  | receipts (next : Map Hash Receipt)
  | height (height : U64)

/-- What a reader asks for in one read. -/
inductive Query where
  | blockHeight
  | blockAtHeight (height : U64)
  | receipt (txHash : Hash)

inductive Answer where
  | height (height : U64)
  | block (block : Option Block)
  | receipt (receipt : Option Receipt)

/-- What may happen next: a call takes the commit lock, the call that holds it makes its next write, or a
reader makes one read. -/
inductive Event where
  | seed (op : SeedOp)
  | commit (op : CommitOp)
  | write
  | read (reader : Nat) (query : Query)

/-- The node between two events: the writes that the holder of the commit lock has still to make. -/
structure Node where
  memory : RpcState
  disk : Disk
  pending : List MemWrite

section
variable [Blake3]

def MemWrite.run (s : RpcState) : MemWrite → RpcState
  | .state candidate => { s with state := candidate }
  | .mempool txHash => { s with mempool := (s.mempool.remove txHash).2 }
  | .blocks next => { s with blocks := next }
  | .receipts next => { s with receipts := next }
  | .height h => { s with blockHeight := h }

omit [Blake3] in
/-- The five writes of a successful `seal_next_block`, in its order (lib.rs:333-337). -/
def publication (s : RpcState) (txHash : Hash) (c : Sealed) : List MemWrite :=
  [.state c.state, .mempool txHash, .blocks (s.blocks ++ [c.block]), .receipts (s.receipts.insert txHash c.receipt),
    .height c.block.header.height]

/-- `seal_next_block` up to the first of these writes. -/
def sealUpToSwap (s : RpcState) (d : Disk) (txHash : Hash) (now : Timestamp) (fault : Option Fault) :
    Except RpcError (List MemWrite) × Disk :=
  match s.prepareBlock txHash now with
  | .error e => (.error e, d)
  | .ok c =>
    match s.persist c.state (s.blocks ++ [c.block]) (s.receipts.insert txHash c.receipt) fault d with
    | (.error e, d) => (.error e, d)
    | (.ok (), d) => (.ok (s.publication txHash c), d)

/-- A call up to the first of these writes; `submit_transaction` rolls the pool back when it fails. -/
def beginCommit (s : RpcState) (d : Disk) : CommitOp → Node
  | .includeTx txHash now fault =>
    match s.sealUpToSwap d txHash now fault with
    | (.error _, d) => ⟨s, d, []⟩
    | (.ok writes, d) => ⟨s, d, writes⟩
  | .submit tx now fault =>
    let previous := (s.mempool.getBySenderNonce tx.fromAddr tx.nonce).map Prod.snd
    match s.mempool.admitTx tx with
    | (.error _, p) => ⟨s.withPool p, d, []⟩
    | (.ok admission, p) =>
      if admission.accepted = false then ⟨s.withPool p, d, []⟩
      else
        match (s.withPool p).sealUpToSwap d admission.hash now fault with
        | (.error _, d) => ⟨s.withPool (restorePool p admission.hash previous admission.displaced), d, []⟩
        | (.ok writes, d) => ⟨s.withPool p, d, writes⟩

omit [Blake3] in
def Query.answer (s : RpcState) : Query → Answer
  | .blockHeight => .height s.blockHeight
  | .blockAtHeight height => .block (s.blockAtHeight height)
  | .receipt txHash => .receipt (s.receipt txHash)

/-- One event. While writes are pending the commit lock is held, and a call waits. -/
def Node.step (n : Node) : Event → Option Answer × Node
  | .seed op =>
    if n.pending.isEmpty then
      let (_, s, d) := n.memory.seedAccounts n.disk op.allocations op.fault
      (none, ⟨s, d, []⟩)
    else (none, n)
  | .commit op => if n.pending.isEmpty then (none, beginCommit n.memory n.disk op) else (none, n)
  | .write =>
    match n.pending with
    | [] => (none, n)
    | w :: rest => (none, ⟨w.run n.memory, n.disk, rest⟩)
  | .read _ query => (some (query.answer n.memory), n)

/-! ## The writes together are the swap -/

/-- The node after the pending writes. -/
def Node.complete (n : Node) : RpcState × Disk := (n.pending.foldl MemWrite.run n.memory, n.disk)

omit [Blake3] in
theorem run_publication (s : RpcState) (txHash : Hash) (c : Sealed) :
    (s.publication txHash c).foldl MemWrite.run s = s.commitBlock txHash c := rfl

/-- `seal_next_block` and its part before the swap fail together, or the rest is the five writes. -/
theorem sealUpToSwap_cases (s : RpcState) (d : Disk) (txHash : Hash) (now : Timestamp) (fault : Option Fault) :
    (∃ e d', s.sealUpToSwap d txHash now fault = (.error e, d') ∧
      s.sealNextBlock d txHash now fault = (.error e, s, d')) ∨
    (∃ c d', s.sealUpToSwap d txHash now fault = (.ok (s.publication txHash c), d') ∧
      s.sealNextBlock d txHash now fault = (.ok c.receipt, s.commitBlock txHash c, d')) := by
  unfold sealUpToSwap sealNextBlock
  cases s.prepareBlock txHash now with
  | error e => exact .inl ⟨e, d, rfl, rfl⟩
  | ok c =>
    dsimp only
    rcases s.persist c.state (s.blocks ++ [c.block]) (s.receipts.insert txHash c.receipt) fault d with ⟨e | u, d'⟩
    · exact .inl ⟨e, d', rfl, rfl⟩
    · exact .inr ⟨c, d', rfl, rfl⟩

/-- What a call has done when it stops before the swap: only the pool of the memory is touched, and
completing the writes gives the whole call. -/
theorem beginCommit_spec {s : RpcState} (hpool : PoolReady s.mempool) (d : Disk) (op : CommitOp) :
    (beginCommit s d op).complete = (step (s, d) op.toOp).2 ∧
    ∃ p d', PoolReady p ∧ (beginCommit s d op = ⟨s.withPool p, d', []⟩ ∨
      ∃ txHash c, beginCommit s d op = ⟨s.withPool p, d', (s.withPool p).publication txHash c⟩) := by
  cases op with
  | includeTx txHash now fault =>
    rcases sealUpToSwap_cases s d txHash now fault with ⟨e, d', hswap, hseal⟩ | ⟨c, d', hswap, hseal⟩
    · have hbegin : beginCommit s d (.includeTx txHash now fault) = ⟨s, d', []⟩ := by simp [beginCommit, hswap]
      refine ⟨?_, s.mempool, d', hpool, .inl hbegin⟩
      simp [hbegin, Node.complete, step, CommitOp.toOp, includeTransaction, hseal]
    · have hbegin : beginCommit s d (.includeTx txHash now fault) = ⟨s, d', s.publication txHash c⟩ := by
        simp [beginCommit, hswap]
      refine ⟨?_, s.mempool, d', hpool, .inr ⟨txHash, c, hbegin⟩⟩
      simp [hbegin, Node.complete, step, CommitOp.toOp, includeTransaction, hseal, run_publication]
  | submit tx now fault =>
    have hready := hpool.admitTx tx
    rcases hadmitted : s.mempool.admitTx tx with ⟨e | admission, p⟩
    · rw [hadmitted] at hready
      have hbegin : beginCommit s d (.submit tx now fault) = ⟨s.withPool p, d, []⟩ := by simp [beginCommit, hadmitted]
      refine ⟨?_, p, d, hready, .inl hbegin⟩
      simp [hbegin, Node.complete, step, CommitOp.toOp, submitTransaction, hadmitted, withPool]
    rw [hadmitted] at hready
    by_cases hacc : admission.accepted = false
    · have hbegin : beginCommit s d (.submit tx now fault) = ⟨s.withPool p, d, []⟩ := by
        simp [beginCommit, hadmitted, hacc]
      refine ⟨?_, p, d, hready, .inl hbegin⟩
      simp [hbegin, Node.complete, step, CommitOp.toOp, submitTransaction, hadmitted, hacc, withPool]
    rcases sealUpToSwap_cases (s.withPool p) d admission.hash now fault with
      ⟨e, d', hswap, hseal⟩ | ⟨c, d', hswap, hseal⟩
    · have hbegin : beginCommit s d (.submit tx now fault) = ⟨s.withPool (restorePool p admission.hash
          ((s.mempool.getBySenderNonce tx.fromAddr tx.nonce).map Prod.snd) admission.displaced), d', []⟩ := by
        simp [beginCommit, hadmitted, hacc, hswap]
      refine ⟨?_, _, d', hready.restorePool _ _ _, .inl hbegin⟩
      unfold withPool at hseal
      simp [hbegin, Node.complete, step, CommitOp.toOp, submitTransaction, hadmitted, hacc, hseal, withPool]
    · have hbegin : beginCommit s d (.submit tx now fault) =
          ⟨s.withPool p, d', (s.withPool p).publication admission.hash c⟩ := by
        simp [beginCommit, hadmitted, hacc, hswap]
      refine ⟨?_, p, d', hready, .inr ⟨admission.hash, c, hbegin⟩⟩
      rw [hbegin, Node.complete, run_publication]
      unfold withPool at hseal ⊢
      simp [step, CommitOp.toOp, submitTransaction, hadmitted, hacc, hseal]

/-! ## What readers can rely on -/

/-- At every point: the height is backed by blocks, and a receipt by the block it names. -/
structure Coherent (s : RpcState) : Prop where
  height_le : s.blockHeight.toNat ≤ s.blocks.length
  receipt_block : ∀ txHash r, s.receipt txHash = some r →
    ∃ block, s.blockAtHeight r.blockHeight = some block ∧ block.Contains txHash

/-- From an earlier point to a later one: blocks and receipts stay. -/
structure Grows (s s' : RpcState) : Prop where
  blocks : s.blocks <+: s'.blocks
  receipts : ∀ txHash r, s.receipt txHash = some r → s'.receipt txHash = some r

omit [Blake3] in
theorem Grows.of_eq {s s' : RpcState} (hblocks : s'.blocks = s.blocks) (hreceipts : s'.receipts = s.receipts) :
    Grows s s' :=
  ⟨by rw [hblocks], fun txHash r h => by rwa [receipt, hreceipts]⟩

omit [Blake3] in
theorem Grows.trans {s t u : RpcState} (h : Grows s t) (h' : Grows t u) : Grows s u :=
  ⟨h.blocks.trans h'.blocks, fun txHash r hr => h'.receipts txHash r (h.receipts txHash r hr)⟩

omit [Blake3] in
theorem Grows.blockAtHeight {s s' : RpcState} (h : Grows s s') {n : U64} {block : Block}
    (hb : s.blockAtHeight n = some block) : s'.blockAtHeight n = some block := by
  obtain ⟨hpos, hget⟩ := blockAtHeight_eq_some.mp hb
  obtain ⟨more, hmore⟩ := h.blocks
  refine blockAtHeight_eq_some.mpr ⟨hpos, ?_⟩
  rw [← hmore, List.getElem?_append_left (List.getElem?_eq_some_iff.mp hget).1]
  exact hget

theorem coherent_of_sane {store : LedgerStore} {s : RpcState} {d : Disk} (h : Sane store (s, d)) : Coherent s := by
  have hlinked : Linked store.chainId 0 Hash.zero s.blocks := h.wf.linked
  refine ⟨le_of_eq ?_, fun txHash r hr => ?_⟩
  · rw [show s.blockHeight = lastHeight s.blocks from h.height, lastHeight_toNat hlinked]
  · obtain ⟨block, hb, hcontains, rfl⟩ := block_of_receipt h.wf hr
    exact ⟨block, blockAtHeight_of_mem hlinked hb, hcontains⟩

/-! ## The stages of a commit -/

/-- The node holds a sane ledger, or is `k` writes into the swap from one sane ledger to the next. -/
inductive Stage (store : LedgerStore) : Node → Prop where
  | idle {s : RpcState} {d : Disk} (sane : Sane store (s, d)) : Stage store ⟨s, d, []⟩
  | swap {base : RpcState} {d : Disk} {txHash : Hash} {c : Sealed} (k : Nat) (hk : k < 5)
      (before : Sane store (base, d)) (after : Sane store (base.commitBlock txHash c, d)) :
      Stage store ⟨((base.publication txHash c).take k).foldl MemWrite.run base, d, (base.publication txHash c).drop k⟩

theorem Stage.coherent {store : LedgerStore} {n : Node} (h : Stage store n) : Coherent n.memory := by
  cases h with
  | idle sane => exact coherent_of_sane sane
  | @swap base d txHash c k hk before after =>
    have hbefore := coherent_of_sane before
    have hafter := coherent_of_sane after
    have hlong : base.blockHeight.toNat ≤ (base.blocks ++ [c.block]).length := by
      rw [List.length_append]
      exact Nat.le_add_right_of_le hbefore.height_le
    rcases k with _ | _ | _ | _ | _ | k
    · exact ⟨hbefore.height_le, hbefore.receipt_block⟩
    · exact ⟨hbefore.height_le, hbefore.receipt_block⟩
    · exact ⟨hbefore.height_le, hbefore.receipt_block⟩
    · -- the block is there, its receipt is not
      have hgrows : Grows base (((base.publication txHash c).take 3).foldl MemWrite.run base) :=
        ⟨List.prefix_append _ _, fun _ _ hr => hr⟩
      refine ⟨hlong, fun t r hr => ?_⟩
      obtain ⟨block, hb, hcontains⟩ := hbefore.receipt_block t r hr
      exact ⟨block, hgrows.blockAtHeight hb, hcontains⟩
    · -- block and receipt are there, the height is the old one
      exact ⟨hlong, hafter.receipt_block⟩
    · omega

/-- Committing a block changes no receipt. -/
theorem receipt_commitBlock {store : LedgerStore} {base : RpcState} {d : Disk} {txHash : Hash} {c : Sealed}
    (before : Sane store (base, d)) (after : Sane store (base.commitBlock txHash c, d))
    (hcf : CollisionFree (hashedBytes (base.blocks ++ [c.block]))) {t : Hash} {r : Receipt}
    (hr : base.receipt t = some r) : (base.commitBlock txHash c).receipt t = some r := by
  obtain ⟨block, hb, hcontains, rfl⟩ := block_of_receipt before.wf hr
  exact (receipt_of_wf after.wf hcf).mpr ⟨block, List.mem_append_left _ hb, hcontains, rfl⟩

/-- A write leads to the next stage and takes nothing away. -/
theorem Stage.write {store : LedgerStore} {n : Node} (h : Stage store n)
    (hcf : CollisionFree (hashedBytes (n.step .write).2.memory.blocks)) :
    Stage store (n.step .write).2 ∧ Grows n.memory (n.step .write).2.memory := by
  cases h with
  | idle sane => exact ⟨.idle sane, .of_eq rfl rfl⟩
  | @swap base d txHash c k hk before after =>
    rcases k with _ | _ | _ | _ | _ | k
    · exact ⟨.swap 1 (by omega) before after, .of_eq rfl rfl⟩
    · exact ⟨.swap 2 (by omega) before after, .of_eq rfl rfl⟩
    · exact ⟨.swap 3 (by omega) before after, List.prefix_append _ _, fun _ _ hr => hr⟩
    · exact ⟨.swap 4 (by omega) before after, List.prefix_rfl, fun _ _ hr => receipt_commitBlock before after hcf hr⟩
    · exact ⟨.idle after, .of_eq rfl rfl⟩
    · omega

/-- The commit lock is free only between two swaps. -/
theorem Stage.sane {store : LedgerStore} {n : Node} (h : Stage store n) (hidle : n.pending.isEmpty) :
    Sane store (n.memory, n.disk) := by
  cases h with
  | idle sane => exact sane
  | @swap base d txHash c k hk before after =>
    rcases k with _ | _ | _ | _ | _ | k
    all_goals first | cases hidle | omega

/-- A call that takes the lock leads to the first stage. -/
theorem Stage.commit {store : LedgerStore} {s : RpcState} {d : Disk} (h : Sane store (s, d)) (op : CommitOp) :
    Stage store (beginCommit s d op) ∧ Grows s (beginCommit s d op).memory := by
  obtain ⟨hcomplete, p, d', hp, hbegin | ⟨txHash, c, hbegin⟩⟩ := beginCommit_spec h.pool d op
  all_goals
    have hsane := h.step op.toOp
    rw [← hcomplete, hbegin] at hsane
    rw [hbegin]
  · exact ⟨.idle hsane, .of_eq rfl rfl⟩
  · have hbefore : Sane store (s.withPool p, d') := ⟨h.store_eq, h.chain, hp, h.height, h.wf, hsane.stored⟩
    exact ⟨.swap 0 (by omega) hbefore hsane, .of_eq rfl rfl⟩

theorem Stage.seed {store : LedgerStore} {s : RpcState} {d : Disk} (h : Sane store (s, d)) (op : SeedOp) :
    Stage store ⟨(s.seedAccounts d op.allocations op.fault).2.1, (s.seedAccounts d op.allocations op.fault).2.2, []⟩ ∧
    Grows s (s.seedAccounts d op.allocations op.fault).2.1 := by
  have hsane : Sane store (step (s, d) op.toOp).2 := h.step op.toOp
  refine ⟨.idle hsane, ?_⟩
  have heffect := seedAccounts_effect s d op.allocations op.fault h.pool h.height
  rcases heffect.ledger_cases with hsame | ⟨-, hseeded⟩
  · exact .of_eq (congrArg Ledger.blocks hsame) (congrArg Ledger.receipts hsame)
  · exact .of_eq (congrArg Ledger.blocks hseeded) (congrArg Ledger.receipts hseeded)

/-- **Every event** keeps the node in a stage and takes nothing away. -/
theorem Stage.step {store : LedgerStore} {n : Node} (h : Stage store n) (e : Event)
    (hcf : CollisionFree (hashedBytes (n.step e).2.memory.blocks)) :
    Stage store (n.step e).2 ∧ Grows n.memory (n.step e).2.memory := by
  have hwait : Stage store n ∧ Grows n.memory n.memory := ⟨h, .of_eq rfl rfl⟩
  cases e with
  | read reader query => exact hwait
  | write => exact h.write hcf
  | seed op =>
    by_cases hidle : n.pending.isEmpty
    · simp only [Node.step, if_pos hidle]
      exact Stage.seed (h.sane hidle) op
    · simp only [Node.step, if_neg hidle]
      exact hwait
  | commit op =>
    by_cases hidle : n.pending.isEmpty
    · simp only [Node.step, if_pos hidle]
      exact Stage.commit (h.sane hidle) op
    · simp only [Node.step, if_neg hidle]
      exact hwait

/-- What an earlier read promises for a later one. -/
structure ReadsFit (query : Query) (answer : Answer) (query' : Query) (answer' : Answer) : Prop where
  height : ∀ h k, query = .blockHeight → answer = .height h → query' = .blockAtHeight k → 1 ≤ k.toNat →
    k.toNat ≤ h.toNat → ∃ block, answer' = .block (some block)
  receipt : ∀ txHash r, query = .receipt txHash → answer = .receipt (some r) → query' = .blockAtHeight r.blockHeight →
    ∃ block, answer' = .block (some block) ∧ block.Contains txHash ∧ foundTransaction txHash block ≠ .null
  block_stays : ∀ k block, query = .blockAtHeight k → answer = .block (some block) → query' = .blockAtHeight k →
    answer' = .block (some block)
  receipt_stays : ∀ txHash r, query = .receipt txHash → answer = .receipt (some r) → query' = .receipt txHash →
    answer' = .receipt (some r)

/-- Reads at two points of a growing memory fit together. -/
theorem readsFit_of_grows {s s' : RpcState} (hs : Coherent s) (h : Grows s s') (query query' : Query) :
    ReadsFit query (query.answer s) query' (query'.answer s') := by
  refine ⟨?_, ?_, ?_, ?_⟩
  · rintro _ k rfl ⟨⟩ rfl hpos hle
    obtain ⟨block, hb⟩ := Option.isSome_iff_exists.mp
      (isSome_blockAtHeight.mpr ⟨hpos, hle.trans hs.height_le⟩ : (s.blockAtHeight k).isSome)
    exact ⟨block, congrArg Answer.block (h.blockAtHeight hb)⟩
  · rintro txHash r rfl hr rfl
    obtain ⟨block, hb, hcontains⟩ := hs.receipt_block txHash r (Answer.receipt.inj hr)
    exact ⟨block, congrArg Answer.block (h.blockAtHeight hb), hcontains, foundTransaction_of_contains hcontains⟩
  · rintro k block rfl hb rfl
    exact congrArg Answer.block (h.blockAtHeight (Answer.block.inj hb))
  · rintro txHash r rfl hr rfl
    exact congrArg Answer.receipt (h.receipts txHash r (Answer.receipt.inj hr))

/-- A node with nothing pending. -/
def Node.quiet (w : RpcState × Disk) : Node := ⟨w.1, w.2, []⟩

/-- **Reader-visible publication order.** Start from any state a node reaches, restarts included, and
interleave calls, single writes of their commits and single reads at will. Of any two reads, whoever makes
them: after a height `h` the blocks 1 to `h` are found; after a receipt its block is found and contains the
transaction, so that `eth_getTransactionByHash` does not answer null; and a block or receipt that was read
is read again unchanged. -/
theorem publication_order (store : LedgerStore) (ops : List RpcOp) (events : List Event)
    (hcf : ∀ c ∈ trace Node.step (.quiet (final step (fresh store, emptyDisk) ops)) events,
      CollisionFree (hashedBytes c.after.memory.blocks)) :
    (trace Node.step (.quiet (final step (fresh store, emptyDisk) ops)) events).Pairwise fun c c' =>
      ∀ reader query answer reader' query' answer', c.input = .read reader query → c.result = some answer →
        c'.input = .read reader' query' → c'.result = some answer' → ReadsFit query answer query' answer' := by
  have hpairs := pairwise_trace Node.step (Stage store) (fun c => CollisionFree (hashedBytes c.after.memory.blocks))
    (fun n n' => Grows n.memory n'.memory) (fun n => .of_eq rfl rfl) (fun h h' => h.trans h')
    (fun n e hn hc => hn.step e hc) (s := .quiet (final step (fresh store, emptyDisk) ops))
    (.idle (sane_run store ops)) events hcf
  refine hpairs.imp_of_mem ?_
  rintro c c' hc hc' ⟨hstage, hgrows⟩ reader query answer reader' query' answer' hinput hresult hinput' hresult'
  have hstep := trace_step Node.step _ events c hc
  have hstep' := trace_step Node.step _ events c' hc'
  rw [hinput, hresult] at hstep
  rw [hinput', hresult'] at hstep'
  obtain rfl : query.answer c.before.memory = answer := Option.some.inj (congrArg Prod.fst hstep)
  obtain rfl : query'.answer c'.before.memory = answer' := Option.some.inj (congrArg Prod.fst hstep')
  exact readsFit_of_grows hstage.coherent hgrows query query'

end

section
open scoped Concrete

/-- A payment is committed while a reader polls. -/
def pollingEvents : List Event :=
  [.seed ⟨[(alice, 100000)], none⟩, .commit (.submit payment 7 none), .write, .read 0 (.receipt payment.hash), .write,
    .write, .write, .read 0 (.receipt payment.hash), .read 0 (.blockAtHeight 1), .read 1 .blockHeight, .write,
    .read 1 .blockHeight, .read 1 (.blockAtHeight 1)]

theorem publication_order_polling :
    (final Node.step (.quiet (fresh durableStore, emptyDisk)) pollingEvents).memory.blockCount = 1 ∧
    (trace Node.step (.quiet (fresh durableStore, emptyDisk)) pollingEvents).Pairwise fun c c' =>
      ∀ reader query answer reader' query' answer', c.input = .read reader query → c.result = some answer →
        c'.input = .read reader' query' → c'.result = some answer' → ReadsFit query answer query' answer' :=
  ⟨by decide +kernel, publication_order durableStore [] pollingEvents (by decide +kernel)⟩

end
end RpcState
end Subhost
