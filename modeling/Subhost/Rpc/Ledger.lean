import Subhost.Rpc.Producer
import Subhost.State.Runs
/-!
# The ledger the producer builds

`Ledger` is what a node keeps in memory and writes to disk: state, blocks and receipts.
`Ledger.Next` is the only way it changes, and `Ledger.Wf` is what every change keeps. It holds
whatever the hash function does; a collision-free one is needed only to read off `ValidChain`
(`Wf.validChain`): receipts are keyed by transaction hash, so two transactions with one hash
would share a receipt, and two blocks with one hash would share a block.

No transaction is in two blocks because the state's nonces forbid it: the blocks hold exactly the
transactions that were applied along some run of state operations (`Wf.history`).
-/
namespace Subhost
open Uint Bincode Run

/-- State, blocks and receipts of a node. -/
structure Ledger where
  state : State
  blocks : List Block
  receipts : Map Hash Receipt

/-- All transactions of a chain, in order. -/
def blockTxs (blocks : List Block) : List Transaction := blocks.flatMap Block.transactions

theorem blockTxs_append (blocks : List Block) (block : Block) :
    blockTxs (blocks ++ [block]) = blockTxs blocks ++ block.transactions := by
  simp [blockTxs]

theorem collectReceipts_append (receipts : List Receipt) (r : Receipt) :
    collectReceipts (receipts ++ [r]) = (collectReceipts receipts).insert r.txHash r := by
  simp [collectReceipts]

/-- The operations behind a list of allocations. -/
theorem final_setBalances (s : State) (allocations : List (Address × Amount)) :
    final State.step s (allocations.map fun p => .setBalance p.1 p.2) = setBalances s allocations ∧
    State.applied s (allocations.map fun p => .setBalance p.1 p.2) = [] := by
  induction allocations generalizing s with
  | nil => exact ⟨rfl, rfl⟩
  | cons p rest ih =>
    obtain ⟨hfinal, happlied⟩ := ih (s.setBalance p.1 p.2)
    exact ⟨hfinal, happlied⟩

theorem chainId_setBalances (s : State) (allocations : List (Address × Amount)) :
    (setBalances s allocations).chainId = s.chainId := by
  induction allocations generalizing s with
  | nil => rfl
  | cons p rest ih => exact ih (s.setBalance p.1 p.2)

theorem State.applied_append (s : State) (ops more : List State.StateOp) :
    State.applied s (ops ++ more) = State.applied s ops ++ State.applied (final State.step s ops) more := by
  rw [State.applied, trace_append, List.filterMap_append]
  rfl

theorem get_collectReceipts {receipts : List Receipt} {h : Hash} (hnot : h ∉ receipts.map Receipt.txHash) :
    (collectReceipts receipts)[h]? = none := by
  induction receipts using List.reverseRecOn with
  | nil => simp [collectReceipts]
  | append_singleton rest r ih =>
    rw [List.map_append, List.mem_append, not_or] at hnot
    have hne : r.txHash ≠ h := fun e => hnot.2 (by simp [e])
    rw [collectReceipts_append, Map.get_insert_ne _ _ hne]
    exact ih hnot.1

/-- With distinct transaction hashes the map holds exactly the receipts it was collected from. -/
theorem collectReceipts_perm {receipts : List Receipt} (h : (receipts.map Receipt.txHash).Nodup) :
    ((collectReceipts receipts).toList.map Prod.snd).Perm receipts := by
  induction receipts using List.reverseRecOn with
  | nil => simp [collectReceipts]
  | append_singleton rest r ih =>
    rw [List.map_append, List.nodup_append] at h
    obtain ⟨hrest, -, hdisj⟩ := h
    have hfree : (collectReceipts rest)[r.txHash]? = none :=
      get_collectReceipts fun hmem => hdisj _ hmem _ (by simp) rfl
    rw [collectReceipts_append]
    have hinsert := (Map.toList_insert_perm r hfree).map Prod.snd
    have hcons := (ih hrest).cons r
    exact hinsert.trans (hcons.trans (List.perm_append_singleton r rest).symm)

/-- Every receipt of the map was collected, and is stored under its transaction hash. -/
theorem mem_of_collectReceipts {receipts : List Receipt} {h : Hash} {r : Receipt}
    (hget : (collectReceipts receipts)[h]? = some r) : r ∈ receipts ∧ r.txHash = h := by
  induction receipts using List.reverseRecOn with
  | nil => simp [collectReceipts] at hget
  | append_singleton rest r' ih =>
    rw [collectReceipts_append] at hget
    by_cases e : r'.txHash = h
    · subst e
      rw [Map.get_insert_self] at hget
      cases hget
      simp
    · rw [Map.get_insert_ne _ _ e] at hget
      exact ⟨List.mem_append_left _ (ih hget).1, (ih hget).2⟩

theorem keyedBy_collectReceipts (receipts : List Receipt) : Map.KeyedBy Receipt.txHash (collectReceipts receipts) :=
  fun _ _ hget => (mem_of_collectReceipts hget).2

theorem get_collectReceipts_of_mem {receipts : List Receipt} (h : (receipts.map Receipt.txHash).Nodup) {r : Receipt}
    (hr : r ∈ receipts) : (collectReceipts receipts)[r.txHash]? = some r := by
  have hmem := ((collectReceipts_perm h).mem_iff).mpr hr
  obtain ⟨⟨k, r'⟩, hk, rfl⟩ := List.mem_map.mp hmem
  have hget := Map.mem_toList.mp hk
  rw [keyedBy_collectReceipts receipts _ _ hget]
  exact hget

/-- A map that keeps its receipts under their transaction hashes lists no hash twice. -/
theorem txHashes_orderedReceipts {m : Map Hash Receipt} (h : Map.KeyedBy Receipt.txHash m) :
    ((orderedReceipts m).map Receipt.txHash).Perm (m.toList.map Prod.fst) := by
  rw [← h.map_values]
  exact (sortByKey_perm _ _).map _

/-- Writing the receipts out in order and collecting them again gives the same map. -/
theorem collectReceipts_orderedReceipts {m : Map Hash Receipt} (h : Map.KeyedBy Receipt.txHash m) :
    collectReceipts (orderedReceipts m) = m := by
  have hperm : (orderedReceipts m).Perm (m.toList.map Prod.snd) := sortByKey_perm _ _
  have hkeys := txHashes_orderedReceipts h
  have hnodup : ((orderedReceipts m).map Receipt.txHash).Nodup := hkeys.nodup_iff.mpr (Map.nodup_keys_toList m)
  apply Map.ext_get
  intro k
  cases hk : m[k]? with
  | some r =>
    have hr : r ∈ orderedReceipts m :=
      hperm.mem_iff.mpr (List.mem_map.mpr ⟨(k, r), Map.mem_toList.mpr hk, rfl⟩)
    rw [← h k r hk]
    exact get_collectReceipts_of_mem hnodup hr
  | none =>
    apply get_collectReceipts
    intro hmem
    rw [hkeys.mem_iff] at hmem
    obtain ⟨⟨k', r⟩, hr, rfl⟩ := List.mem_map.mp hmem
    rw [Map.mem_toList.mp hr] at hk
    cases hk

section
variable [Blake3]

/-- The byte strings hashed for the blocks and transactions of a chain. -/
def hashedBytes (blocks : List Block) : List Bytes :=
  blocks.map (fun b => BlockHeader.codec.encode b.header) ++ (blockTxs blocks).map Transaction.codec.encode

def blockReceipts (block : Block) : List Receipt := block.transactions.map fun tx => newReceipt tx.hash block

/-- The receipt map the blocks give rise to. -/
def receiptsOf (blocks : List Block) : Map Hash Receipt := collectReceipts (blocks.flatMap blockReceipts)

namespace Ledger

def snapshot (chainId : ChainId) (l : Ledger) : LedgerSnapshot :=
  ⟨chainId, l.state.snapshot, l.blocks, orderedReceipts l.receipts⟩

/-- The ledger after one more block. -/
def extend (l : Ledger) (tx : Transaction) (state : State) (block : Block) : Ledger :=
  ⟨state, l.blocks ++ [block], l.receipts.insert tx.hash (newReceipt tx.hash block)⟩

/-- The ledger with balances set. -/
def seed (l : Ledger) (allocations : List (Address × Amount)) : Ledger :=
  ⟨setBalances l.state allocations, l.blocks, l.receipts⟩

/-- An executed transaction gets a block. -/
inductive Extends (chainId : ChainId) (l : Ledger) : Ledger → Prop where
  | sealed {tx : Transaction} {fee : Amount} {state : State} {height now : U64}
      (small : tx.data.length ≤ MempoolConfig.default.maxTxDataBytes)
      (gas : tx.gasLimit.toNat ≤ blockGasLimit.toNat)
      (applied : l.state.applyTransaction tx = (.ok fee, state))
      (next : nextHeight l.blocks = some height) :
      Extends chainId l (l.extend tx state (newBlock chainId height now (headHash l.blocks) state.root tx.hash tx))

/-- The two ways a ledger changes. -/
inductive Next (chainId : ChainId) (l : Ledger) : Ledger → Prop where
  | seeded (allocations : List (Address × Amount)) : Next chainId l (l.seed allocations)
  | sealed {l' : Ledger} (h : Extends chainId l l') : Next chainId l l'

/-- What every ledger of a node satisfies. -/
structure Wf (chainId : ChainId) (l : Ledger) : Prop where
  chain : l.state.chainId = chainId
  linked : Linked chainId 0 Hash.zero l.blocks
  bare : ∀ b ∈ l.blocks, b.header.extraData = []
  small : ∀ tx ∈ blockTxs l.blocks, tx.data.length ≤ MempoolConfig.default.maxTxDataBytes
  receipts_eq : l.receipts = receiptsOf l.blocks
  history : ∃ ops, final State.step (State.withChainId chainId) ops = l.state ∧
    State.applied (State.withChainId chainId) ops = blockTxs l.blocks

/-- The state is the one the newest header commits to. -/
def Rooted (l : Ledger) : Prop := ∀ last, l.blocks.getLast? = some last → l.state.root = last.header.stateRoot

end Ledger

/-! ## Appending a block -/

theorem nextHeight_toNat {chainId : ChainId} {blocks : List Block} {height : U64}
    (h : Linked chainId 0 Hash.zero blocks) (hnext : nextHeight blocks = some height) :
    height.toNat = blocks.length + 1 := by
  unfold nextHeight at hnext
  split at hnext
  · rename_i last hlast
    have hadd := checkedAdd_eq_some.mp hnext
    rw [height_of_last h hlast] at hadd
    simpa using hadd
  · rename_i hnone
    rw [List.getLast?_eq_none_iff] at hnone
    cases hnext
    subst hnone
    rfl

theorem receiptsOf_append {blocks : List Block} {block : Block} {tx : Transaction} (h : block.transactions = [tx]) :
    receiptsOf (blocks ++ [block]) = (receiptsOf blocks).insert tx.hash (newReceipt tx.hash block) := by
  have hone : [block].flatMap blockReceipts = [newReceipt tx.hash block] := by
    simp [blockReceipts, h]
  rw [receiptsOf, List.flatMap_append, hone, collectReceipts_append]
  rfl

namespace Ledger

theorem wf_empty (chainId : ChainId) : Wf chainId ⟨State.withChainId chainId, [], ∅⟩ :=
  ⟨rfl, trivial, by simp, by simp [blockTxs], rfl, [], rfl, rfl⟩

/-- **Every change keeps the ledger well formed.** -/
theorem Wf.next {chainId : ChainId} {l l' : Ledger} (h : Wf chainId l) (hn : Next chainId l l') : Wf chainId l' := by
  obtain ⟨ops, hfinal, happlied⟩ := h.history
  cases hn with
  | seeded allocations =>
    obtain ⟨hset, hnone⟩ := final_setBalances l.state allocations
    refine ⟨?_, h.linked, h.bare, h.small, h.receipts_eq, ops ++ allocations.map fun p => .setBalance p.1 p.2, ?_, ?_⟩
    · show (setBalances l.state allocations).chainId = chainId
      rw [chainId_setBalances, h.chain]
    · rw [final_append, hfinal, hset]
      rfl
    · rw [State.applied_append, hfinal, hnone, happlied, List.append_nil]
      rfl
  | sealed hext =>
    obtain @⟨tx, fee, state, height, now, small, gas, applied, next⟩ := hext
    obtain ⟨dst, hex, heff⟩ := State.effect_of_ok applied
    have hheight := nextHeight_toNat h.linked next
    refine ⟨?_, ?_, ?_, ?_, ?_, ops ++ [.applyTransaction tx], ?_, ?_⟩
    · show state.chainId = chainId
      rw [heff.chainId_eq, h.chain]
    · refine linked_append.mpr ⟨h.linked, ?_, rfl, rfl, gas, tx, rfl, rfl, ?_, rfl, rfl⟩
      · rw [Nat.zero_add]; exact hheight
      · rw [hex.chain, h.chain]
    · intro b hb
      rcases List.mem_append.mp hb with hold | hnew
      · exact h.bare b hold
      · rw [List.mem_singleton.mp hnew]; rfl
    · intro t ht
      rw [extend, blockTxs_append] at ht
      rcases List.mem_append.mp ht with hold | hnew
      · exact h.small t hold
      · rw [List.mem_singleton.mp hnew]; exact small
    · show l.receipts.insert _ _ = receiptsOf (l.blocks ++ [_])
      rw [h.receipts_eq]
      exact (receiptsOf_append rfl).symm
    · rw [final_append, hfinal]
      simp [final, State.step, applied, extend]
    · rw [State.applied_append, hfinal, happlied, extend, blockTxs_append]
      simp [State.applied, trace, State.step, applied, Except.map, State.appliedTx, newBlock]

end Ledger

/-! ## Executing a block -/

/-- A new block executes on the ledger it extends, to the state its header commits to. -/
theorem Ledger.Extends.executes {chainId : ChainId} {l l' : Ledger} (h : l.Extends chainId l') {s : State}
    (hexec : Executes s l.blocks l.state) : Executes s l'.blocks l'.state := by
  cases h with
  | sealed small gas applied next => exact hexec.append (by simp [executeTxs, applied, newBlock, extend]) rfl

theorem Ledger.Extends.rooted {chainId : ChainId} {l l' : Ledger} (h : l.Extends chainId l') : l'.Rooted := by
  cases h with
  | sealed small gas applied next =>
    intro last hlast
    rw [extend, List.getLast?_concat] at hlast
    cases hlast
    rfl

/-! ## Facts about linked blocks -/

/-- A linked block has the one receipt of its one transaction. -/
theorem blockReceipts_eq {chainId : ChainId} {index : Nat} {parent : Hash} {block : Block}
    (h : BlockOk chainId index parent block) : ∃ tx, block.transactions = [tx] ∧
      blockReceipts block = [newReceipt tx.hash block] := by
  obtain ⟨tx, htx, -⟩ := h.committed
  exact ⟨tx, htx, by simp [blockReceipts, htx]⟩

/-- What is read off a linked block's receipt can be read off the block. -/
theorem map_blockReceipts {α : Type} (f : Receipt → α) (g : Block → α) (hfg : ∀ h b, f (newReceipt h b) = g b)
    {chainId : ChainId} {index : Nat} {parent : Hash} {blocks : List Block} (h : Linked chainId index parent blocks) :
    (blocks.flatMap blockReceipts).map f = blocks.map g := by
  induction blocks generalizing index parent with
  | nil => rfl
  | cons b rest ih =>
    obtain ⟨tx, -, hone⟩ := blockReceipts_eq h.1
    rw [List.flatMap_cons, hone, List.map_append, ih h.2, List.map_cons, List.map_cons, hfg]
    rfl

namespace Ledger

/-! ## Distinct hashes -/

theorem Wf.txHashes_nodup {chainId : ChainId} {l : Ledger} (h : Wf chainId l)
    (hcf : CollisionFree (hashedBytes l.blocks)) : ((blockTxs l.blocks).map Transaction.hash).Nodup := by
  obtain ⟨ops, -, happlied⟩ := h.history
  have hnodup : (blockTxs l.blocks).Nodup := by
    rw [← happlied]
    apply State.nodup_of_noncesOf
    intro a
    obtain ⟨k, hk⟩ := State.noncesOf_applied (State.withChainId chainId) ops a
    rw [hk]
    exact List.nodup_range'
  refine hnodup.map_on ?_
  intro s hs t ht heq
  refine Transaction.hash_inj (hcf.mono ?_) heq
  intro x hx
  rw [hashedBytes, List.mem_append]
  simp only [List.mem_cons, List.not_mem_nil, or_false] at hx
  rcases hx with rfl | rfl
  · exact .inr (List.mem_map_of_mem hs)
  · exact .inr (List.mem_map_of_mem ht)

theorem Wf.blockHashes_nodup {chainId : ChainId} {l : Ledger} (h : Wf chainId l)
    (hcf : CollisionFree (hashedBytes l.blocks)) : (l.blocks.map Block.hash).Nodup := by
  rw [List.Nodup, List.pairwise_map]
  refine (heights_increase h.linked).imp_of_mem ?_
  intro a b ha hb hlt heq
  have hheader : a.header = b.header := by
    refine BlockHeader.hash_inj (hcf.mono ?_) heq
    intro x hx
    rw [hashedBytes, List.mem_append]
    simp only [List.mem_cons, List.not_mem_nil, or_false] at hx
    rcases hx with rfl | rfl
    · exact .inl (List.mem_map.mpr ⟨a, ha, rfl⟩)
    · exact .inl (List.mem_map.mpr ⟨b, hb, rfl⟩)
  rw [hheader] at hlt
  exact lt_irrefl _ hlt

/-- No two receipts of the blocks are for the same hash. -/
theorem Wf.receiptKeys_nodup {chainId : ChainId} {l : Ledger} (h : Wf chainId l)
    (hcf : CollisionFree (hashedBytes l.blocks)) : ((l.blocks.flatMap blockReceipts).map Receipt.txHash).Nodup := by
  have hkeys : (l.blocks.flatMap blockReceipts).map Receipt.txHash = (blockTxs l.blocks).map Transaction.hash := by
    simp [blockTxs, List.map_flatMap, blockReceipts, newReceipt, Function.comp_def]
  rw [hkeys]
  exact h.txHashes_nodup hcf

/-- The receipts a node writes are those of its blocks, in order. -/
theorem Wf.orderedReceipts_eq {chainId : ChainId} {l : Ledger} (h : Wf chainId l)
    (hcf : CollisionFree (hashedBytes l.blocks)) : orderedReceipts l.receipts = l.blocks.flatMap blockReceipts := by
  rw [orderedReceipts, h.receipts_eq]
  refine sortByKey_eq_of_perm _ (collectReceipts_perm (h.receiptKeys_nodup hcf)) ?_
  have hheights := map_blockReceipts (fun r => r.blockHeight.toNat) (fun b => b.header.height.toNat)
    (fun _ _ => rfl) h.linked
  have hlt : ((l.blocks.flatMap blockReceipts).map fun r => r.blockHeight.toNat).Pairwise (· < ·) := by
    rw [hheights, List.pairwise_map]
    exact heights_increase h.linked
  rw [List.pairwise_map] at hlt
  exact hlt.imp fun hab => Nat.compare_eq_lt.mpr hab

/-- The receipt of a block passes the validator's check. -/
theorem Wf.receiptOk {chainId : ChainId} {l : Ledger} (h : Wf chainId l)
    (hcf : CollisionFree (hashedBytes l.blocks)) {r : Receipt} (hr : r ∈ l.blocks.flatMap blockReceipts) :
    ReceiptOk l.blocks r := by
  obtain ⟨b, hb, hrb⟩ := List.mem_flatMap.mp hr
  obtain ⟨i, p, hok, -⟩ := blockOk_of_mem h.linked hb
  obtain ⟨tx, htx, -, -, -, hroot⟩ := hok.committed
  rw [blockReceipts, htx, List.map_singleton, List.mem_singleton] at hrb
  subst hrb
  -- the block found by hash is this one: no two blocks share a hash
  exact ⟨b, (find?_hash_eq_some (h.blockHashes_nodup hcf)).mpr ⟨hb, rfl⟩, rfl,
    ⟨tx, by rw [htx]; exact List.mem_singleton_self tx, rfl⟩, rfl, rfl, hroot.symm⟩

/-- **A well-formed, rooted ledger is accepted by the validator.** -/
theorem Wf.validChain {chainId : ChainId} {l : Ledger} (h : Wf chainId l) (hroot : l.Rooted)
    (hcf : CollisionFree (hashedBytes l.blocks)) :
    ValidChain l.blocks (orderedReceipts l.receipts) chainId l.state := by
  have hhashes := map_blockReceipts Receipt.blockHash Block.hash (fun _ _ => rfl) h.linked
  rw [h.orderedReceipts_eq hcf]
  refine ⟨h.linked, ?_, fun r hr => h.receiptOk hcf hr, ?_, hroot⟩
  · rw [← List.length_map Block.hash, ← hhashes, List.length_map]
  · rw [hhashes]
    exact h.blockHashes_nodup hcf

end Ledger
end
end Subhost
