import Subhost.Mempool.Pool
import Subhost.Storage.Store
/-!
# The single-node producer (subhost-rpc/src/lib.rs:97-358)

Every public call holds the commit lock, so a call is one step on the pair of the node's memory
(`RpcState`) and its disk. A sealing call reads the clock once (`now`), and the write it makes may
fail at any file-system step (`fault`).

Everything such a call can do (`Rpc/Steps.lean`): nothing but a change of the pool, or one new block,
built from a pooled transaction that was executed on the current state, with the file written first.
-/
namespace Subhost
open Uint Bincode

/-- `RpcError` (lib.rs:44); the commit path returns the second and the last three. -/
inductive RpcError where
  | invalidAddress
  | invalidTxHash
  | invalidParams
  | invalidChainId
  | invalidSignature
  | unsupportedTransactionType (txType : TransactionType)
  | transactionRejected (message : String)
  | persistence (message : String)
  | internal
deriving DecidableEq

/-- `impl Display for RpcError`. -/
def RpcError.display : RpcError → String
  | .invalidAddress => "invalid address"
  | .invalidTxHash => "invalid transaction hash"
  | .invalidParams => "invalid params"
  | .invalidChainId => "invalid chain ID"
  | .invalidSignature => "transaction signature is required and must be valid"
  | .unsupportedTransactionType t => "unsupported transaction type: " ++ t.display
  | .transactionRejected m => "transaction rejected: " ++ m
  | .persistence m => "state persistence failed: " ++ m
  | .internal => "internal error"

/-- `RpcState` (lib.rs:105). -/
structure RpcState where
  chainId : ChainId
  blockHeight : U64
  mempool : Mempool
  state : State
  blocks : List Block
  receipts : Map Hash Receipt
  store : LedgerStore

/-- A block ready to be committed: the state after it, the block and its receipt. -/
structure Sealed where
  state : State
  block : Block
  receipt : Receipt

/-- `receipts.values()` sorted by height (lib.rs:347). -/
def orderedReceipts (receipts : Map Hash Receipt) : List Receipt :=
  sortByKey (fun r => r.blockHeight.toNat) (receipts.toList.map Prod.snd)

/-- `receipts.into_iter().map(|receipt| (receipt.tx_hash, receipt)).collect()` (lib.rs:140). -/
def collectReceipts (receipts : List Receipt) : Map Hash Receipt :=
  receipts.foldl (fun m r => m.insert r.txHash r) ∅

/-- The balances of an allocation, set one after the other (lib.rs:203). -/
def setBalances (s : State) (allocations : List (Address × Amount)) : State :=
  allocations.foldl (fun s p => s.setBalance p.1 p.2) s

/-- The height of the next block (lib.rs:290). -/
def nextHeight (blocks : List Block) : Option U64 :=
  match blocks.getLast? with
  | some block => checkedAdd block.header.height 1
  | none => some 1

section
variable [Blake3]

/-- The parent hash of the next block (lib.rs:294). -/
def headHash (blocks : List Block) : Hash := (blocks.getLast?).elim Hash.zero Block.hash

/-- The block of one executed transaction (lib.rs:296-315). -/
def newBlock (chainId : ChainId) (height : U64) (now : Timestamp) (parent stateRoot txHash : Hash)
    (tx : Transaction) : Block where
  header :=
    { version := 1, chainId := chainId, height := height, timestamp := now, parentHash := parent
      stateRoot := stateRoot, txRoot := txRootOf [txHash]
      receiptRoot := receiptRoot txHash height tx.gasLimit, validator := Address.zero
      gasUsed := tx.gasLimit, gasLimit := blockGasLimit, extraData := [] }
  transactions := [tx]
  signatures := []

/-- The receipt of a block's transaction (lib.rs:316-324). -/
def newReceipt (txHash : Hash) (block : Block) : Receipt :=
  ⟨txHash, block.hash, block.header.height, block.header.gasUsed, .success, [], none⟩

namespace RpcState

/-- `RpcState::with_store` (lib.rs:137). -/
def withStore (store : LedgerStore) (d : Disk) (fault : Option String) : Except StorageError RpcState :=
  match store.load d fault with
  | .error e => .error e
  | .ok restored =>
    .ok ⟨store.chainId, restored.height, Mempool.default, restored.state, restored.blocks,
      collectReceipts restored.receipts, store⟩

/-- `RpcState::persist` (lib.rs:341). -/
def persist (s : RpcState) (state : State) (blocks : List Block) (receipts : Map Hash Receipt)
    (fault : Option Fault) (d : Disk) : Except RpcError Unit × Disk :=
  match s.store.persist ⟨s.chainId, state.snapshot, blocks, orderedReceipts receipts⟩ fault d with
  | (.error e, d) => (.error (.persistence e.display), d)
  | (.ok (), d) => (.ok (), d)

/-- `RpcState::seed_accounts` (lib.rs:200). -/
def seedAccounts (s : RpcState) (d : Disk) (allocations : List (Address × Amount)) (fault : Option Fault) :
    Except RpcError Unit × RpcState × Disk :=
  let candidate := setBalances s.state allocations
  match s.persist candidate s.blocks s.receipts fault d with
  | (.error e, d) => (.error e, s, d)
  | (.ok (), d) => (.ok (), { s with state := candidate }, d)

/-- The part of `seal_next_block` before the write (lib.rs:274-329). -/
def prepareBlock (s : RpcState) (txHash : Hash) (now : Timestamp) : Except RpcError Sealed :=
  match s.mempool.get txHash with
  | none => .error .invalidTxHash
  | some tx =>
    if blockGasLimit < tx.gasLimit then
      .error (.transactionRejected ("transaction gas " ++ toString tx.gasLimit.toNat ++
        " exceeds the block gas limit " ++ toString blockGasLimit.toNat))
    else
      match s.state.applyTransaction tx with
      | (.error e, _) => .error (.transactionRejected e.display)
      | (.ok _, candidate) =>
        match nextHeight s.blocks with
        | none => .error .internal
        | some height =>
          let block := newBlock s.chainId height now (headHash s.blocks) candidate.root txHash tx
          .ok ⟨candidate, block, newReceipt txHash block⟩

/-- The swap of every in-memory view (lib.rs:334-338). -/
def commitBlock (s : RpcState) (txHash : Hash) (c : Sealed) : RpcState where
  chainId := s.chainId
  blockHeight := c.block.header.height
  mempool := (s.mempool.remove txHash).2
  state := c.state
  blocks := s.blocks ++ [c.block]
  receipts := s.receipts.insert txHash c.receipt
  store := s.store

/-- `RpcState::seal_next_block` (lib.rs:273). -/
def sealNextBlock (s : RpcState) (d : Disk) (txHash : Hash) (now : Timestamp) (fault : Option Fault) :
    Except RpcError Receipt × RpcState × Disk :=
  match s.prepareBlock txHash now with
  | .error e => (.error e, s, d)
  | .ok c =>
    match s.persist c.state (s.blocks ++ [c.block]) (s.receipts.insert txHash c.receipt) fault d with
    | (.error e, d) => (.error e, s, d)
    | (.ok (), d) => (.ok c.receipt, s.commitBlock txHash c, d)

/-- `RpcState::include_transaction` (lib.rs:248). -/
def includeTransaction (s : RpcState) (d : Disk) (txHash : Hash) (now : Timestamp) (fault : Option Fault) :
    Except RpcError Receipt × RpcState × Disk :=
  s.sealNextBlock d txHash now fault

/-- `RpcState::restore_pool` (lib.rs:254); an insertion that fails is only logged. -/
def restorePool (p : Mempool) (hash : Hash) (previous displaced : Option Transaction) : Mempool :=
  (previous.toList ++ displaced.toList).foldl (fun p tx => (p.add tx).2) (p.remove hash).2

/-- `RpcState::submit_transaction` (lib.rs:217). -/
def submitTransaction (s : RpcState) (d : Disk) (tx : Transaction) (now : Timestamp) (fault : Option Fault) :
    Except RpcError Hash × RpcState × Disk :=
  let previous := (s.mempool.getBySenderNonce tx.fromAddr tx.nonce).map Prod.snd
  match s.mempool.admitTx tx with
  | (.error e, p) => (.error (.transactionRejected e.display), { s with mempool := p }, d)
  | (.ok admission, p) =>
    let s := { s with mempool := p }
    if admission.accepted = false then
      (.error (.transactionRejected
        "a transaction with this sender and nonce already has an equal or higher gas price"), s, d)
    else
      match s.sealNextBlock d admission.hash now fault with
      | (.ok receipt, s, d) => (.ok receipt.txHash, s, d)
      | (.error e, s, d) =>
        (.error e, { s with mempool := restorePool s.mempool admission.hash previous admission.displaced }, d)

end RpcState
end
end Subhost
