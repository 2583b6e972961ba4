import Subhost.State.Snapshot
import Subhost.State.Execute
/-!
# The ledger validator (subhost-storage/src/lib.rs:228-318)

`validate_chain` checks commitments; it executes nothing. `validateChain_ok_iff` says exactly
what it accepts (`ValidChain`): contiguous heights, linked parents, one transaction a block with
matching transaction, receipt and gas fields, one receipt a block, and the newest header's state
root. Whether the transactions can be executed, and what the state roots of all earlier headers
are, plays no part.
-/
namespace Subhost
open Uint Bincode Codec

/-- `StorageError` (lib.rs:321). The text of a `bincode` error is left out of `Decode`; `Encode` cannot
occur, as serialising these types into memory does not fail. -/
inductive StorageError where
  | invalidChainId
  | chainMismatch (expected got : ChainId)
  | tooLarge (size max : Nat)
  | unsupportedFormat
  | unsupportedVersion (version : U32)
  | checksumMismatch
  | invalid (message : String)
  | decode
  | missingParentDirectory
  | io (path source : String)
deriving DecidableEq, Repr

/-- `impl Display for StorageError`. -/
def StorageError.display : StorageError → String
  | .invalidChainId => "chain ID cannot be zero"
  | .chainMismatch e g => "ledger chain ID " ++ toString g.toNat ++ " does not match configured chain ID " ++
      toString e.toNat
  | .tooLarge s m => "ledger is " ++ toString s ++ " bytes, above the " ++ toString m ++ " byte limit"
  | .unsupportedFormat => "unsupported ledger format"
  | .unsupportedVersion v => "unsupported ledger format version: " ++ toString v.toNat
  | .checksumMismatch => "ledger checksum mismatch"
  | .invalid m => "ledger is invalid: " ++ m
  | .decode => "cannot decode ledger"
  | .missingParentDirectory => "ledger path has no parent directory"
  | .io p s => "ledger I/O failed for " ++ p ++ ": " ++ s

section
variable [Blake3]

/-- `receipt_root` (lib.rs:232). -/
def receiptRoot (txHash : Hash) (height gasUsed : U64) : Hash :=
  Hash.fromData ((pair Hash.codec (pair u64 (pair u64 u8))).encode
    (txHash, height, gasUsed, ReceiptStatus.success.toU8))

/-- `u64::try_from(index).ok().and_then(|value| value.checked_add(1))` (lib.rs:254). -/
def expectedHeight (index : Nat) : Option U64 :=
  if index < 2 ^ 64 then checkedAdd (BitVec.ofNat 64 index) 1 else none

/-- The body of the block loop (lib.rs:254-282). -/
def checkBlock (chainId : ChainId) (index : Nat) (parent : Hash) (block : Block) : Except StorageError Unit :=
  match expectedHeight index with
  | none => .error (.invalid "block height overflow")
  | some expected =>
    match block.transactions with
    | [tx] =>
      if block.header.height ≠ expected ∨ block.header.parentHash ≠ parent ∨ block.header.chainId ≠ chainId ∨
          block.header.gasLimit < block.header.gasUsed then
        .error (.invalid ("invalid block sequence at height " ++ toString expected.toNat))
      else if block.header.txRoot ≠ txRootOf [tx.hash] ∨ tx.chainId ≠ chainId ∨
          block.header.gasUsed ≠ tx.gasLimit ∨
          block.header.receiptRoot ≠ receiptRoot tx.hash block.header.height block.header.gasUsed then
        .error (.invalid ("invalid block commitment at height " ++ toString expected.toNat))
      else .ok ()
    -- `block.transactions.len() != 1` is part of the first condition
    | _ => .error (.invalid ("invalid block sequence at height " ++ toString expected.toNat))

/-- The block loop, at `index` and with the hash of the block before. -/
def validateBlocks (chainId : ChainId) : Nat → Hash → List Block → Except StorageError Unit
  | _, _, [] => .ok ()
  | index, parent, block :: rest =>
    match checkBlock chainId index parent block with
    | .error e => .error e
    | .ok () => validateBlocks chainId (index + 1) block.hash rest

/-- The body of the receipt loop after the duplicate check (lib.rs:293-308). -/
def checkReceipt (blocks : List Block) (receipt : Receipt) : Except StorageError Unit :=
  match blocks.find? fun block => block.hash = receipt.blockHash with
  | none => .error (.invalid "receipt references an unknown block")
  | some block =>
    if receipt.blockHeight ≠ block.header.height ∨
        (block.transactions.any fun tx => tx.hash = receipt.txHash) = false ∨
        receipt.status ≠ .success ∨ receipt.gasUsed ≠ block.header.gasUsed ∨
        receiptRoot receipt.txHash receipt.blockHeight receipt.gasUsed ≠ block.header.receiptRoot then
      .error (.invalid ("invalid receipt for block " ++ toString receipt.blockHeight.toNat))
    else .ok ()

/-- The receipt loop; `seen` is its `HashSet` of block hashes. -/
def validateReceipts (blocks : List Block) : List Hash → List Receipt → Except StorageError Unit
  | _, [] => .ok ()
  | seen, receipt :: rest =>
    if receipt.blockHash ∈ seen then .error (.invalid "multiple receipts reference the same block")
    else
      match checkReceipt blocks receipt with
      | .error e => .error e
      | .ok () => validateReceipts blocks (receipt.blockHash :: seen) rest

/-- `validate_chain` (lib.rs:246). -/
def validateChain (blocks : List Block) (receipts : List Receipt) (chainId : ChainId) (state : State) :
    Except StorageError Unit :=
  match validateBlocks chainId 0 Hash.zero blocks with
  | .error e => .error e
  | .ok () =>
    if blocks.length ≠ receipts.length then .error (.invalid "every block must have exactly one receipt")
    else
      match validateReceipts blocks [] receipts with
      | .error e => .error e
      | .ok () =>
        match blocks.getLast? with
        | none => .ok ()
        | some last =>
          if state.root ≠ last.header.stateRoot then
            .error (.invalid "state does not match the newest block state root")
          else .ok ()

/-! ## What the validator accepts -/

/-- The block at `index`, after the block with hash `parent`, is well formed. -/
structure BlockOk (chainId : ChainId) (index : Nat) (parent : Hash) (block : Block) : Prop where
  height : block.header.height.toNat = index + 1
  parent_eq : block.header.parentHash = parent
  chain : block.header.chainId = chainId
  gas_le : block.header.gasUsed.toNat ≤ block.header.gasLimit.toNat
  committed : ∃ tx, block.transactions = [tx] ∧ block.header.txRoot = txRootOf [tx.hash] ∧
    tx.chainId = chainId ∧ block.header.gasUsed = tx.gasLimit ∧
    block.header.receiptRoot = receiptRoot tx.hash block.header.height block.header.gasUsed

/-- Well-formed blocks, each linked to the one before. -/
def Linked (chainId : ChainId) : Nat → Hash → List Block → Prop
  | _, _, [] => True
  | index, parent, block :: rest => BlockOk chainId index parent block ∧ Linked chainId (index + 1) block.hash rest

/-- The receipt is that of a block of the chain. -/
def ReceiptOk (blocks : List Block) (receipt : Receipt) : Prop :=
  ∃ block, (blocks.find? fun block => block.hash = receipt.blockHash) = some block ∧
    receipt.blockHeight = block.header.height ∧ (∃ tx ∈ block.transactions, tx.hash = receipt.txHash) ∧
    receipt.status = .success ∧ receipt.gasUsed = block.header.gasUsed ∧
    receiptRoot receipt.txHash receipt.blockHeight receipt.gasUsed = block.header.receiptRoot

/-- All that `validate_chain` establishes. -/
structure ValidChain (blocks : List Block) (receipts : List Receipt) (chainId : ChainId) (state : State) : Prop where
  linked : Linked chainId 0 Hash.zero blocks
  count : blocks.length = receipts.length
  receipts_ok : ∀ receipt ∈ receipts, ReceiptOk blocks receipt
  receipts_nodup : (receipts.map Receipt.blockHash).Nodup
  state_root : ∀ last, blocks.getLast? = some last → state.root = last.header.stateRoot

omit [Blake3] in
theorem expectedHeight_eq_some {index : Nat} {h : U64} :
    expectedHeight index = some h ↔ h.toNat = index + 1 := by
  have hlt := h.isLt
  unfold expectedHeight
  split
  · rename_i hi
    rw [checkedAdd_eq_some, BitVec.toNat_ofNat, Nat.mod_eq_of_lt hi]
    rfl
  · constructor
    · intro e; cases e
    · intro e; omega

theorem checkBlock_ok_iff {chainId : ChainId} {index : Nat} {parent : Hash} {block : Block} :
    checkBlock chainId index parent block = .ok () ↔ BlockOk chainId index parent block := by
  constructor
  · intro h
    unfold checkBlock at h
    split at h
    · cases h
    · rename_i expected hexp
      split at h
      · rename_i tx htx
        split at h
        · cases h
        · rename_i hseq
          split at h
          · cases h
          · rename_i hcommit
            simp only [not_or, ne_eq, Decidable.not_not, lt_iff_toNat, Nat.not_lt] at hseq hcommit
            obtain ⟨hh, hp, hc, hg⟩ := hseq
            obtain ⟨ht, htc, hgu, hr⟩ := hcommit
            exact ⟨by rw [hh]; exact expectedHeight_eq_some.mp hexp, hp, hc, hg, tx, htx, ht, htc, hgu, hr⟩
      · cases h
  · rintro ⟨hh, hp, hc, hg, tx, htx, ht, htc, hgu, hr⟩
    have hseq : ¬ (block.header.height ≠ block.header.height ∨ block.header.parentHash ≠ parent ∨
        block.header.chainId ≠ chainId ∨ block.header.gasLimit < block.header.gasUsed) := by
      simp only [not_or, ne_eq, Decidable.not_not, lt_iff_toNat, Nat.not_lt]
      exact ⟨trivial, hp, hc, hg⟩
    have hcommit : ¬ (block.header.txRoot ≠ txRootOf [tx.hash] ∨ tx.chainId ≠ chainId ∨
        block.header.gasUsed ≠ tx.gasLimit ∨
        block.header.receiptRoot ≠ receiptRoot tx.hash block.header.height block.header.gasUsed) := by
      simp only [not_or, ne_eq, Decidable.not_not]
      exact ⟨ht, htc, hgu, hr⟩
    unfold checkBlock
    rw [expectedHeight_eq_some.mpr hh, htx]
    simp only
    rw [if_neg hseq, if_neg hcommit]

theorem validateBlocks_ok_iff {chainId : ChainId} {index : Nat} {parent : Hash} {blocks : List Block} :
    validateBlocks chainId index parent blocks = .ok () ↔ Linked chainId index parent blocks := by
  induction blocks generalizing index parent with
  | nil => simp [validateBlocks, Linked]
  | cons block rest ih =>
    unfold validateBlocks Linked
    rw [← checkBlock_ok_iff, ← ih]
    cases checkBlock chainId index parent block <;> simp

theorem checkReceipt_ok_iff {blocks : List Block} {receipt : Receipt} :
    checkReceipt blocks receipt = .ok () ↔ ReceiptOk blocks receipt := by
  unfold checkReceipt ReceiptOk
  cases hfind : blocks.find? fun block => block.hash = receipt.blockHash with
  | none => simp
  | some block =>
    simp only [Option.some.injEq, exists_eq_left', ite_eq_right_iff, reduceCtorEq, imp_false, not_or, ne_eq,
      Decidable.not_not, Bool.not_eq_false, List.any_eq_true, decide_eq_true_eq]

theorem validateReceipts_ok_iff {blocks : List Block} {seen : List Hash} {receipts : List Receipt} :
    validateReceipts blocks seen receipts = .ok () ↔
      (∀ receipt ∈ receipts, ReceiptOk blocks receipt) ∧ (receipts.map Receipt.blockHash).Nodup ∧
      ∀ receipt ∈ receipts, receipt.blockHash ∉ seen := by
  induction receipts generalizing seen with
  | nil => simp [validateReceipts]
  | cons receipt rest ih =>
    unfold validateReceipts
    by_cases hseen : receipt.blockHash ∈ seen
    · simp [hseen]
    · rw [if_neg hseen]
      cases hcheck : checkReceipt blocks receipt with
      | error e =>
        have hbad : ¬ ReceiptOk blocks receipt := by
          rw [← checkReceipt_ok_iff, hcheck]
          simp
        simp [hbad]
      | ok u =>
        have hgood : ReceiptOk blocks receipt := checkReceipt_ok_iff.mp hcheck
        simp only [ih, List.forall_mem_cons, List.map_cons, List.nodup_cons, hgood, hseen, true_and,
          not_false_eq_true]
        constructor
        · rintro ⟨hall, hnodup, hfresh⟩
          refine ⟨hall, ⟨?_, hnodup⟩, fun r hr hmem => hfresh r hr (List.mem_cons_of_mem _ hmem)⟩
          intro hmem
          obtain ⟨r, hr, hrb⟩ := List.mem_map.mp hmem
          exact hfresh r hr (hrb ▸ List.mem_cons_self ..)
        · rintro ⟨hall, ⟨hnot, hnodup⟩, hfresh⟩
          refine ⟨hall, hnodup, ?_⟩
          intro r hr hmem
          rcases List.mem_cons.mp hmem with heq | hold
          · exact hnot (List.mem_map.mpr ⟨r, hr, heq⟩)
          · exact hfresh r hr hold

/-- **Acceptance**, in full. -/
theorem validateChain_ok_iff {blocks : List Block} {receipts : List Receipt} {chainId : ChainId} {state : State} :
    validateChain blocks receipts chainId state = .ok () ↔ ValidChain blocks receipts chainId state := by
  constructor
  · intro h
    unfold validateChain at h
    split at h
    · cases h
    · rename_i hblocks
      split at h
      · cases h
      · rename_i hcount
        split at h
        · cases h
        · rename_i hreceipts
          obtain ⟨hall, hnodup, -⟩ := validateReceipts_ok_iff.mp hreceipts
          refine ⟨validateBlocks_ok_iff.mp hblocks, by simpa using hcount, hall, hnodup, ?_⟩
          intro last hlast
          simp only [hlast] at h
          split at h
          · cases h
          · rename_i hroot
            simpa using hroot
  · rintro ⟨hlinked, hcount, hall, hnodup, hroot⟩
    have hreceipts : validateReceipts blocks [] receipts = .ok () :=
      validateReceipts_ok_iff.mpr ⟨hall, hnodup, by simp⟩
    unfold validateChain
    rw [validateBlocks_ok_iff.mpr hlinked]
    simp only [hcount, ne_eq, not_true_eq_false, if_false, hreceipts]
    cases hlast : blocks.getLast? with
    | none => rfl
    | some last => simp [hroot last hlast]

/-! ## Linked blocks -/

theorem linked_append {chainId : ChainId} {index : Nat} {parent : Hash} {blocks : List Block} {block : Block} :
    Linked chainId index parent (blocks ++ [block]) ↔ Linked chainId index parent blocks ∧
      BlockOk chainId (index + blocks.length) ((blocks.getLast?).elim parent Block.hash) block := by
  induction blocks generalizing index parent with
  | nil => simp [Linked]
  | cons b rest ih =>
    have hlast : ((b :: rest).getLast?).elim parent Block.hash = (rest.getLast?).elim b.hash Block.hash := by
      cases rest with
      | nil => rfl
      | cons b' rest =>
        rw [List.getLast?_cons_cons]
        cases h : (b' :: rest).getLast? with
        | none => simp at h
        | some last => rfl
    rw [List.cons_append, Linked, Linked, ih, hlast, List.length_cons, and_assoc]
    rw [show index + 1 + rest.length = index + (rest.length + 1) by omega]

/-- The height of the newest block is the number of blocks. -/
theorem height_of_last {chainId : ChainId} {blocks : List Block} {last : Block}
    (h : Linked chainId 0 Hash.zero blocks) (hlast : blocks.getLast? = some last) :
    last.header.height.toNat = blocks.length := by
  obtain ⟨front, rfl⟩ := List.getLast?_eq_some_iff.mp hlast
  have hok := (linked_append.mp h).2
  rw [hok.height, List.length_append]
  simp

theorem blockOk_of_mem {chainId : ChainId} {index : Nat} {parent : Hash} {blocks : List Block} {block : Block}
    (h : Linked chainId index parent blocks) (hb : block ∈ blocks) :
    ∃ i p, BlockOk chainId i p block ∧ index ≤ i := by
  induction blocks generalizing index parent with
  | nil => cases hb
  | cons b rest ih =>
    rcases List.mem_cons.mp hb with rfl | hrest
    · exact ⟨index, parent, h.1, le_refl index⟩
    · obtain ⟨i, p, hok, hle⟩ := ih h.2 hrest
      exact ⟨i, p, hok, by omega⟩

/-- Index `n` holds height `n + 1`. -/
theorem height_of_get {chainId : ChainId} {index : Nat} {parent : Hash} {blocks : List Block} {i : Nat} {block : Block}
    (h : Linked chainId index parent blocks) (hb : blocks[i]? = some block) :
    block.header.height.toNat = index + i + 1 := by
  induction blocks generalizing index parent i with
  | nil => cases hb
  | cons b rest ih =>
    cases i with
    | zero =>
      cases hb
      exact h.1.height
    | succ i =>
      rw [ih h.2 hb]
      omega

theorem heights_increase {chainId : ChainId} {index : Nat} {parent : Hash} {blocks : List Block}
    (h : Linked chainId index parent blocks) :
    blocks.Pairwise fun a b => a.header.height.toNat < b.header.height.toNat := by
  induction blocks generalizing index parent with
  | nil => exact List.Pairwise.nil
  | cons b rest ih =>
    refine List.Pairwise.cons ?_ (ih h.2)
    intro b' hb'
    obtain ⟨i, p, hok, hle⟩ := blockOk_of_mem h.2 hb'
    rw [h.1.height, hok.height]
    omega

end

/-! ## Execution -/

/-- The state after a block's transactions, if `apply_transaction` accepts them all. -/
def executeTxs : State → List Transaction → Option State
  | s, [] => some s
  | s, tx :: rest =>
    match s.applyTransaction tx with
    | (.ok _, s') => executeTxs s' rest
    | (.error _, _) => none

/-- Executing the blocks from the first state succeeds, gives after each block a state with the
root its header claims, and ends in the second state. -/
def Executes [Blake3] : State → List Block → State → Prop
  | s, [], t => s = t
  | s, block :: rest, t => ∃ s', executeTxs s block.transactions = some s' ∧ s'.root = block.header.stateRoot ∧
      Executes s' rest t

section
variable [Blake3]

theorem Executes.append {s t u : State} {blocks : List Block} {block : Block} (h : Executes s blocks t)
    (hexec : executeTxs t block.transactions = some u) (hroot : u.root = block.header.stateRoot) :
    Executes s (blocks ++ [block]) u := by
  induction blocks generalizing s with
  | nil =>
    cases h
    exact ⟨u, hexec, hroot, rfl⟩
  | cons b rest ih =>
    obtain ⟨s', hb, hr, hrest⟩ := h
    exact ⟨s', hb, hr, ih hrest⟩

/-- The final state has the root the newest header claims. -/
theorem Executes.root_eq {s t : State} {blocks : List Block} (h : Executes s blocks t) {last : Block}
    (hlast : blocks.getLast? = some last) : t.root = last.header.stateRoot := by
  induction blocks generalizing s with
  | nil => cases hlast
  | cons b rest ih =>
    obtain ⟨s', -, hr, hrest⟩ := h
    cases rest with
    | nil =>
      cases hrest
      cases hlast
      exact hr
    | cons b' rest =>
      rw [List.getLast?_cons_cons] at hlast
      exact ih hrest hlast

/-- The block with a hash, where no two have the same. -/
theorem find?_hash_eq_some {blocks : List Block} (hnodup : (blocks.map Block.hash).Nodup) {x : Hash} {b : Block} :
    (blocks.find? fun block => block.hash = x) = some b ↔ b ∈ blocks ∧ b.hash = x := by
  constructor
  · intro hfind
    exact ⟨List.mem_of_find?_eq_some hfind, by simpa using List.find?_some hfind⟩
  · rintro ⟨hb, rfl⟩
    have hfound : (blocks.find? fun block => block.hash = b.hash).isSome := List.find?_isSome.mpr ⟨b, hb, by simp⟩
    obtain ⟨b', hb'⟩ := Option.isSome_iff_exists.mp hfound
    have hsame : b' = b := List.inj_on_of_nodup_map hnodup (List.mem_of_find?_eq_some hb') hb
      (by simpa using List.find?_some hb')
    rw [hb', hsame]

/-- Receipts and blocks correspond one to one. -/
theorem ValidChain.receipts_perm {blocks : List Block} {receipts : List Receipt} {chainId : ChainId} {state : State}
    (h : ValidChain blocks receipts chainId state) :
    (receipts.map Receipt.blockHash).Perm (blocks.map Block.hash) := by
  have hsub : receipts.map Receipt.blockHash ⊆ blocks.map Block.hash := by
    intro x hx
    obtain ⟨receipt, hr, rfl⟩ := List.mem_map.mp hx
    obtain ⟨block, hfind, -⟩ := h.receipts_ok receipt hr
    have hhash : block.hash = receipt.blockHash := by simpa using List.find?_some hfind
    exact List.mem_map.mpr ⟨block, List.mem_of_find?_eq_some hfind, hhash⟩
  refine (h.receipts_nodup.subperm hsub).perm_of_length_le ?_
  rw [List.length_map, List.length_map, h.count]

/-- **Integrity of an accepted ledger.** `validate_chain` accepts exactly the valid chains; their
receipts correspond one to one to the blocks, and no other state fits the newest header. -/
theorem accepted_ledger (blocks : List Block) (receipts : List Receipt) (chainId : ChainId) (state : State) :
    (validateChain blocks receipts chainId state = .ok () ↔ ValidChain blocks receipts chainId state) ∧
    (validateChain blocks receipts chainId state = .ok () →
      (receipts.map Receipt.blockHash).Perm (blocks.map Block.hash) ∧
      ∀ last, blocks.getLast? = some last → ∀ other : State, other.root = last.header.stateRoot →
        CollisionFree [StateSnapshot.codec.encode other.snapshot, StateSnapshot.codec.encode state.snapshot] →
        other = state) := by
  refine ⟨validateChain_ok_iff, ?_⟩
  intro hok
  have hvalid := validateChain_ok_iff.mp hok
  refine ⟨hvalid.receipts_perm, ?_⟩
  intro last hlast other hroot hcf
  exact State.root_inj hcf (hroot.trans (hvalid.state_root last hlast).symm)

end

/-! ## A ledger that was never executed -/

section Unexecuted

open scoped Concrete

/-- A contract call, which no state executes. -/
def contractCall : Transaction :=
  ⟨.contractCall, 0, Address.zero, none, 0, 1, 21000, [], 1, TransactionSignature.empty⟩

def unexecutedState : State := State.withChainId 1

def unexecutedBlock : Block where
  header :=
    { version := 1, chainId := 1, height := 1, timestamp := 0, parentHash := Hash.zero
      stateRoot := unexecutedState.root, txRoot := txRootOf [contractCall.hash]
      receiptRoot := receiptRoot contractCall.hash 1 21000, validator := Address.zero
      gasUsed := 21000, gasLimit := blockGasLimit, extraData := [] }
  transactions := [contractCall]
  signatures := []

def unexecutedReceipt : Receipt :=
  ⟨contractCall.hash, unexecutedBlock.hash, 1, 21000, .success, [], none⟩

/-- What acceptance says about this ledger. -/
theorem accepted_ledger_unexecuted :
    ([unexecutedReceipt].map Receipt.blockHash).Perm ([unexecutedBlock].map Block.hash) ∧
    ∀ other : State, other.root = unexecutedBlock.header.stateRoot →
      CollisionFree [StateSnapshot.codec.encode other.snapshot, StateSnapshot.codec.encode unexecutedState.snapshot] →
      other = unexecutedState := by
  obtain ⟨hperm, hunique⟩ :=
    (accepted_ledger [unexecutedBlock] [unexecutedReceipt] 1 unexecutedState).2 (by decide +kernel)
  exact ⟨hperm, hunique unexecutedBlock rfl⟩

/-- Every state refuses the call. -/
theorem executeTxs_contractCall (s : State) : executeTxs s [contractCall] = none := by
  rcases h : s.applyTransaction contractCall with ⟨e | fee, s'⟩
  · simp [executeTxs, h]
  · obtain ⟨dst, hex⟩ := State.executable_of_ok h
    exact absurd hex.transfer (by decide)

/-- The validator accepts the block, though no initial state leads to it. -/
theorem unexecuted_accepted :
    validateChain [unexecutedBlock] [unexecutedReceipt] 1 unexecutedState = .ok () ∧
    CollisionFree [BlockHeader.codec.encode unexecutedBlock.header, Transaction.codec.encode contractCall,
      StateSnapshot.codec.encode unexecutedState.snapshot] ∧
    ¬ ∃ initial, Executes initial [unexecutedBlock] unexecutedState := by
  refine ⟨by decide +kernel, by decide +kernel, ?_⟩
  rintro ⟨initial, s', hexec, -⟩
  rw [show unexecutedBlock.transactions = [contractCall] from rfl, executeTxs_contractCall] at hexec
  cases hexec

end Unexecuted
end Subhost
