import Subhost.Rpc.Amid
/-!
# The explorer's dashboard (explorer/src/main.rs:93-153, :263-315)

`snapshot` asks for the height and then for one block after the other, newest first, while the node goes on
committing. No lock spans these calls, and each of them is answered from the views as they are at that moment.

`snapshot_consistent`: what it returns is nevertheless one chain. Every block it shows is the one of its height in the
chain that had the reported height, each is the parent of the one shown before it, and the node still has that chain
when the snapshot is done. The clock text `updated_at` is left out.
-/
namespace Subhost
open Uint Bincode Run Program JsonText RpcState

/-- `ExplorerError` (main.rs:544), as far as requests can meet it. -/
inductive ExplorerError where
  | invalidRequest (message : String)
  | walletNotFound (address : Address)
  | walletLocked
  | walletsUnavailable
  | rpc (message : String)
  | io (path source : String)
deriving DecidableEq

namespace Explorer

/-- `MAX_BLOCKS` (main.rs:29). -/
def maxBlocks : U64 := 12

/-- `MAX_RPC_RESPONSE_BYTES` (main.rs:31). -/
def maxRpcResponseBytes : Nat := 2 * 1024 * 1024

/-- `BlockView` (main.rs:330). -/
structure BlockView where
  number : U64
  hash : String
  parentHash : String
  timestamp : U64
  gasUsed : String
  transactionCount : Nat
deriving DecidableEq

/-- `TransactionView` (main.rs:340); `sender` and `recipient` are its `from` and `to`. -/
structure TransactionView where
  hash : String
  blockNumber : U64
  blockHash : String
  sender : String
  recipient : Option String
  value : String
  nonce : U64
  kind : String
deriving DecidableEq

/-- `Snapshot` (main.rs:318). -/
structure Snapshot where
  chainName : String
  rpcUrl : String
  chainId : String
  height : U64
  latestHash : String
  blocks : List BlockView
  transactions : List TransactionView
deriving DecidableEq

/-- The configuration that requests read (main.rs:40), and how serde_json words its errors. -/
structure Config where
  rpcUrl : String
  chainName : String
  walletDir : Option String
  serdeError : Bytes → String

/-- `quantity` (main.rs:508). -/
def quantity : Json → Option U64 := numberIn 64

/-- `amount` (main.rs:516). -/
def amount : Json → Option Amount := numberIn 128

/-- `string_field` (main.rs:504). -/
def stringField (object : Json) (key : String) : Option String := (object.get key).bind Json.asStr

/-- `object.get("transactions").and_then(Value::as_array).cloned().unwrap_or_default()` (main.rs:112). -/
def blockTransactions (object : Json) : List Json :=
  match object.get "transactions" with
  | some (.array items) => items
  | _ => []

/-- The view of a block that was asked for by this number (main.rs:110-122). -/
def blockView (number : U64) (object : Json) : BlockView where
  number := ((object.get "number").bind quantity).getD number
  hash := (stringField object "hash").getD ""
  parentHash := (stringField object "parentHash").getD ""
  timestamp := ((object.get "timestamp").bind quantity).getD 0
  gasUsed := (stringField object "gasUsed").getD ""
  transactionCount := (blockTransactions object).length

/-- The view of one entry of a block's transactions (main.rs:124-139). -/
def transactionView (block : BlockView) (tx : Json) : Option TransactionView :=
  match tx with
  | .object _ =>
    (stringField tx "hash").map fun hash =>
      { hash
        blockNumber := block.number
        blockHash := block.hash
        sender := (stringField tx "from").getD "-"
        recipient := stringField tx "to"
        value := toString (((tx.get "value").bind amount).getD 0).toNat
        nonce := ((tx.get "nonce").bind quantity).getD 0
        kind := (stringField tx "type").getD "transfer" }
  | _ => none

section
variable [Blake3] [Ed25519] [Jsonrpsee] (config : Config)

omit [Blake3] [Ed25519] [Jsonrpsee] in
def client : Client ExplorerError := .ofRpc .rpc config.serdeError maxRpcResponseBytes

/-- `ExplorerState::rpc_call` (main.rs:273). -/
def rpcCall (method : String) (params : Json) : ExceptT ExplorerError (Prog Act) Json :=
  (client config).rpcCall method params

/-- `ExplorerState::quantity` (main.rs:267). -/
def quantityCall (method : String) (params : Json) : ExceptT ExplorerError (Prog Act) U64 := do
  let value ← rpcCall config method params
  Prog.attempt ((quantity value).elim (.error (.rpc (method ++ " returned invalid data"))) .ok)

/-- The loop over the block numbers (main.rs:100-140), with what it has collected. -/
def walk : List U64 → List BlockView → List TransactionView →
    ExceptT ExplorerError (Prog Act) (List BlockView × List TransactionView)
  | [], blocks, transactions => return (blocks, transactions)
  | number :: numbers, blocks, transactions => do
    let block ← rpcCall config "eth_getBlockByNumber" (.array [.string (hexText number.toNat), .bool true])
    match block with
    | .object _ =>
      let view := blockView number block
      walk numbers (blocks ++ [view]) (transactions ++ (blockTransactions block).filterMap (transactionView view))
    | _ => walk numbers blocks transactions

omit [Blake3] [Ed25519] [Jsonrpsee] in
/-- `(first..=height).rev()` (main.rs:100). -/
def newestFirst (first : Nat) (height : U64) : List U64 :=
  ((List.range' first (height.toNat + 1 - first)).map (BitVec.ofNat 64)).reverse

/-- `ExplorerState::snapshot` (main.rs:93). The `break` at height 0 is never reached: the range is empty. -/
def snapshot : ExceptT ExplorerError (Prog Act) Snapshot := do
  let height ← quantityCall config "eth_blockNumber" (.array [])
  let first := max (saturatingSub height (saturatingSub maxBlocks 1)).toNat 1
  let (blocks, transactions) ← walk config (newestFirst first height) [] []
  let chainId ← quantityCall config "eth_chainId" (.array [])
  return {
    chainName := config.chainName
    rpcUrl := config.rpcUrl
    chainId := hexText chainId.toNat
    height
    latestHash := blocks.head?.elim "" BlockView.hash
    blocks
    transactions }

/-! ## What the views show -/

omit [Ed25519] [Jsonrpsee] in
/-- The view of a block. -/
def BlockView.ofBlock (block : Block) : BlockView :=
  ⟨block.header.height, displayBytes block.hash.toList, displayBytes block.header.parentHash.toList,
    block.header.timestamp, hexText block.header.gasUsed.toNat, block.transactions.length⟩

omit [Ed25519] [Jsonrpsee] in
/-- The view of a transaction in its block. -/
def TransactionView.ofTransaction (block : Block) (tx : Transaction) : TransactionView :=
  ⟨displayBytes tx.hash.toList, block.header.height, displayBytes block.hash.toList, displayBytes tx.fromAddr.toList,
    tx.toAddr.map fun a => displayBytes a.toList, toString tx.value.toNat, tx.nonce, tx.txType.display⟩

omit [Ed25519] [Jsonrpsee] in
theorem blockView_blockJson (number : U64) (block : Block) :
    blockView number (blockJson block true) = .ofBlock block := by
  have hq : ∀ n : U64, numberIn 64 (.string (hexText n.toNat)) = some n := numberIn_hexText (by decide)
  simp [blockView, blockJson, stringField, blockTransactions, Json.get, List.lookup_cons, Json.asStr, quantity, hq,
    BlockView.ofBlock]

omit [Ed25519] [Jsonrpsee] in
theorem transactionView_transactionJson (block : Block) (tx : Transaction) (index : Nat) :
    transactionView (.ofBlock block) (transactionJson tx block index) = some (.ofTransaction block tx) := by
  have hq : ∀ n : U64, numberIn 64 (.string (hexText n.toNat)) = some n := numberIn_hexText (by decide)
  have ha : ∀ n : U128, numberIn 128 (.string (hexText n.toNat)) = some n := numberIn_hexText (by decide)
  cases hto : tx.toAddr <;>
    simp [transactionView, transactionJson, stringField, Json.get, List.lookup_cons, Json.asStr, quantity, amount, hq, ha,
      TransactionView.ofTransaction, BlockView.ofBlock, hto]

omit [Ed25519] [Jsonrpsee] in
theorem transactionViews_blockJson (block : Block) :
    (blockTransactions (blockJson block true)).filterMap (transactionView (.ofBlock block)) =
      block.transactions.map (.ofTransaction block) := by
  have hitems : blockTransactions (blockJson block true) =
      block.transactions.mapIdx fun index tx => transactionJson tx block index := by
    simp [blockTransactions, blockJson, Json.get, List.lookup_cons]
  rw [hitems]
  -- the index of a transaction is not shown
  have hviews : ∀ (txs : List Transaction) (start : Nat),
      (txs.mapIdx fun index tx => transactionJson tx block (index + start)).filterMap (transactionView (.ofBlock block)) =
        txs.map (.ofTransaction block) := by
    intro txs
    induction txs with
    | nil => exact fun _ => rfl
    | cons tx txs ih =>
      intro start
      rw [List.mapIdx_cons, List.filterMap_cons_some (transactionView_transactionJson block tx _), List.map_cons]
      have := ih (start + 1)
      simp only [show ∀ i, i + 1 + start = i + (start + 1) by omega]
      rw [this]
  exact hviews block.transactions 0

/-! ## The calls -/

/-- The node was not reached, or its answer was not. -/
def Unreached (reliable : Prop) (e : ExplorerError) (_ : Node) : Prop := ¬ reliable ∧ ∃ message, e = .rpc message

section
variable {store : LedgerStore} {reliable : Prop}

section
variable {C : Turn RpcState.Event Choice → Prop} {P : Node → Prop} {bad : ExplorerError → Node → Prop} {method : String} {params : Json}
  {handler : Handler}

/-- A call of a method that answers with a value. -/
theorem ensures_value {good : Json → Node → Prop} (hnet : ∀ t, C t → Reliably reliable t)
    (hothers : ∀ t n, C t → P n → P (world.others n t.before)) (hmethod : rpcModule.lookup method = some handler)
    (hname : quotedBytes method ≤ 100) (hparams : params.Integral ∧ params.weight ≤ 200000)
    (hhandler : world.Ensures C P (handler params).run
      (Setting.OkThen (fun _ _ => False) fun value n => (value.Integral ∧ value.weight ≤ 300000) ∧ good value n))
    (hlost : ∀ message n, ¬ reliable → P n ∨ (∃ value, good value n) → bad (.rpc message) n) :
    world.Ensures C P (rpcCall config method params).run (Setting.OkThen bad good) := by
  have hlimit : 300100 ≤ maxRpcResponseBytes := by decide
  refine ensures_small (c := client config) hlimit hnet hothers hmethod hname hparams hhandler ?_
  intro outcome e n he hrel hn
  obtain ⟨message, rfl⟩ := Client.exists_of_rpcResult he
  exact hlost message n hrel hn

/-- A call of a method that answers with a printed number. -/
theorem ensures_quantity {good : U64 → Node → Prop} (hnet : ∀ t, C t → Reliably reliable t)
    (hothers : ∀ t n, C t → P n → P (world.others n t.before)) (hmethod : rpcModule.lookup method = some handler)
    (hname : quotedBytes method ≤ 100) (hparams : params.Integral ∧ params.weight ≤ 200000)
    (hhandler : world.Ensures C P (handler params).run (Setting.OkThen (fun _ _ => False)
      fun value n => ∃ number : U64, value = .string (hexText number.toNat) ∧ good number n))
    (hlost : ∀ message n, ¬ reliable → P n ∨ (∃ number, good number n) → bad (.rpc message) n) :
    world.Ensures C P (quantityCall config method params).run (Setting.OkThen bad good) := by
  refine ensures_number (c := client config) (show 300100 ≤ maxRpcResponseBytes by decide) (by decide)
    (fun n => (quotedBytes_u64 n).trans (by decide)) _ hnet hothers hmethod hname hparams hhandler ?_
  intro outcome e n he hrel hn
  obtain ⟨message, rfl⟩ := Client.exists_of_rpcResult he
  exact hlost message n hrel hn

end

omit [Ed25519] [Jsonrpsee] in
/-- A node of the store that shows its readers at least these blocks. -/
structure Shows (store : LedgerStore) (blocks : List Block) (n : Node) : Prop extends Holds store blocks n where
  published : blocks.length ≤ n.memory.blockHeight.toNat

omit [Ed25519] [Jsonrpsee] in
theorem Shows.others {blocks : List Block} {n : Node} (h : Shows store blocks n) (events : List RpcState.Event) :
    Shows store blocks (world.others n events) :=
  Setting.others_invariant (D := fun _ => True)
    (fun n e _ (h : Shows store blocks n) => ⟨⟨(h.stage.keeps e).1, h.chain.trans (h.stage.keeps e).2⟩,
      h.published.trans (h.stage.blockHeight_le e)⟩) h fun _ _ => trivial

/-- The height: there is a chain of that length, which goes on from what the node has shown before. -/
theorem ensures_height (start : List Block) :
    world.Ensures (Reliably reliable) (Shows store start) (quantityCall config "eth_blockNumber" (.array [])).run
      (Setting.OkThen (Unreached reliable) fun height n =>
        ∃ chain, start <+: chain ∧ chain.length = height.toNat ∧ Holds store chain n) := by
  refine ensures_quantity config (fun _ ht => ht) (fun t n _ hn => hn.others t.before) rfl (by decide +kernel)
    ⟨by simp, by decide⟩ ?_ fun message n hrel _ => ⟨hrel, message, rfl⟩
  refine Setting.Ensures.andThen (M := fun height n => ∃ chain, start <+: chain ∧ chain.length = height.toNat ∧ Holds store chain n)
    (.access fun turn n _ hn => ?_) fun height => .pure fun n hn => ⟨height, rfl, hn⟩
  have hread := hn.others turn.before
  refine ⟨(world.others n turn.before).memory.blocks.take (world.others n turn.before).memory.blockHeight.toNat, ?_, ?_,
    hread.stage, List.take_prefix ..⟩
  · exact List.prefix_take_iff.mpr ⟨hread.chain, hread.published⟩
  · rw [List.length_take, Nat.min_eq_left hread.stage.coherent.height_le]
    rfl

/-- A block of the chain, by its number. -/
theorem ensures_block {chain : List Block} {number : U64} {block : Block} (hpos : 1 ≤ number.toNat)
    (hget : chain[number.toNat - 1]? = some block) :
    world.Ensures (Reliably reliable) (Holds store chain)
      (rpcCall config "eth_getBlockByNumber" (.array [.string (hexText number.toNat), .bool true])).run
      (Setting.OkThen (Unreached reliable) fun value n => value = blockJson block true ∧ Holds store chain n) := by
  have hinside : number.toNat - 1 < chain.length := (List.getElem?_eq_some_iff.mp hget).1
  have hparams : (Json.array [.string (hexText number.toNat), .bool true]).weight ≤ 200000 := by
    have := quotedBytes_u64 number
    simp only [Json.weight, Json.weightItems]
    omega
  refine ensures_value config (fun _ ht => ht) (fun t n _ hn => hn.others t.before) rfl (by decide +kernel)
    ⟨by simp, hparams⟩ ((ensures_readBlock chain (some number) true).weaken (fun _ h => h) ?_)
    fun message n hrel _ => ⟨hrel, message, rfl⟩
  rintro (e | value) n hn
  · exact hn
  obtain ⟨hsmall, hchain, hfound⟩ := hn
  refine ⟨hsmall, ?_, hchain⟩
  cases hfound with
  | none absent => rcases absent number rfl with hzero | hbeyond <;> omega
  | @found h block' _ here given =>
    -- the chain may have grown since, but the number is still in it
    rw [given number rfl] at here
    obtain ⟨more, hmore⟩ := hchain.chain
    have hsame := (blockAtHeight_eq_some.mp here).2
    rw [← hmore, List.getElem?_append_left hinside, hget] at hsame
    rw [Option.some.inj hsame]

/-! ## The loop -/

omit [Blake3] [Ed25519] [Jsonrpsee] in
/-- The blocks that the loop shows. -/
def shown (chain : List Block) (numbers : List U64) : List Block :=
  numbers.filterMap fun number => chain[number.toNat - 1]?

omit [Ed25519] [Jsonrpsee] in
/-- The transactions of shown blocks. -/
def transactionViews (blocks : List Block) : List TransactionView :=
  blocks.flatMap fun block => block.transactions.map (.ofTransaction block)

theorem ensures_walk {chain : List Block} {numbers : List U64}
    (hnumbers : ∀ number ∈ numbers, 1 ≤ number.toNat ∧ number.toNat ≤ chain.length) (blocks : List BlockView)
    (transactions : List TransactionView) :
    world.Ensures (Reliably reliable) (Holds store chain) (walk config numbers blocks transactions).run
      (Setting.OkThen (Unreached reliable) fun views n =>
        views = (blocks ++ (shown chain numbers).map .ofBlock, transactions ++ transactionViews (shown chain numbers)) ∧
          Holds store chain n) := by
  induction numbers generalizing blocks transactions with
  | nil => exact .pure fun n hn => ⟨by simp [shown, transactionViews], hn⟩
  | cons number numbers ih =>
    obtain ⟨⟨hpos, hle⟩, hnumbers⟩ := List.forall_mem_cons.mp hnumbers
    obtain ⟨block, hget⟩ : ∃ block, chain[number.toNat - 1]? = some block :=
      ⟨_, List.getElem?_eq_getElem (by omega)⟩
    have hshown : shown chain (number :: numbers) = block :: shown chain numbers := by simp [shown, hget]
    have hblocks : blocks ++ (shown chain (number :: numbers)).map .ofBlock =
        (blocks ++ [.ofBlock block]) ++ (shown chain numbers).map .ofBlock := by simp [hshown]
    have htransactions : transactions ++ transactionViews (shown chain (number :: numbers)) =
        (transactions ++ block.transactions.map (.ofTransaction block)) ++ transactionViews (shown chain numbers) := by
      simp [hshown, transactionViews]
    refine (ensures_block config hpos hget).andThen fun value => ?_
    rintro turns hturns n ⟨rfl, hn⟩
    have hrest := ih hnumbers (blocks ++ [.ofBlock block]) (transactions ++ block.transactions.map (.ofTransaction block))
      turns hturns n hn
    rw [← transactionViews_blockJson, ← blockView_blockJson number block] at hrest
    rw [hblocks, htransactions, ← transactionViews_blockJson, ← blockView_blockJson number block]
    exact hrest

omit [Blake3] [Ed25519] [Jsonrpsee] in
theorem mem_newestFirst {first : Nat} {height number : U64} (h : number ∈ newestFirst first height) :
    first ≤ number.toNat ∧ number.toNat ≤ height.toNat := by
  obtain ⟨i, hi, rfl⟩ := List.mem_map.mp (List.mem_reverse.mp h)
  have hbounds := List.mem_range'_1.mp hi
  have hheight := height.isLt
  rw [BitVec.toNat_ofNat, Nat.mod_eq_of_lt (by omega)]
  omega

omit [Blake3] [Ed25519] [Jsonrpsee] in
/-- Newest first, the numbers from `first` on are the end of the chain, turned round. -/
theorem shown_newestFirst {chain : List Block} {first : Nat} {height : U64} (hfirst : 1 ≤ first)
    (hchain : chain.length = height.toNat) : shown chain (newestFirst first height) = (chain.drop (first - 1)).reverse := by
  have hheight := height.isLt
  have hrange : ∀ (k start : Nat), 1 ≤ start → start + k = height.toNat + 1 →
      ((List.range' start k).map (BitVec.ofNat 64)).filterMap (fun number => chain[number.toNat - 1]?) =
        chain.drop (start - 1) := by
    intro k
    induction k with
    | zero =>
      intro start _ hend
      rw [List.drop_eq_nil_of_le (by omega)]
      rfl
    | succ k ih =>
      intro start hstart hend
      have hlt : start - 1 < chain.length := by omega
      have hnumber : (BitVec.ofNat 64 start).toNat = start := by
        rw [BitVec.toNat_ofNat, Nat.mod_eq_of_lt (by omega)]
      rw [List.range'_succ, List.map_cons, List.filterMap_cons, hnumber, List.getElem?_eq_getElem hlt,
        ih (start + 1) (by omega) (by omega), List.drop_eq_getElem_cons hlt]
      simp only [Nat.add_sub_cancel, Nat.sub_add_cancel hstart]
  rw [shown, newestFirst, List.filterMap_reverse]
  by_cases hle : first ≤ height.toNat + 1
  · rw [hrange _ first hfirst (by omega)]
  · rw [List.drop_eq_nil_of_le (by omega), show height.toNat + 1 - first = 0 by omega]
    rfl

/-! ## The snapshot -/

omit [Ed25519] [Jsonrpsee] in
/-- The newest twelve blocks, newest first. -/
def newest (chain : List Block) : List Block := (chain.drop (chain.length - maxBlocks.toNat)).reverse

omit [Ed25519] [Jsonrpsee] in
/-- What a snapshot of this chain shows. -/
structure Snapshot.Describes (snap : Snapshot) (chainId : ChainId) (chain : List Block) : Prop where
  chainId : snap.chainId = hexText chainId.toNat
  height : snap.height.toNat = chain.length
  latestHash : snap.latestHash = chain.getLast?.elim "" fun block => displayBytes block.hash.toList
  blocks : snap.blocks = (newest chain).map .ofBlock
  transactions : snap.transactions = transactionViews (newest chain)
  /-- Each block is the child of the one below it. -/
  linked : snap.blocks.IsChain fun newer older =>
    newer.parentHash = older.hash ∧ newer.number.toNat = older.number.toNat + 1

omit [Ed25519] [Jsonrpsee] in
theorem isChain_of_linked {chainId : ChainId} {index : Nat} {parent : Hash} {blocks : List Block}
    (h : Linked chainId index parent blocks) : blocks.IsChain fun older newer =>
      newer.header.parentHash = older.hash ∧ newer.header.height.toNat = older.header.height.toNat + 1 := by
  induction blocks generalizing index parent with
  | nil => exact .nil
  | cons block rest ih =>
    cases rest with
    | nil => exact .singleton _
    | cons next rest => exact .cons_cons ⟨h.2.1.parent_eq, by rw [h.2.1.height, h.1.height]⟩ (ih h.2)

omit [Ed25519] [Jsonrpsee] in
theorem linked_newest {chain : List Block} {chainId : ChainId} (h : Linked chainId 0 Hash.zero chain) :
    ((newest chain).map BlockView.ofBlock).IsChain fun newer older =>
      newer.parentHash = older.hash ∧ newer.number.toNat = older.number.toNat + 1 := by
  rw [newest, List.isChain_map, List.isChain_reverse]
  refine ((isChain_of_linked h).drop _).imp fun older newer hlink => ?_
  exact ⟨congrArg (fun hash : Hash => displayBytes hash.toList) hlink.1, hlink.2⟩

omit [Ed25519] [Jsonrpsee] in
theorem linked_front {chainId : ChainId} {index : Nat} {parent : Hash} {chain blocks : List Block}
    (h : Linked chainId index parent blocks) (hchain : chain <+: blocks) : Linked chainId index parent chain := by
  obtain ⟨more, rfl⟩ := hchain
  induction chain generalizing index parent with
  | nil => trivial
  | cons block rest ih => exact ⟨h.1, ih h.2⟩

theorem ensures_chainId (chain : List Block) :
    world.Ensures (Reliably reliable) (Holds store chain) (quantityCall config "eth_chainId" (.array [])).run
      (Setting.OkThen (Unreached reliable) fun chainId n => chainId = store.chainId ∧ Holds store chain n) := by
  refine ensures_quantity config (fun _ ht => ht) (fun t n _ hn => hn.others t.before) rfl (by decide +kernel)
    ⟨by simp, by decide⟩ ?_ fun message n hrel _ => ⟨hrel, message, rfl⟩
  refine Setting.Ensures.andThen (M := fun chainId n => chainId = store.chainId ∧ Holds store chain n)
    (.access fun turn n _ hn => ?_) fun chainId => .pure fun n hn => ⟨chainId, rfl, hn⟩
  have hread := hn.others turn.before
  exact ⟨hread.stage.chainId, hread⟩

/-- A snapshot shows a chain that goes on from what the node showed when it began. -/
theorem ensures_snapshot (start : List Block) :
    world.Ensures (Reliably reliable) (Shows store start) (snapshot config).run
      (Setting.OkThen (Unreached reliable) fun snap n =>
        ∃ chain, start <+: chain ∧ chain <+: n.memory.blocks ∧ snap.Describes store.chainId chain) := by
  refine (ensures_height config start).andThen fun height => ?_
  rintro turns hturns n ⟨chain, hstart, hlength, hn⟩
  refine (?_ : world.Ensures (Reliably reliable) (Holds store chain) _ _) turns hturns n hn
  clear hn n hturns turns
  have hbound : (saturatingSub height (saturatingSub maxBlocks 1)).toNat = height.toNat - 11 := by
    rw [toNat_saturatingSub, toNat_saturatingSub]
    rfl
  have hshown : shown chain (newestFirst (max (saturatingSub height (saturatingSub maxBlocks 1)).toNat 1) height) =
      newest chain := by
    rw [shown_newestFirst (Nat.le_max_right ..) hlength, newest, hbound, hlength, show maxBlocks.toNat = 12 from rfl,
      show max (height.toNat - 11) 1 - 1 = height.toNat - 12 by omega]
  refine Setting.Ensures.andThen (ensures_walk config (fun number hnumber => ?_) [] []) ?_
  · have hmem := mem_newestFirst hnumber
    omega
  rintro ⟨blocks, transactions⟩
  refine Setting.Ensures.andThen
    (M := fun chainId n => chainId = store.chainId ∧ blocks = (newest chain).map .ofBlock ∧
      transactions = transactionViews (newest chain) ∧ Holds store chain n) ?_ fun chainId => .pure ?_
  · rintro turns hturns n ⟨hviews, hn⟩
    rw [hshown] at hviews
    obtain ⟨hblocks, htransactions⟩ := Prod.mk.inj hviews
    refine Setting.Ensures.weaken (ensures_chainId config chain) (fun _ h => h) ?_ turns hturns n hn
    rintro (e | chainId) n' hn'
    · exact hn'
    · exact ⟨hn'.1, hblocks, htransactions, hn'.2⟩
  · rintro n ⟨rfl, rfl, rfl, hn⟩
    obtain ⟨l, hwf, hblocks⟩ := hn.stage.wf
    refine ⟨chain, hstart, hn.chain, rfl, hlength.symm, ?_, rfl, rfl,
      linked_newest (linked_front hwf.linked (hblocks ▸ hn.chain))⟩
    dsimp only
    rw [newest, List.head?_map, List.head?_reverse, List.getLast?_drop]
    by_cases hempty : chain = []
    · rw [hempty]
      rfl
    · have hpos := List.length_pos_iff.mpr hempty
      rw [if_neg (by have : maxBlocks.toNat = 12 := rfl; omega)]
      cases chain.getLast? <;> rfl

end

/-- **The dashboard is one chain at one moment.** Whatever the node commits between the requests of a snapshot, and
whatever the network does: a snapshot that is returned shows the newest blocks of one chain, each the child of the one
below it, with all their transactions; that chain goes on from what the node had when the snapshot began, and the node
has it when the snapshot ends. It fails only with an RPC error, and only if some answer did not get through. -/
theorem snapshot_consistent (store : LedgerStore) (ops : List RpcOp) (turns : Nat → Turn RpcState.Event Choice) :
    let start : Node := .quiet (final step (fresh store, emptyDisk) ops)
    let (result, n) := world.exec (snapshot config).run turns start
    (∀ e, result = .error e → (∃ message, e = .rpc message) ∧ ∃ i, ∀ d, (turns i).choice.fate ≠ .answered d) ∧
    ∀ snap, result = .ok snap →
      ∃ chain, start.memory.blocks <+: chain ∧ chain <+: n.memory.blocks ∧ snap.Describes store.chainId chain := by
  intro start
  have hsane := sane_run store ops
  have hshows : Shows store start.memory.blocks start :=
    ⟨⟨stage_run store ops, List.prefix_rfl⟩,
      ((congrArg BitVec.toNat hsane.height).trans (lastHeight_toNat hsane.wf.linked)).ge⟩
  have hensures : world.Ensures (Reliably (∀ i, ∃ d, (turns i).choice.fate = .answered d)) (Shows store start.memory.blocks)
      (snapshot config).run _ := ensures_snapshot config start.memory.blocks
  have hrun := hensures turns (fun i h => h i) start hshows
  generalize world.exec (snapshot config).run turns start = result at hrun ⊢
  obtain ⟨e | snap, n⟩ := result
  · obtain ⟨hlost, herror⟩ := hrun
    refine ⟨?_, nofun⟩
    rintro _ ⟨⟩
    exact ⟨herror, by simpa using hlost⟩
  · refine ⟨nofun, ?_⟩
    rintro _ ⟨⟩
    exact hrun

end
end Explorer
end Subhost
