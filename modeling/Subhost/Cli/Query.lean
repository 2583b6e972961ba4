import Subhost.Cli.Send
/-!
# Asking from the command line (subhost-cli/src/main.rs:578-630)

`query` is `handle_query`, with what it prints as data. A balance, a nonce and the two numbers of `query chain` are read
from a node that goes on committing; a block takes two reads of the node, its count of blocks and the block itself.

`queries_truthful`: what a query prints is what the node has at that moment. It fails only because of its address,
because there is no such block, or because of the network; and a block that the node had before is never missing.
-/
namespace Subhost
open Uint Bincode Run Program JsonText RpcState

namespace Cli

/-- `QueryCommands` (main.rs:185). -/
inductive Query where
  | balance (address : String)
  | nonce (address : String)
  | block (height : Option U64) (full : Bool)
  | chain

/-- What is printed. -/
inductive Answer where
  | balance (address : Address) (balance : Amount)
  | nonce (address : Address) (nonce : U64)
  | block (value : Json)
  | chain (chainId height : U64)

section
variable [Blake3] [Ed25519] [Jsonrpsee]

/-- `amount(&rpc_call_value(..).await?).context(..)`. -/
def amountCall (rpcUrl method : String) (params : Json) (context : String) : ExceptT CliError (Prog Act) Amount := do
  let value ← rpcCallValue rpcUrl method params
  Prog.attempt ((numberIn 128 value).elim (.error (.message context)) .ok)

/-- `handle_query` (main.rs:578). -/
def query (rpcUrl : String) : Query → ExceptT CliError (Prog Act) Answer
  | .balance text => do
    let address ← Prog.attempt (parseAddressAs CliError.message text)
    let balance ← amountCall rpcUrl "eth_getBalance" (.array [.string (displayBytes address.toList), .string "latest"])
      "node returned an invalid balance"
    return .balance address balance
  | .nonce text => do
    let address ← Prog.attempt (parseAddressAs CliError.message text)
    let nonce ← quantityCall rpcUrl "eth_getTransactionCount"
      (.array [.string (displayBytes address.toList), .string "latest"]) "node returned an invalid nonce"
    return .nonce address nonce
  | .block height full => do
    match ← rpcCallValue rpcUrl "eth_getBlockByNumber" (.array [.string (blockTag height), .bool full]) with
    | .null => Prog.attempt (.error (.message "no such block"))
    | block => return .block block
  | .chain => do
    let chainId ← quantityCall rpcUrl "eth_chainId" (.array []) "node returned an invalid chain ID"
    let height ← quantityCall rpcUrl "eth_blockNumber" (.array []) "node returned an invalid height"
    return .chain chainId height

omit [Ed25519] [Jsonrpsee] in
/-- What an answer says of the node, if the node had these blocks before. -/
inductive Truthful (blocks : List Block) (reliable : Prop) : Query → Except CliError Answer → Node → Prop where
  | balance {text : String} {a : Address} {n : Node} (named : parseAddressAs CliError.message text = .ok a) :
      Truthful blocks reliable (.balance text) (.ok (.balance a (n.memory.state.balance a))) n
  | nonce {text : String} {a : Address} {n : Node} (named : parseAddressAs CliError.message text = .ok a) :
      Truthful blocks reliable (.nonce text) (.ok (.nonce a (n.memory.state.nonce a))) n
  | chain {n : Node} : Truthful blocks reliable .chain (.ok (.chain n.memory.chainId n.memory.blockHeight)) n
  | block {height : Option U64} {full : Bool} {value : Json} {n : Node} (found : FoundBlock blocks height full value n)
      (some : value ≠ .null) : Truthful blocks reliable (.block height full) (.ok (.block value)) n
  | noBlock {height : Option U64} {full : Bool} {n : Node} (found : FoundBlock blocks height full .null n) :
      Truthful blocks reliable (.block height full) (.error (.message "no such block")) n
  | misnamed {text : String} {q : Query} {e : CliError} {n : Node} (asks : q = .balance text ∨ q = .nonce text)
      (named : parseAddressAs CliError.message text = .error e) : Truthful blocks reliable q (.error e) n
  | lost {q : Query} {e : CliError} {n : Node} (unreliable : ¬ reliable) : Truthful blocks reliable q (.error e) n

section
variable {store : LedgerStore} {blocks : List Block} {reliable : Prop}

omit [Ed25519] [Jsonrpsee] in
theorem holds_others (turn : Turn RpcState.Event Choice) (n : Node) (_ : Reliably reliable turn) (h : Holds store blocks n) :
    Holds store blocks (world.others n turn.before) := h.others turn.before

omit [Ed25519] [Jsonrpsee] in
/-- A reader's answer with the state it was read from. -/
theorem exists_number {w : Nat} {f : Node → BitVec w} {r : Except RpcError Json} {n : Node}
    (h : Setting.OkThen (fun _ _ => False) (fun value n => value = .string (hexText (f n).toNat) ∧ Holds store blocks n) r n) :
    Setting.OkThen (fun _ _ => False)
      (fun value n => ∃ number : BitVec w, value = .string (hexText number.toNat) ∧ number = f n ∧ Holds store blocks n) r n := by
  cases r with
  | error e => exact h
  | ok value => exact ⟨_, h.1, rfl, h.2⟩

omit [Ed25519] [Jsonrpsee] in
/-- The address of a query. -/
theorem ensures_named_by {text : String} {q : Query} (hq : q = .balance text ∨ q = .nonce text)
    {f : Address → ExceptT CliError (Prog Act) Answer}
    (hf : ∀ a, parseAddressAs CliError.message text = .ok a →
      world.Ensures (Reliably reliable) (Holds store blocks) (f a).run (Truthful blocks reliable q)) :
    world.Ensures (Reliably reliable) (Holds store blocks)
      (do let a ← Prog.attempt (parseAddressAs CliError.message text); f a : ExceptT CliError (Prog Act) Answer).run
      (Truthful blocks reliable q) := by
  cases hnamed : parseAddressAs CliError.message text with
  | error e => exact .done fun n hn => .misnamed hq hnamed
  | ok a => exact hf a hnamed

omit [Ed25519] [Jsonrpsee] in
/-- A query that fails only because of the network. -/
theorem ensures_answer {q : Query} {p : ExceptT CliError (Prog Act) Answer} {good : Answer → Node → Prop}
    (h : world.Ensures (Reliably reliable) (Holds store blocks) p.run (Setting.OkThen (fun _ _ => ¬ reliable) good))
    (hgood : ∀ answer n, good answer n → Truthful blocks reliable q (.ok answer) n) :
    world.Ensures (Reliably reliable) (Holds store blocks) p.run (Truthful blocks reliable q) := by
  refine h.weaken (fun _ h => h) ?_
  rintro (e | answer) n hn
  · exact .lost hn
  · exact hgood answer n hn

/-- A number that a method reads from the node's memory. -/
theorem ensures_readNumber {f : Node → U64} {rpcUrl method context : String} {params : Json} {handler : Handler}
    (hmethod : rpcModule.lookup method = some handler) (hname : quotedBytes method ≤ 100)
    (hparams : params.Integral ∧ params.weight ≤ 200000)
    (hhandler : world.Ensures (Reliably reliable) (Holds store blocks) (handler params).run
      (Setting.OkThen (fun _ _ => False) fun value n => value = .string (hexText (f n).toNat) ∧ Holds store blocks n)) :
    world.Ensures (Reliably reliable) (Holds store blocks) (quantityCall rpcUrl method params context).run
      (Setting.OkThen (fun _ _ => ¬ reliable) fun number n => number = f n ∧ Holds store blocks n) :=
  ensures_quantity (fun _ ht => ht) holds_others hmethod hname hparams (hhandler.weaken (fun _ h => h) fun _ _ => exists_number)
    fun _ _ hrel _ => hrel

theorem ensures_balance {rpcUrl : String} (a : Address) :
    world.Ensures (Reliably reliable) (Holds store blocks)
      (amountCall rpcUrl "eth_getBalance" (.array [.string (displayBytes a.toList), .string "latest"])
        "node returned an invalid balance").run
      (Setting.OkThen (fun _ _ => ¬ reliable) fun number n => number = n.memory.state.balance a ∧ Holds store blocks n) :=
  ensures_number (c := client rpcUrl) (show 300100 ≤ maxRpcResponseBytes by decide) (by decide)
    (fun n => (quotedBytes_u128 n).trans (by decide)) _ (fun _ ht => ht) holds_others rfl (by decide +kernel) (small_addressed a)
    ((ensures_readBalance holds_others a).weaken (fun _ h => h) fun _ _ => exists_number) fun _ _ _ _ hrel _ => hrel

omit [Blake3] [Ed25519] [Jsonrpsee] in
theorem small_blockTag (height : Option U64) (full : Bool) :
    (Json.array [.string (blockTag height), .bool full]).Integral ∧
      (Json.array [.string (blockTag height), .bool full]).weight ≤ 200000 := by
  have htag : quotedBytes (blockTag height) ≤ 20 := by
    cases height with
    | none => decide +kernel
    | some h => exact quotedBytes_u64 h
  refine ⟨by simp, ?_⟩
  simp only [Json.weight, Json.weightItems]
  omega

theorem ensures_blockQuery (rpcUrl : String) (height : Option U64) (full : Bool) :
    world.Ensures (Reliably reliable) (Holds store blocks) (query rpcUrl (.block height full)).run
      (Truthful blocks reliable (.block height full)) := by
  have hcall : world.Ensures (Reliably reliable) (Holds store blocks)
      (rpcCallValue rpcUrl "eth_getBlockByNumber" (.array [.string (blockTag height), .bool full])).run
      (Setting.OkThen (fun _ _ => ¬ reliable) fun value n => Holds store blocks n ∧ FoundBlock blocks height full value n) :=
    ensures_small (c := client rpcUrl) (show 300100 ≤ maxRpcResponseBytes by decide) (fun _ ht => ht) holds_others rfl
      (by decide +kernel) (small_blockTag height full) (ensures_readBlock blocks height full) fun _ _ _ _ hrel _ => hrel
  refine Setting.Ensures.bind hcall ?_
  rintro (e | value)
  · exact .done fun n hrel => .lost hrel
  · cases value with
    | null => exact .done fun n hn => .noBlock hn.2
    | bool | number | string | array | object => exact .done fun n hn => .block hn.2 nofun

theorem ensures_query (rpcUrl : String) (q : Query) :
    world.Ensures (Reliably reliable) (Holds store blocks) (query rpcUrl q).run (Truthful blocks reliable q) := by
  cases q with
  | balance text =>
    refine ensures_named_by (.inl rfl) fun a ha => ensures_answer ((ensures_balance a).andThen fun balance => .pure
      (Q := fun answer (n : Node) => answer = Answer.balance a (n.memory.state.balance a)) ?_) ?_
    · rintro n ⟨rfl, -⟩
      rfl
    · rintro _ n rfl
      exact .balance ha
  | nonce text =>
    refine ensures_named_by (.inr rfl) fun a ha => ensures_answer ((ensures_readNumber rfl (by decide +kernel)
      (small_addressed a) (ensures_readNonce holds_others a)).andThen fun nonce => .pure
        (Q := fun answer (n : Node) => answer = Answer.nonce a (n.memory.state.nonce a)) ?_) ?_
    · rintro n ⟨rfl, -⟩
      rfl
    · rintro _ n rfl
      exact .nonce ha
  | block height full => exact ensures_blockQuery rpcUrl height full
  | chain =>
    have hchain : world.Ensures (Reliably reliable) (Holds store blocks)
        (quantityCall rpcUrl "eth_chainId" (.array []) "node returned an invalid chain ID").run
        (Setting.OkThen (fun _ _ => ¬ reliable) fun number n => number = n.memory.chainId ∧ Holds store blocks n) :=
      ensures_readNumber rfl (by decide +kernel) ⟨by simp, by decide⟩ (ensures_readChainId holds_others _)
    have hheight : world.Ensures (Reliably reliable) (Holds store blocks)
        (quantityCall rpcUrl "eth_blockNumber" (.array []) "node returned an invalid height").run
        (Setting.OkThen (fun _ _ => ¬ reliable) fun number n => number = n.memory.blockHeight ∧ Holds store blocks n) :=
      ensures_readNumber rfl (by decide +kernel) ⟨by simp, by decide⟩ (ensures_readHeight holds_others _)
    -- the chain id is that of the store all the time
    have hboth : world.Ensures (Reliably reliable) (Holds store blocks) (query rpcUrl .chain).run
        (Setting.OkThen (fun _ _ => ¬ reliable) fun answer n => answer = .chain n.memory.chainId n.memory.blockHeight) := by
      refine Setting.Ensures.andThen (M := fun chainId n => chainId = store.chainId ∧ Holds store blocks n)
        (hchain.weaken (fun _ h => h) ?_) fun chainId => .assume ?_
      · rintro (e | number) n hn
        · exact hn
        · exact ⟨hn.1.trans hn.2.stage.chainId, hn.2⟩
      · rintro rfl
        refine hheight.andThen fun height => .pure ?_
        rintro n ⟨rfl, hn⟩
        rw [hn.stage.chainId]
    refine ensures_answer hboth ?_
    rintro _ n rfl
    exact .chain

end

/-- **What a query prints is so.** On any node that a run leads to, while others commit as they like and the network may
fail, every query prints what the node has when it is answered: the balance, the nonce, the chain id and the height, the
block of that height, or one that is not older than the newest was at the beginning. It fails only because of the
network, an address that is none, or a block that the node did not have at the beginning. -/
theorem queries_truthful (store : LedgerStore) (ops : List RpcOp) (rpcUrl : String) (q : Query)
    (turns : Nat → Turn RpcState.Event Choice) :
    let start : Node := .quiet (final step (fresh store, emptyDisk) ops)
    let outcome := world.exec (query rpcUrl q).run turns start
    Truthful start.memory.blocks (∀ i, ∃ d, (turns i).choice.fate = .answered d) q outcome.1 outcome.2 := by
  intro start outcome
  have hensures : world.Ensures (Reliably (∀ i, ∃ d, (turns i).choice.fate = .answered d))
      (Holds store start.memory.blocks) (query rpcUrl q).run _ := ensures_query rpcUrl q
  exact hensures turns (fun i h => h i) start ⟨stage_run store ops, List.prefix_rfl⟩

end
end Cli
end Subhost
