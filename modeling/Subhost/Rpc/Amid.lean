import Subhost.Rpc.ReplySize
/-!
# What a client can rely on (subhost-rpc/src/lib.rs:217-339, :675-694)

A client makes several requests, and no lock of the node spans them: in between others commit, block by block and write
by write, and each request finds the views as they are then. `Amid store R n` says that the property `R` of the ledger
holds all the time: of the ledger at rest, and of both ledgers of a swap under way, so that it holds of whatever view a
reader gets. `Tolerates D R` says that nothing others do of the kind `D` takes `R` away; then `Amid` is an invariant
(`Amid.others`).

Between calls a node's pool is empty (`pool_empty_run`), so that a submission does nothing or extends the ledger by its
transaction (`submits_of_empty`). `ensures_send` is `eth_sendTransaction` under such an invariant.
-/
namespace Subhost
open Uint Bincode Run Program JsonText RpcState

section
variable [Blake3]

/-! ## Reading

A method that reads answers with what the node has when it reads, and nothing happens after that. -/

section
variable {C : Turn RpcState.Event Choice → Prop} {P : Node → Prop} (hothers : ∀ t n, C t → P n → P (world.others n t.before))

include hothers

theorem ensures_readChainId (params : Json) :
    world.Ensures C P (ethChainId params).run
      (Setting.OkThen (fun _ _ => False) fun value n => value = .string (hexText n.memory.chainId.toNat) ∧ P n) := by
  refine Setting.Ensures.andThen (M := fun chainId n => chainId = n.memory.chainId ∧ P n)
    (.access fun turn n hturn hn => ⟨rfl, hothers turn n hturn hn⟩) fun chainId => .pure ?_
  rintro n ⟨rfl, hn⟩
  exact ⟨rfl, hn⟩

theorem ensures_readHeight (params : Json) :
    world.Ensures C P (ethBlockNumber params).run
      (Setting.OkThen (fun _ _ => False) fun value n => value = .string (hexText n.memory.blockHeight.toNat) ∧ P n) := by
  refine Setting.Ensures.andThen (M := fun height n => height = n.memory.blockHeight ∧ P n)
    (.access fun turn n hturn hn => ⟨rfl, hothers turn n hturn hn⟩) fun height => .pure ?_
  rintro n ⟨rfl, hn⟩
  exact ⟨rfl, hn⟩

omit hothers in
/-- The request names an account. -/
theorem ensures_named {a : Address} {f : Address → ExceptT RpcError (Prog Act) Json} {Q : Except RpcError Json → Node → Prop}
    (hf : world.Ensures C P (f a).run Q) :
    world.Ensures C P
      (do let text ← Prog.attempt (nextString (.array [.string (displayBytes a.toList), .string "latest"]))
          let address ← Prog.attempt (parseAddress text)
          f address : ExceptT RpcError (Prog Act) Json).run Q := by
  have hrun : (do let text ← Prog.attempt (nextString (.array [.string (displayBytes a.toList), .string "latest"]))
                  let address ← Prog.attempt (parseAddress text)
                  f address : ExceptT RpcError (Prog Act) Json).run = (f a).run := by
    show (do let address ← Prog.attempt (parseAddress (displayBytes a.toList)); f address :
      ExceptT RpcError (Prog Act) Json).run = _
    rw [parseAddress_display]
    rfl
  rw [hrun]
  exact hf

theorem ensures_readBalance (a : Address) :
    world.Ensures C P (ethGetBalance (.array [.string (displayBytes a.toList), .string "latest"])).run
      (Setting.OkThen (fun _ _ => False) fun value n => value = .string (hexText (n.memory.state.balance a).toNat) ∧ P n) := by
  refine ensures_named (Setting.Ensures.andThen (M := fun balance n => balance = n.memory.state.balance a ∧ P n)
    (.access fun turn n hturn hn => ⟨rfl, hothers turn n hturn hn⟩) fun balance => .pure ?_)
  rintro n ⟨rfl, hn⟩
  exact ⟨rfl, hn⟩

theorem ensures_readNonce (a : Address) :
    world.Ensures C P (ethGetTransactionCount (.array [.string (displayBytes a.toList), .string "latest"])).run
      (Setting.OkThen (fun _ _ => False) fun value n => value = .string (hexText (n.memory.state.nonce a).toNat) ∧ P n) := by
  refine ensures_named (Setting.Ensures.andThen (M := fun nonce n => nonce = n.memory.state.nonce a ∧ P n)
    (.access fun turn n hturn hn => ⟨rfl, hothers turn n hturn hn⟩) fun nonce => .pure ?_)
  rintro n ⟨rfl, hn⟩
  exact ⟨rfl, hn⟩

end

/-- The tag that a client asks for: a height, or the newest block. -/
def blockTag (height : Option U64) : String := height.elim "latest" fun height => hexText height.toNat

/-- What is answered to it, on a node that had these blocks: the block of that height, or one that is not older than the
newest of these; nothing only if there was none. -/
inductive FoundBlock (blocks : List Block) (height : Option U64) (full : Bool) : Json → Node → Prop where
  | found {h : U64} {block : Block} {n : Node} (here : n.memory.blockAtHeight h = some block)
      (given : ∀ g, height = some g → h = g) (newest : height = none → blocks.length ≤ h.toNat) :
      FoundBlock blocks height full (blockJson block full) n
  | none {n : Node} (absent : ∀ g, height = some g → g.toNat = 0 ∨ blocks.length < g.toNat)
      (empty : height = none → blocks = []) : FoundBlock blocks height full .null n

/-- A node's blocks can be counted in 64 bits. -/
theorem toNat_blockCount {store : LedgerStore} {n : Node} (h : Stage store n) :
    (BitVec.ofNat 64 n.memory.blockCount).toNat = n.memory.blocks.length := by
  obtain ⟨l, hwf, hblocks⟩ := h.wf
  have hlength := lastHeight_toNat hwf.linked
  rw [hblocks] at hlength
  rw [blockCount, ← hlength, BitVec.ofNat_toNat, BitVec.setWidth_eq]

omit [Blake3] in
/-- The height that a client's tag stands for. -/
theorem resolve_blockTag (height : Option U64) (count : U64) :
    resolveBlockHeight (blockTag height) count = .ok (heightInChain count (height.getD count)) := by
  refine resolveBlockHeight_of_designates ?_
  cases height with
  | none => exact .inl ⟨by simp [blockTag], rfl⟩
  | some h => exact .inr (.inr (hexNumber_hexText h 0))

/-- **A block**: the count and the block are two reads, between which the chain may grow. -/
theorem ensures_readBlock {C : Turn RpcState.Event Choice → Prop} {store : LedgerStore} (blocks : List Block) (height : Option U64)
    (full : Bool) :
    world.Ensures C (Holds store blocks) (ethGetBlockByNumber (.array [.string (blockTag height), .bool full])).run
      (Setting.OkThen (fun _ _ => False) fun value n =>
        (value.Integral ∧ value.weight ≤ 300000) ∧ Holds store blocks n ∧ FoundBlock blocks height full value n) := by
  refine Setting.Ensures.andThen (M := fun request n => request = (blockTag height, full) ∧ Holds store blocks n)
    (.attempt fun n hn => ⟨rfl, hn⟩) fun request => .assume ?_
  rintro rfl
  refine Setting.Ensures.andThen
    (M := fun count n => ∃ chain, (BitVec.ofNat 64 count).toNat = chain.length ∧ blocks <+: chain ∧ Holds store chain n)
    (.access fun turn n _ hn => ?_) fun count => ?_
  · have hread := hn.others turn.before
    exact ⟨_, toNat_blockCount hread.stage, hread.chain, hread.stage, List.prefix_rfl⟩
  rintro turns hturns n ⟨chain, hcount, hprefix, hn⟩
  have hlength := hprefix.length_le
  have hpast : ∀ {n}, Holds store chain n → Holds store blocks n := fun h => ⟨h.stage, hprefix.trans h.chain⟩
  rw [resolve_blockTag, heightInChain]
  generalize htarget : height.getD (BitVec.ofNat 64 count) = target
  split
  · rename_i hinside
    have hread : world.Ensures C (Holds store chain)
        (do return (← Prog.access (.blockAtHeight target)).elim .null fun block => blockJson block full :
          ExceptT RpcError (Prog Act) Json).run (Setting.OkThen (fun _ _ => False) fun value n =>
            (value.Integral ∧ value.weight ≤ 300000) ∧ Holds store blocks n ∧ FoundBlock blocks height full value n) := by
      refine Setting.Ensures.andThen (M := fun found n => ∃ block, found = some block ∧
        n.memory.blockAtHeight target = some block ∧ Holds store chain n) (.access fun turn n _ hn => ?_) fun found => .pure ?_
      · have hlater := hn.others turn.before
        have hlt : target.toNat - 1 < (world.others n turn.before).memory.blocks.length := by
          have := hlater.chain.length_le
          omega
        have hhere := blockAtHeight_eq_some.mpr ⟨hinside.1, List.getElem?_eq_getElem hlt⟩
        exact ⟨_, hhere, hhere, hlater⟩
      · rintro n ⟨block, rfl, hhere, hn⟩
        have hmodest := hn.stage.modest (List.mem_of_getElem? (blockAtHeight_eq_some.mp hhere).2)
        refine ⟨⟨integral_blockJson block full, (weight_blockJson hmodest full).trans (by decide)⟩, hpast hn, .found hhere ?_ ?_⟩
        · rintro g rfl
          exact htarget.symm
        · rintro rfl
          obtain rfl : BitVec.ofNat 64 count = target := htarget
          omega
    exact hread turns hturns n hn
  · rename_i hoff
    refine ⟨small_null, hpast hn, .none ?_ ?_⟩
    · rintro g rfl
      obtain rfl : g = target := htarget
      omega
    · rintro rfl
      obtain rfl : BitVec.ofNat 64 count = target := htarget
      exact List.length_eq_zero_iff.mp (by omega)

/-! ## The pool between calls -/

/-- With nothing in the pool, a submission changes nothing or adds its transaction and leaves the pool empty again. -/
theorem submits_of_empty {s : RpcState} (hpool : s.mempool = Mempool.default) (d : Disk) (tx : Transaction) (now : Timestamp)
    (fault : Option Fault) :
    (∃ e, (s.submitTransaction d tx now fault).1 = .error e ∧ (s.submitTransaction d tx now fault).2.1 = s) ∨
    ∃ (fee : Amount) (c : Sealed), (s.submitTransaction d tx now fault).1 = .ok tx.hash ∧
      (s.submitTransaction d tx now fault).2.1.mempool = Mempool.default ∧
      (s.submitTransaction d tx now fault).2.1.ledger = s.ledger.extend tx c.state c.block ∧
      s.state.applyTransaction tx = (.ok fee, c.state) ∧ c.block.transactions = [tx] := by
  have hsame : ∀ t, s.mempool.get tx.hash = some t → t = tx := by
    rw [hpool]
    simp [Mempool.default, Mempool.get]
  have hsubmits := submitTransaction_submits (hpool ▸ Mempool.consistent_default) hsame d now fault
  generalize s.submitTransaction d tx now fault = outcome at hsubmits ⊢
  obtain ⟨r, s', d'⟩ := outcome
  cases hsubmits with
  | failed e => exact .inl ⟨e, rfl, rfl⟩
  | @committed admission q fee c admitted executed block receipt =>
    rw [hpool] at admitted
    refine .inr ⟨fee, c, rfl, commit_empty admitted, ?_, executed, block⟩
    show (⟨c.state, s.blocks ++ [c.block], s.receipts.insert tx.hash c.receipt⟩ : Ledger) = _
    rw [receipt]
    rfl

/-- With nothing in the pool there is nothing to include. -/
theorem prepareBlock_of_empty {s : RpcState} (hpool : s.mempool = Mempool.default) (txHash : Hash) (now : Timestamp) :
    s.prepareBlock txHash now = .error .invalidTxHash := by
  rw [prepareBlock, hpool]
  simp [Mempool.default, Mempool.get]

theorem seedAccounts_mempool (s : RpcState) (d : Disk) (allocations : List (Address × Amount)) (fault : Option Fault) :
    (s.seedAccounts d allocations fault).2.1.mempool = s.mempool := by
  unfold seedAccounts
  dsimp only
  split <;> rfl

/-- No call leaves anything in the pool. -/
theorem pool_empty_run (store : LedgerStore) (ops : List RpcOp) :
    (final RpcState.step (fresh store, emptyDisk) ops).1.mempool = Mempool.default := by
  refine final_invariant RpcState.step (fun w => w.1.mempool = Mempool.default) ?_ rfl ops
  intro w op hpool
  cases op with
  | seed allocations fault => exact (seedAccounts_mempool w.1 w.2 allocations fault).trans hpool
  | submit tx now fault =>
    show (w.1.submitTransaction w.2 tx now fault).2.1.mempool = _
    rcases submits_of_empty hpool w.2 tx now fault with ⟨e, -, hs⟩ | ⟨fee, c, -, hempty, -⟩
    · rw [hs, hpool]
    · exact hempty
  | includeTx txHash now fault =>
    show (w.1.sealNextBlock w.2 txHash now fault).2.1.mempool = _
    rw [sealNextBlock, prepareBlock_of_empty hpool]
    exact hpool
  | reopen fault =>
    rw [step]
    cases hopened : withStore w.1.store w.2 fault with
    | error e => exact hpool
    | ok s =>
      unfold withStore at hopened
      split at hopened <;> cases hopened
      rfl

/-! ## A property of the ledger -/

/-- The property holds of the ledger, at rest with an empty pool or on both sides of a swap. -/
inductive Amid (store : LedgerStore) (R : Ledger → Prop) : Node → Prop where
  | idle {s : RpcState} {d : Disk} (sane : Sane store (s, d)) (pool : s.mempool = Mempool.default) (holds : R s.ledger) :
      Amid store R ⟨s, d, []⟩
  | swap {base : RpcState} {d : Disk} {txHash : Hash} {c : Sealed} (k : Nat) (hk : k < 5)
      (before : Sane store (base, d)) (after : Sane store (base.commitBlock txHash c, d))
      (pool : (base.commitBlock txHash c).mempool = Mempool.default) (holds : R base.ledger)
      (holds' : R (base.commitBlock txHash c).ledger) :
      Amid store R ⟨((base.publication txHash c).take k).foldl MemWrite.run base, d, (base.publication txHash c).drop k⟩

/-- What others do of the kind `D` does not take the property away. -/
structure Tolerates (D : RpcState.Event → Prop) (R : Ledger → Prop) : Prop where
  seeded : ∀ l op, D (.seed op) → R l → R (l.seed op.allocations)
  committed : ∀ l tx now fault fee state block, D (.commit (.submit tx now fault)) → R l →
    l.state.applyTransaction tx = (.ok fee, state) → block.transactions = [tx] → R (l.extend tx state block)

variable {store : LedgerStore} {D : RpcState.Event → Prop} {R : Ledger → Prop} {n : Node}

theorem amid_run (ops : List RpcOp) (h : R (final RpcState.step (fresh store, emptyDisk) ops).1.ledger) :
    Amid store R (.quiet (final RpcState.step (fresh store, emptyDisk) ops)) :=
  .idle (sane_run store ops) (pool_empty_run store ops) h

namespace Amid

theorem mono {R' : Ledger → Prop} (h : Amid store R n) (hR : ∀ l, R l → R' l) : Amid store R' n := by
  cases h with
  | idle sane pool holds => exact .idle sane pool (hR _ holds)
  | swap k hk before after pool holds holds' => exact .swap k hk before after pool (hR _ holds) (hR _ holds')

theorem stage (h : Amid store R n) : Stage store n := by
  cases h with
  | idle sane => exact .idle sane
  | swap k hk before after => exact .swap k hk before after

/-! What a reader of one of the views finds. -/

theorem state (h : Amid store R n) : ∃ l, R l ∧ l.state = n.memory.state := by
  cases h with
  | idle sane pool holds => exact ⟨_, holds, rfl⟩
  | @swap base d txHash c k hk before after pool holds holds' =>
    rcases k with _ | _ | _ | _ | _ | k
    · exact ⟨_, holds, rfl⟩
    all_goals first | exact ⟨_, holds', rfl⟩ | omega

theorem blocks (h : Amid store R n) : ∃ l, R l ∧ l.blocks = n.memory.blocks := by
  cases h with
  | idle sane pool holds => exact ⟨_, holds, rfl⟩
  | @swap base d txHash c k hk before after pool holds holds' =>
    rcases k with _ | _ | _ | _ | _ | k
    · exact ⟨_, holds, rfl⟩
    · exact ⟨_, holds, rfl⟩
    · exact ⟨_, holds, rfl⟩
    all_goals first | exact ⟨_, holds', rfl⟩ | omega

theorem receipts (h : Amid store R n) : ∃ l, R l ∧ l.receipts = n.memory.receipts := by
  cases h with
  | idle sane pool holds => exact ⟨_, holds, rfl⟩
  | @swap base d txHash c k hk before after pool holds holds' =>
    rcases k with _ | _ | _ | _ | _ | k
    · exact ⟨_, holds, rfl⟩
    · exact ⟨_, holds, rfl⟩
    · exact ⟨_, holds, rfl⟩
    · exact ⟨_, holds, rfl⟩
    all_goals first | exact ⟨_, holds', rfl⟩ | omega

/-- When the swap is done. -/
theorem complete (h : Amid store R n) :
    Sane store n.complete ∧ n.complete.1.mempool = Mempool.default ∧ R n.complete.1.ledger := by
  cases h with
  | idle sane pool holds => exact ⟨sane, pool, holds⟩
  | @swap base d txHash c k hk before after pool holds holds' =>
    rcases k with _ | _ | _ | _ | _ | k
    all_goals first | exact ⟨after, pool, holds'⟩ | omega

theorem of_idle (h : Amid store R n) (hidle : n.pending.isEmpty) :
    Sane store (n.memory, n.disk) ∧ n.memory.mempool = Mempool.default ∧ R n.memory.ledger := by
  cases h with
  | idle sane pool holds => exact ⟨sane, pool, holds⟩
  | @swap base d txHash c k hk =>
    rcases k with _ | _ | _ | _ | _ | k
    all_goals first | cases hidle | omega

/-! ## What others do -/

/-- A submission takes the commit lock. -/
theorem submit (htolerates : Tolerates D R) {s : RpcState} {d : Disk} (hsane : Sane store (s, d))
    (hpool : s.mempool = Mempool.default) (hholds : R s.ledger) {tx : Transaction} {now : Timestamp} {fault : Option Fault}
    (hD : D (.commit (.submit tx now fault))) : Amid store R (beginCommit s d (.submit tx now fault)) := by
  obtain ⟨hcomplete, q, d', hq, hbegin⟩ := beginCommit_spec hsane.pool d (.submit tx now fault)
  have hafter : Sane store (beginCommit s d (.submit tx now fault)).complete := by
    rw [hcomplete]
    exact hsane.step (CommitOp.submit tx now fault).toOp
  have hstep : (beginCommit s d (.submit tx now fault)).complete.1 = (s.submitTransaction d tx now fault).2.1 := by
    rw [hcomplete]
    rfl
  have hsubmits := submits_of_empty hpool d tx now fault
  rw [← hstep] at hsubmits
  -- the writes are pending exactly if the ledger is to be extended
  rcases hbegin with hbegin | ⟨txHash, c, hbegin⟩
  all_goals
    rw [hbegin] at hafter hsubmits ⊢
    rcases hsubmits with ⟨e, -, hs⟩ | ⟨fee, c', -, hempty, hledger, happlied, hblock⟩
  · have hsamePool : q = Mempool.default := (congrArg RpcState.mempool hs).trans hpool
    exact .idle hafter hsamePool hholds
  · have hlength := congrArg (fun l : Ledger => l.blocks.length) hledger
    simp [Node.complete, ledger, withPool, Ledger.extend] at hlength
  · have hlength := congrArg (fun s : RpcState => s.blocks.length) hs
    simp [Node.complete, run_publication, commitBlock, withPool] at hlength
  · have hbefore : Sane store (s.withPool q, d') :=
      ⟨hsane.store_eq, hsane.chain, hq, hsane.height, hsane.wf, hafter.stored⟩
    have hnext := htolerates.committed s.ledger tx now fault fee c'.state c'.block hD hholds happlied hblock
    rw [← hledger] at hnext
    exact @Amid.swap _ store R (s.withPool q) d' txHash c 0 (by omega) hbefore hafter hempty hholds hnext

/-- **One event of the others.** -/
theorem step (htolerates : Tolerates D R) (h : Amid store R n) {e : RpcState.Event} (he : D e) : Amid store R (n.step e).2 := by
  cases e with
  | read reader query => exact h
  | write =>
    cases h with
    | idle sane pool holds => exact .idle sane pool holds
    | @swap base d txHash c k hk before after pool holds holds' =>
      rcases k with _ | _ | _ | _ | _ | k
      · exact .swap 1 (by omega) before after pool holds holds'
      · exact .swap 2 (by omega) before after pool holds holds'
      · exact .swap 3 (by omega) before after pool holds holds'
      · exact .swap 4 (by omega) before after pool holds holds'
      · exact .idle after pool holds'
      · omega
  | seed op =>
    by_cases hidle : n.pending.isEmpty
    · obtain ⟨hsane, hpool, hholds⟩ := h.of_idle hidle
      simp only [Node.step, if_pos hidle]
      refine .idle (hsane.step op.toOp) ((seedAccounts_mempool ..).trans hpool) ?_
      have heffect := seedAccounts_effect n.memory n.disk op.allocations op.fault hsane.pool hsane.height
      rcases heffect.ledger_cases with hsame | ⟨-, hseeded⟩
      · rw [hsame]
        exact hholds
      · rw [hseeded]
        exact htolerates.seeded _ op he hholds
    · simp only [Node.step, if_neg hidle]
      exact h
  | commit op =>
    by_cases hidle : n.pending.isEmpty
    · obtain ⟨hsane, hpool, hholds⟩ := h.of_idle hidle
      simp only [Node.step, if_pos hidle]
      cases op with
      | includeTx txHash now fault =>
        rw [beginCommit, sealUpToSwap, prepareBlock_of_empty hpool]
        exact .idle hsane hpool hholds
      | submit tx now fault => exact .submit htolerates hsane hpool hholds he
    · simp only [Node.step, if_neg hidle]
      exact h

theorem others (htolerates : Tolerates D R) (h : Amid store R n) {events : List RpcState.Event} (hevents : ∀ e ∈ events, D e) :
    Amid store R (world.others n events) :=
  Setting.others_invariant (fun n _ he (h : Amid store R n) => h.step htolerates he) h hevents

/-- A submission when its turn comes: it is refused by a node of which the property holds, or it extends the ledger. -/
theorem serve (htolerates : Tolerates D R) (h : Amid store R n) {turn : Turn RpcState.Event Choice} (hturn : ∀ e ∈ turn.before, D e)
    (tx : Transaction) :
    (∃ e, (world.serve (.submit tx) turn n).1 = .error e ∧ Amid store R (world.serve (.submit tx) turn n).2 ∧
      ∃ s d, Sane store (s, d) ∧ s.mempool = Mempool.default ∧ R s.ledger ∧
        (s.submitTransaction d tx turn.choice.now turn.choice.fault).1 = .error e) ∨
    (world.serve (.submit tx) turn n).1 = .ok tx.hash ∧ ∀ {R' : Ledger → Prop},
      (∀ l fee state block, R l → l.state.applyTransaction tx = (.ok fee, state) → block.transactions = [tx] →
        R' (l.extend tx state block)) → Amid store R' (world.serve (.submit tx) turn n).2 := by
  obtain ⟨hsane, hpool, hholds⟩ := (h.others htolerates hturn).complete
  have hstep := hsane.step (.submit tx turn.choice.now turn.choice.fault)
  rcases submits_of_empty hpool (world.others n turn.before).complete.2 tx turn.choice.now turn.choice.fault with
    ⟨e, hresult, hs⟩ | ⟨fee, c, hresult, hempty, hledger, happlied, hblock⟩
  · refine .inl ⟨e, hresult, .idle hstep ?_ ?_, _, _, hsane, hpool, hholds, hresult⟩
    · exact (congrArg RpcState.mempool hs).trans hpool
    · exact (congrArg RpcState.ledger hs) ▸ hholds
  · refine .inr ⟨hresult, fun hnext => .idle hstep hempty ?_⟩
    exact hledger ▸ hnext _ fee c.state c.block hholds happlied hblock

end Amid

/-! ## Sending -/

/-- **Sending**: the transaction that the checks let through extends the ledger, or the node has refused it. -/
theorem ensures_send [Ed25519] {C : Turn RpcState.Event Choice → Prop} {params : Json} {R' : Transaction → Ledger → Prop}
    {why : Transaction → RpcError → Prop} (htolerates : Tolerates D R) (hothers : ∀ t, C t → ∀ e ∈ t.before, D e)
    (hnext : ∀ tx, signedTransaction params store.chainId = .ok tx → ∀ l fee state block, R l →
      l.state.applyTransaction tx = (.ok fee, state) → block.transactions = [tx] → R' tx (l.extend tx state block))
    (hwhy : ∀ tx, signedTransaction params store.chainId = .ok tx → ∀ s d now fault e, Sane store (s, d) →
      s.mempool = Mempool.default → R s.ledger → (s.submitTransaction d tx now fault).1 = .error e → why tx e) :
    world.Ensures C (Amid store R) (ethSendTransaction params).run
      (Setting.OkThen
        (fun e n => Amid store R n ∧ ∀ tx, signedTransaction params store.chainId = .ok tx → why tx e)
        fun value n => ∃ tx, signedTransaction params store.chainId = .ok tx ∧
          value = .string (displayBytes tx.hash.toList) ∧ Amid store (R' tx) n) := by
  refine Setting.Ensures.andThen (M := fun chainId n => chainId = store.chainId ∧ Amid store R n)
    (.access fun turn n hturn hn => ?_) fun chainId => .assume ?_
  · have hread := hn.others htolerates (hothers turn hturn)
    exact ⟨hread.stage.chainId, hread⟩
  rintro rfl
  refine Setting.Ensures.andThen
    (M := fun tx n => signedTransaction params store.chainId = .ok tx ∧ Amid store R n) (.attempt ?_) fun tx => .assume ?_
  · intro n hn
    cases hsigned : signedTransaction params store.chainId with
    | error e => exact ⟨hn, nofun⟩
    | ok tx => exact ⟨rfl, hn⟩
  intro hsigned
  refine Setting.Ensures.andThen
    (M := fun result n => (∃ e, result = .error e ∧ Amid store R n ∧ why tx e) ∨
      result = .ok tx.hash ∧ Amid store (R' tx) n) (.access ?_) fun result => ?_
  · intro turn n hturn hn
    rcases hn.serve htolerates (hothers turn hturn) tx with
      ⟨e, hresult, hn', s, d, hsane, hpool, hholds, he⟩ | ⟨hresult, hextends⟩
    · exact .inl ⟨e, hresult, hn', hwhy tx hsigned s d _ _ e hsane hpool hholds he⟩
    · exact .inr ⟨hresult, hextends (hnext tx hsigned)⟩
  refine Setting.Ensures.andThen (M := fun hash n => hash = tx.hash ∧ Amid store (R' tx) n) (.attempt ?_) fun hash =>
    .pure ?_
  · rintro n (⟨e, rfl, hn, he⟩ | ⟨rfl, hn⟩)
    · refine ⟨hn, fun tx' hsigned' => ?_⟩
      cases hsigned.symm.trans hsigned'
      exact he
    · exact ⟨rfl, hn⟩
  · rintro n ⟨rfl, hn⟩
    exact ⟨tx, hsigned, rfl, hn⟩

end
end Subhost
