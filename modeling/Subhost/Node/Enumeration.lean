import Subhost.Consensus.Staking
import Subhost.Node.Bootstrap
import Subhost.Rpc.Lookup
/-!
# Iteration order of hash maps (subhost-state/src/lib.rs:80-108, subhost-rpc/src/lib.rs:341-357,
subhost-core/src/lib.rs:472-488, subhost-consensus/src/staking.rs:127-142)

A hash map is iterated in an order that differs from process to process. Four outputs are made by
iterating one and sorting, and all nodes have to agree on them: the state snapshot, whose hash is the state
root; the receipts of the ledger file; the allocations of the genesis file; and the validator set. Here each
is a function of the enumeration, a permutation of the map's entries, and the functions used elsewhere in
this development are those at one fixed enumeration.

What has to be shown each time is that the sort key tells the entries apart. Addresses do, and their
printed forms, because they can be read back. Receipt heights do in every reachable ledger, as every block
has one transaction; this holds even if hashes collide. Stake and address do, as validators are stored under
their own address. The total stake saturates, and a saturating sum is the exact sum capped once.
-/
namespace Subhost
open Uint Bincode Run

/-! ## The four outputs -/

/-- The receipts `RpcState::persist` writes, over an enumeration of the receipt map. -/
def orderedReceiptsOver (entries : List (Hash × Receipt)) : List Receipt :=
  sortByKey (fun r => r.blockHeight.toNat) (entries.map Prod.snd)

theorem orderedReceipts_eq_over (m : Map Hash Receipt) : orderedReceipts m = orderedReceiptsOver m.toList := rfl

theorem StakingModule.validatorSet_eq_over (m : StakingModule) :
    m.validatorSet = validatorSetOf (m.validators.toList.map Prod.snd) := rfl

section
variable [Blake3]

/-- The bytes of the ledger file, over enumerations of accounts and receipts. -/
def ledgerFileOver (chainId : ChainId) (l : Ledger) (accounts : List (Address × Account))
    (receipts : List (Hash × Receipt)) : Bytes :=
  encodeLedger ⟨chainId, l.state.snapshotOver accounts, l.blocks, orderedReceiptsOver receipts⟩

/-- The ledgers a node passes to `persist`: the one it holds, or the one a call is about to write. -/
def PersistedBy (s : RpcState) (l : Ledger) : Prop := l = s.ledger ∨ ∃ op, s.Produces op l

/-! ## The sort keys tell the entries apart -/

/-- Every receipt of a well-formed ledger has a height of its own: different hashes are in different blocks. -/
theorem nodup_receipt_heights {chainId : ChainId} {l : Ledger} (h : l.Wf chainId) :
    ((l.receipts.toList.map Prod.snd).map fun r => r.blockHeight.toNat).Nodup := by
  have hheights : (l.blocks.map fun b => b.header.height.toNat).Nodup := by
    rw [List.Nodup, List.pairwise_map]
    exact (heights_increase h.linked).imp fun hlt => Nat.ne_of_lt hlt
  rw [List.map_map]
  refine (Map.nodup_toList _).map_on ?_
  rintro ⟨k, r⟩ hk ⟨k', r'⟩ hk' heq
  obtain ⟨b, hb, ⟨tx, htx, rfl⟩, rfl⟩ := RpcState.block_of_receipt h (Map.mem_toList.mp hk)
  obtain ⟨b', hb', ⟨tx', htx', rfl⟩, rfl⟩ := RpcState.block_of_receipt h (Map.mem_toList.mp hk')
  obtain rfl : b = b' := List.inj_on_of_nodup_map hheights hb hb' heq
  -- one block, so one transaction
  obtain ⟨i, p, hok, -⟩ := blockOk_of_mem h.linked hb
  obtain ⟨only, honly, -⟩ := hok.committed
  rw [honly, List.mem_singleton] at htx htx'
  rw [htx, htx']

theorem wf_of_persistedBy {store : LedgerStore} {w : RpcState × Disk} (hw : RpcState.Sane store w) {l : Ledger}
    (h : PersistedBy w.1 l) : l.Wf store.chainId := by
  rcases h with rfl | ⟨op, hop⟩
  · exact hw.wf
  · have hnext := hop.next
    rw [hw.chain] at hnext
    exact hw.wf.next hnext

theorem uniqueListing_receipts {chainId : ChainId} {l : Ledger} (h : l.Wf chainId) {entries : List (Hash × Receipt)}
    (he : Enumerates entries l.receipts) :
    UniqueListing (fun a b => compare a.blockHeight.toNat b.blockHeight.toNat) (l.receipts.toList.map Prod.snd)
      (orderedReceiptsOver entries) :=
  uniqueListing_sortByKey _ (he.map Prod.snd) (nodup_receipt_heights h)

omit [Blake3] in
/-- An address is read off its printed form. -/
theorem displayBytes_inj {a b : Bytes} (h : displayBytes a = displayBytes b) : a = b := by
  have hdigits := congrArg strip0x h
  rw [strip0x_displayBytes, strip0x_displayBytes, Option.some.injEq] at hdigits
  have hbytes := congrArg hexDecode hdigits
  rwa [hexDecode_hexEncode, hexDecode_hexEncode, Option.some.injEq] at hbytes

omit [Blake3] in
theorem uniqueListing_allocations (allocations : Map Address Amount) {entries : List (Address × Amount)}
    (h : Enumerates entries allocations) :
    UniqueListing (fun a b => compare a.1 b.1)
      (allocations.toList.map fun p => (displayBytes p.1.toList, toString p.2.toNat))
      (GenesisConfig.serializeAllocations entries) := by
  refine uniqueListing_sortByKey Prod.fst (h.map _) ?_
  rw [List.map_map]
  have hkeys := Map.nodup_keys_toList allocations
  refine (Map.nodup_toList allocations).map_on fun p hp q hq heq => ?_
  exact List.inj_on_of_nodup_map hkeys hp hq (Vector.toList_inj.mp (displayBytes_inj heq))

end

namespace StakingModule

/-- No operation moves a validator away from its address. -/
theorem keyedBy_step {m : StakingModule} (h : Map.KeyedBy Validator.address m.validators) (op : StakingOp) :
    Map.KeyedBy Validator.address (step m op).2.validators := by
  have hupdate : ∀ {a : Address} {v : Validator} (stake : Amount), m.validators[a]? = some v →
      Map.KeyedBy Validator.address (m.validators.insert a { v with stake := stake }) := by
    intro a v stake hv
    rw [← h a v hv]
    exact h.insert { v with stake := stake }
  cases op with
  | addValidator v =>
    rcases addValidator_cases m v with ⟨e, he⟩ | ⟨-, hok⟩
    · simpa [step, he] using h
    · simpa [step, hok] using h.insert v
  | delegate d v amount =>
    rcases delegate_cases m d v amount with ⟨e, he⟩ | ⟨target, newStake, newAmount, ht, -, -, hok⟩
    · simpa [step, he] using h
    · simpa [step, hok] using hupdate newStake ht
  | undelegate d v amount =>
    rcases undelegate_cases m d v amount with ⟨-, e, he⟩ | ⟨-, entry, -, hok⟩
    · simpa [step, he] using h
    · rw [step, hok]
      dsimp only [settleStake]
      cases ht : m.validators[v]? with
      | none => exact h
      | some target => exact hupdate _ ht
  | slash e =>
    rcases slash_cases m e with ⟨err, he⟩ | ⟨target, ht, hok | ⟨-, hok⟩ | hok⟩
    · simpa [step, he] using h
    · simpa [step, hok] using h
    · simpa [step, hok] using h.erase _
    · simpa [step, hok] using hupdate _ ht

theorem keyedBy_run (ops : List StakingOp) : Map.KeyedBy Validator.address (final step new ops).validators :=
  final_invariant step (fun m => Map.KeyedBy Validator.address m.validators) (fun _ op h => keyedBy_step h op)
    (fun k v hv => by simp [new] at hv) ops

instance transCmp_order : Std.TransCmp Validator.order :=
  have := transCmp_key fun v : Validator => v.stake.toNat
  have : Std.TransCmp fun a b : Validator => compare b.stake.toNat a.stake.toNat := .opposite
  have := transCmp_key Validator.address
  inferInstanceAs (Std.TransCmp (compareLex (fun a b : Validator => compare b.stake.toNat a.stake.toNat)
    fun a b => compare a.address b.address))

theorem uniqueListing_validators {m : StakingModule} (h : Map.KeyedBy Validator.address m.validators)
    {entries : List (Address × Validator)} (he : Enumerates entries m.validators) :
    UniqueListing Validator.order (m.validators.toList.map Prod.snd)
      (validatorSetOf (entries.map Prod.snd)).validators := by
  refine uniqueListing_sortBy (he.map Prod.snd) ?_
  have hnodup := Map.nodup_keys_toList m.validators
  rw [← h.map_values, List.Nodup, List.pairwise_map] at hnodup
  refine hnodup.imp fun hne heq => hne ?_
  exact (Map.compare_eq_iff _ _).mp (Ordering.then_eq_eq.mp heq).2

/-- The total stake, in whatever order it is added up. -/
theorem totalStakeOf_eq {m : StakingModule} {entries : List (Address × Validator)}
    (he : Enumerates entries m.validators) :
    (totalStakeOf (entries.map Prod.snd)).toNat = min (staked m) (2 ^ 128 - 1) := by
  have hsum : ((entries.map Prod.snd).map fun v => v.stake.toNat).sum = staked m := by
    rw [List.map_map]
    exact (he.map _).sum_eq
  rw [totalStakeOf, toNat_foldl_saturatingAdd, hsum]
  simp

end StakingModule

/-- **Outputs do not depend on hash-map iteration order.** For any two enumerations of the map in question,
each output is the same, and it is the only strictly sorted listing of the contents:
* the snapshot and the root of every state, by address;
* the receipts of every ledger that a node persists, by height, and with them the bytes of the file;
* the allocations of every genesis file, by printed address;
* the validator set after any calls of a staking module, by descending stake and then address, with the exact
  total capped at the largest amount and the quorum. -/
theorem enumeration_independent [Blake3] :
    (∀ (s : State) (e e' : List (Address × Account)), Enumerates e s.accounts → Enumerates e' s.accounts →
      s.snapshotOver e = s.snapshotOver e' ∧ s.root = Hash.fromData (StateSnapshot.codec.encode (s.snapshotOver e)) ∧
      UniqueListing (fun a b => compare a.1 b.1) s.accounts.toList (s.snapshotOver e).accounts) ∧
    (∀ (store : LedgerStore) (ops : List RpcOp) (l : Ledger),
      PersistedBy (final RpcState.step (RpcState.fresh store, RpcState.emptyDisk) ops).1 l →
      ∀ (a a' : List (Address × Account)) (e e' : List (Hash × Receipt)), Enumerates a l.state.accounts →
        Enumerates a' l.state.accounts → Enumerates e l.receipts → Enumerates e' l.receipts →
        orderedReceiptsOver e = orderedReceiptsOver e' ∧
        ledgerFileOver store.chainId l a e = ledgerFileOver store.chainId l a' e' ∧
        UniqueListing (fun r r' => compare r.blockHeight.toNat r'.blockHeight.toNat) (l.receipts.toList.map Prod.snd)
          (orderedReceiptsOver e)) ∧
    (∀ (g : GenesisConfig) (e e' : List (Address × Amount)), Enumerates e g.allocations → Enumerates e' g.allocations →
      GenesisConfig.serializeAllocations e = GenesisConfig.serializeAllocations e' ∧
      UniqueListing (fun p q => compare p.1 q.1)
        (g.allocations.toList.map fun p => (displayBytes p.1.toList, toString p.2.toNat))
        (GenesisConfig.serializeAllocations e)) ∧
    (∀ (ops : List StakingOp) (e e' : List (Address × Validator)),
      Enumerates e (final StakingModule.step .new ops).validators →
      Enumerates e' (final StakingModule.step .new ops).validators →
      StakingModule.validatorSetOf (e.map Prod.snd) = StakingModule.validatorSetOf (e'.map Prod.snd) ∧
      (StakingModule.validatorSetOf (e.map Prod.snd)).totalStake.toNat =
        min (StakingModule.staked (final StakingModule.step .new ops)) (2 ^ 128 - 1) ∧
      UniqueListing Validator.order ((final StakingModule.step .new ops).validators.toList.map Prod.snd)
        (StakingModule.validatorSetOf (e.map Prod.snd)).validators) := by
  have hsnapshot : ∀ (s : State) {e e' : List (Address × Account)}, Enumerates e s.accounts →
      Enumerates e' s.accounts → s.snapshotOver e = s.snapshotOver e' :=
    fun s _ _ he he' => (s.snapshotOver_eq he).trans (s.snapshotOver_eq he').symm
  refine ⟨?_, ?_, ?_, ?_⟩
  · intro s e e' he he'
    refine ⟨hsnapshot s he he', ?_, s.uniqueListing_snapshot he⟩
    rw [s.snapshotOver_eq he]
    rfl
  · intro store ops l hl a a' e e' ha ha' he he'
    have hwf := wf_of_persistedBy (RpcState.sane_run store ops) hl
    have hreceipts := (uniqueListing_receipts hwf he).eq (uniqueListing_receipts hwf he')
    refine ⟨hreceipts, ?_, uniqueListing_receipts hwf he⟩
    rw [ledgerFileOver, hsnapshot l.state ha ha', hreceipts]
    rfl
  · intro g e e' he he'
    have hlisting := uniqueListing_allocations g.allocations he
    exact ⟨hlisting.eq (uniqueListing_allocations g.allocations he'), hlisting⟩
  · intro ops e e' he he'
    have hkeyed := StakingModule.keyedBy_run ops
    have hlisting := StakingModule.uniqueListing_validators hkeyed he
    have hsame := hlisting.eq (StakingModule.uniqueListing_validators hkeyed he')
    have htotal : StakingModule.totalStakeOf (e.map Prod.snd) = StakingModule.totalStakeOf (e'.map Prod.snd) :=
      BitVec.eq_of_toNat_eq ((StakingModule.totalStakeOf_eq he).trans (StakingModule.totalStakeOf_eq he').symm)
    refine ⟨?_, StakingModule.totalStakeOf_eq he, hlisting⟩
    have hsorted : sortBy Validator.order (e.map Prod.snd) = sortBy Validator.order (e'.map Prod.snd) := hsame
    simp only [StakingModule.validatorSetOf, hsorted, htotal]

section
open RpcState (alice bob durableStore emptyDisk fresh payingOps)
open scoped Concrete

/-- Two validators that only the address tells apart. -/
def equalStakes : List StakingOp :=
  [alice, bob].map fun address => .addValidator ⟨address, [1], minValidatorStake, 0, .finite 1⟩

theorem enumeration_independent_reversed :
    let validators := (final StakingModule.step .new equalStakes).validators.toList
    let l := (final RpcState.step (fresh durableStore, emptyDisk) payingOps).1.ledger
    let accounts := l.state.accounts.toList
    validators ≠ validators.reverse ∧ accounts ≠ accounts.reverse ∧
    StakingModule.validatorSetOf (validators.map Prod.snd) =
      StakingModule.validatorSetOf (validators.reverse.map Prod.snd) ∧
    ledgerFileOver durableStore.chainId l accounts l.receipts.toList =
      ledgerFileOver durableStore.chainId l accounts.reverse l.receipts.toList.reverse := by
  obtain ⟨-, hledger, -, hvalidators⟩ := enumeration_independent
  refine ⟨by decide +kernel, by decide +kernel, ?_, ?_⟩
  · exact (hvalidators equalStakes _ _ (List.Perm.refl _) (List.reverse_perm _)).1
  · exact (hledger durableStore payingOps _ (.inl rfl) _ _ _ _ (List.Perm.refl _) (List.reverse_perm _)
      (List.Perm.refl _) (List.reverse_perm _)).2.1

end

end Subhost
