import Subhost.Lib.Offers
import Subhost.Mempool.Runs
/-!
# The order of admissions (subhost-mempool/src/lib.rs:112-181)

Below both limits `admit` is a maximum: a slot keeps the dearest transaction it was offered, a repetition or a
cheaper one is ignored. `admission_confluent` says that the pool then depends on the set of offered
transactions only. The limits stay out of the way because every transaction in the pool has a slot of its own
among those of the offered ones, the new transaction's slot not among them (`slots_lt`).
-/
namespace Subhost.Mempool
open Uint Bincode Codec Run

/-- The slot of a transaction: its sender and nonce. -/
def slotOf (tx : Transaction) : Address × Nonce := (tx.fromAddr, tx.nonce)

/-- The slots of some transactions. -/
def slotsOf (txs : List Transaction) : Finset (Address × Nonce) := (txs.map slotOf).toFinset

/-- Transactions a pool has room for: each passes the static checks of `admit`, those of one slot differ in
price, and their slots are within both limits. -/
structure Fits (config : MempoolConfig) (txs : List Transaction) : Prop where
  small : ∀ t ∈ txs, t.data.length ≤ config.maxTxDataBytes
  checked : ∀ t ∈ txs, checkTx config t = .ok ()
  priced : ∀ s ∈ txs, ∀ t ∈ txs, slotOf s = slotOf t → s.gasPrice = t.gasPrice → s = t
  capacity : (slotsOf txs).card ≤ config.maxPending
  budget : ∀ sender, ((slotsOf txs).filter fun slot => slot.1 = sender).card ≤ config.maxPerSender

/-- The price of a transaction as an offer for its slot. -/
def bid (tx : Transaction) : ℕ := tx.gasPrice.toNat

/-- The pending transactions. -/
def held (p : Mempool) : Set Transaction := {t | ∃ hash, p.get hash = some t}

section
variable [Blake3] {p : Mempool} {tx t : Transaction}

theorem ConsistentBut.single (hp : p.Consistent) : ∀ s ∈ p.held, ∀ t ∈ p.held, slotOf s = slotOf t → s = t := by
  rintro s ⟨hash, hs⟩ t ⟨hash', ht⟩ hslot
  obtain ⟨hfrom, hnonce⟩ := Prod.mk.inj hslot
  have hindex := hp.slot_of_get hs
  rw [hfrom, hnonce, hp.slot_of_get ht] at hindex
  obtain rfl := Option.some.inj hindex
  rw [hs] at ht
  exact Option.some.inj ht

theorem ConsistentBut.slot_free (hp : p.Consistent) (hfree : p.slot tx.fromAddr tx.nonce = none) :
    ∀ s ∈ p.held, slotOf s ≠ slotOf tx := by
  rintro s ⟨hash, hs⟩ hslot
  obtain ⟨hfrom, hnonce⟩ := Prod.mk.inj hslot
  rw [← hfrom, ← hnonce, hp.slot_of_get hs] at hfree
  cases hfree

/-- With a free slot for one more of the transactions, those in the pool have fewer slots than all of them,
over the whole pool as for any choice of slots. -/
theorem ConsistentBut.slots_lt (hp : p.Consistent) {txs : List Transaction} (hheld : ∀ s ∈ p.held, s ∈ txs)
    (htx : tx ∈ txs) (hfree : p.slot tx.fromAddr tx.nonce = none) (pick : Address × Nonce → Prop) [DecidablePred pick]
    (hpick : pick (slotOf tx)) :
    (p.txs.toList.filter fun e => decide (pick (slotOf e.2))).length < ((slotsOf txs).filter pick).card := by
  let entries := p.txs.toList.filter fun e => decide (pick (slotOf e.2))
  have hentry : ∀ e ∈ entries, e.2 ∈ p.held ∧ pick (slotOf e.2) := by
    intro e he
    obtain ⟨hmem, hchosen⟩ := List.mem_filter.mp he
    exact ⟨⟨e.1, Map.mem_toList.mp hmem⟩, of_decide_eq_true hchosen⟩
  have hdistinct : (entries.map fun e => slotOf e.2).Nodup := by
    refine List.Nodup.map_on ?_ ((Map.nodup_toList p.txs).filter _)
    rintro ⟨hash, s⟩ hs ⟨hash', t⟩ ht hslot
    obtain rfl : s = t := hp.single s (hentry _ hs).1 t (hentry _ ht).1 hslot
    have hget : p.get hash = some s := Map.mem_toList.mp (List.mem_filter.mp hs).1
    have hget' : p.get hash' = some s := Map.mem_toList.mp (List.mem_filter.mp ht).1
    rw [← hp.sound.keyed hget, ← hp.sound.keyed hget']
  have hnew : slotOf tx ∉ (entries.map fun e => slotOf e.2).toFinset := by
    rw [List.mem_toFinset, List.mem_map]
    rintro ⟨e, he, hslot⟩
    exact hp.slot_free hfree e.2 (hentry e he).1 hslot
  have hsub : insert (slotOf tx) (entries.map fun e => slotOf e.2).toFinset ⊆ (slotsOf txs).filter pick := by
    intro slot hslot
    rw [Finset.mem_filter, slotsOf, List.mem_toFinset, List.mem_map]
    rcases Finset.mem_insert.mp hslot with rfl | hslot
    · exact ⟨⟨tx, htx, rfl⟩, hpick⟩
    · obtain ⟨e, he, rfl⟩ := List.mem_map.mp (List.mem_toFinset.mp hslot)
      exact ⟨⟨e.2, hheld e.2 (hentry e he).1, rfl⟩, (hentry e he).2⟩
  have hcard := Finset.card_le_card hsub
  rw [Finset.card_insert_of_notMem hnew, List.toFinset_card_of_nodup hdistinct, List.length_map] at hcard
  exact hcard

/-! ## What an admission holds -/

theorem held_place (hnew : p.get tx.hash = none) : (p.place tx.hash tx).held = insert tx p.held := by
  ext s
  constructor
  · rintro ⟨hash, hs⟩
    by_cases e : tx.hash = hash
    · subst e
      rw [get_place, Option.some.injEq] at hs
      exact .inl hs.symm
    · rw [get, Mempool.place, Map.get_insert_ne _ _ e] at hs
      exact .inr ⟨hash, hs⟩
  · rintro (rfl | ⟨hash, hs⟩)
    · exact ⟨s.hash, get_place p s.hash s⟩
    · have e : tx.hash ≠ hash := by
        rintro rfl
        rw [hnew] at hs
        cases hs
      exact ⟨hash, by rwa [get, Mempool.place, Map.get_insert_ne _ _ e]⟩

theorem ConsistentBut.held_remove (hp : p.Consistent) {hash : Hash} (hget : p.get hash = some t) :
    (p.remove hash).2.held = p.held \ {t} := by
  ext s
  constructor
  · rintro ⟨hash', hs⟩
    have hold := (remove_spec p hash).2 hs
    refine ⟨⟨hash', hold⟩, ?_⟩
    rintro rfl
    -- a transaction is stored under its own hash only
    have hsame : hash = hash' := by rw [← hp.sound.keyed hget, ← hp.sound.keyed hold]
    subst hsame
    rw [get, remove_txs, Map.get_erase_self] at hs
    cases hs
  · rintro ⟨⟨hash', hs⟩, hne⟩
    have e : hash ≠ hash' := by
      rintro rfl
      rw [hget] at hs
      exact hne (Option.some.inj hs).symm
    exact ⟨hash', by rwa [get, remove_txs, Map.get_erase_ne _ e]⟩

/-- One admission of a transaction the pool has room for. -/
theorem ConsistentBut.admit_best (hp : p.Consistent) {txs : List Transaction} (hfits : Fits p.config txs)
    (hcf : CollisionFree (txs.map Transaction.codec.encode)) {offers : Set Transaction}
    (hoffers : ∀ s ∈ offers, s ∈ txs) (h : KeepsBest slotOf bid offers p.held) (htx : tx ∈ txs) :
    (∃ a, (p.admitTx tx).1 = .ok a) ∧ KeepsBest slotOf bid (insert tx offers) (p.admitTx tx).2.held := by
  have hheld : ∀ s ∈ p.held, s ∈ txs := fun s hs => hoffers s (h.offered hs)
  have houtcome := hp.outcome tx
  generalize p.admitTx tx = result at houtcome
  cases houtcome with
  | refused e why =>
    -- the sender's slots in the pool are fewer than its slots in the list
    obtain ⟨hfree, hfull⟩ := why (hfits.small tx htx) (hfits.checked tx htx)
    have hlt := hp.slots_lt hheld htx hfree (fun slot => slot.1 = tx.fromAddr) rfl
    have hle := hfits.budget tx.fromAddr
    rw [hp.width_eq] at hfull
    exact absurd hfull (Nat.not_le.mpr (Nat.lt_of_lt_of_le hlt hle))
  | @outbid existing s hget hslot hprice =>
    obtain ⟨s', hget', hfrom, hnonce⟩ := (hp.indexed _ _ _).mp hslot
    obtain rfl : s = s' := Option.some.inj (hget.symm.trans hget')
    exact ⟨⟨_, rfl⟩, h.ignore ⟨existing, hget⟩ (by rw [slotOf, hfrom, hnonce, slotOf]) hprice⟩
  | @pending s hget =>
    have hs : s ∈ p.held := ⟨tx.hash, hget⟩
    have henc := hcf _ (List.mem_map_of_mem (hheld s hs)) _ (List.mem_map_of_mem htx) (hp.sound.keyed hget)
    obtain rfl := Transaction.encode_injective henc
    exact ⟨⟨_, rfl⟩, h.ignore hs rfl (Nat.le_refl _)⟩
  | fresh hnew hfree hroom hq =>
    refine ⟨⟨_, rfl⟩, ?_⟩
    rw [held_place hnew]
    exact h.take (hp.slot_free hfree)
  | evicting hnew hfree hfull hmin hq =>
    have hlt := hp.slots_lt hheld htx hfree (fun _ => True) trivial
    have hle := hfits.capacity
    rw [decide_true, List.filter_true, Finset.filter_true, Std.ExtTreeMap.length_toList] at hlt
    omega
  | @replacing existing s hnew hget hslot hprice hq =>
    obtain ⟨s', hget', hfrom, hnonce⟩ := (hp.indexed _ _ _).mp hslot
    obtain rfl : s = s' := Option.some.inj (hget.symm.trans hget')
    refine ⟨⟨_, rfl⟩, ?_⟩
    rw [held_place (get_remove_of_none hnew), hp.held_remove hget]
    exact h.replace ⟨existing, hget⟩ (by rw [slotOf, hfrom, hnonce, slotOf]) (Nat.le_of_lt hprice)

/-- All of them, in any order and with repetitions. -/
theorem admitAll_best (hp : p.Consistent) {txs : List Transaction} (hfits : Fits p.config txs)
    (hcf : CollisionFree (txs.map Transaction.codec.encode)) {offers : Set Transaction}
    (hoffers : ∀ s ∈ offers, s ∈ txs) (h : KeepsBest slotOf bid offers p.held) {l : List Transaction}
    (hl : ∀ t ∈ l, t ∈ txs) :
    (∀ c ∈ trace admitTx p l, ∃ a, c.result = .ok a) ∧ (final admitTx p l).Consistent ∧
      (final admitTx p l).config = p.config ∧ KeepsBest slotOf bid (offers ∪ {t | t ∈ l}) (final admitTx p l).held := by
  induction l generalizing p offers with
  | nil =>
    refine ⟨by simp [trace], hp, rfl, ?_⟩
    simpa [final] using h
  | cons x rest ih =>
    rw [List.forall_mem_cons] at hl
    obtain ⟨hok, hbest⟩ := hp.admit_best hfits hcf hoffers h hl.1
    have hconfig := (admitTx_spec p x).1
    obtain ⟨hall, hq, hsame, hheld⟩ := ih (hp.admitTx x) (hconfig ▸ hfits)
      (Set.forall_mem_insert.mpr ⟨hl.1, hoffers⟩) hbest hl.2
    refine ⟨?_, hq, hsame.trans hconfig, ?_⟩
    · rw [trace, List.forall_mem_cons]
      exact ⟨hok, hall⟩
    · have hset : offers ∪ {t | t ∈ x :: rest} = insert x offers ∪ {t | t ∈ rest} := by
        ext t
        simp only [Set.mem_union, Set.mem_ofPred_eq, List.mem_cons, Set.mem_insert_iff]
        tauto
      rwa [hset]

omit [Blake3] in
theorem keepsBest_empty (hempty : p.txs = ∅) : KeepsBest slotOf bid ∅ p.held := by
  have hnone : p.held = ∅ := by
    ext s
    simp [held, get, hempty]
  rw [hnone]
  exact .empty

/-- An empty pool comes to hold the best of the transactions, in whatever order they come. -/
theorem admitAll_empty (hp : p.Consistent) (hempty : p.txs = ∅) {txs : List Transaction} (hfits : Fits p.config txs)
    (hcf : CollisionFree (txs.map Transaction.codec.encode)) {l : List Transaction} (hl : ∀ t, t ∈ l ↔ t ∈ txs) :
    (∀ c ∈ trace admitTx p l, ∃ a, c.result = .ok a) ∧ (final admitTx p l).Consistent ∧
      (final admitTx p l).config = p.config ∧ ∀ hash t, (final admitTx p l).get hash = some t ↔
        hash = t.hash ∧ t ∈ bestOffers slotOf bid {s | s ∈ txs} := by
  obtain ⟨hok, hq, hconfig, hbest⟩ := admitAll_best hp hfits hcf (fun s hs => absurd hs (Set.notMem_empty s))
    (keepsBest_empty hempty) fun t ht => (hl t).mp ht
  have hoffers : (∅ : Set Transaction) ∪ {s | s ∈ l} = {s | s ∈ txs} := by
    ext s
    simp [hl]
  have hties : NoTies slotOf bid {s | s ∈ txs} := fun s hs t ht hslot hbid =>
    hfits.priced s hs t ht hslot (BitVec.eq_of_toNat_eq hbid)
  rw [hoffers] at hbest
  refine ⟨hok, hq, hconfig, ?_⟩
  intro hash t
  rw [← hbest.mem_iff hties]
  constructor
  · intro hget
    exact ⟨(hq.sound.keyed hget).symm, hash, hget⟩
  · rintro ⟨rfl, hash, hget⟩
    rwa [hq.sound.keyed hget]

/-- **The order of admissions does not matter** below the limits. Let transactions be given that pass the
static checks, that differ in price where they share sender and nonce, and whose slots are within both
limits. Admitting them to an empty pool in any order, with any repetitions, never fails, and gives one and the
same pool: that of the dearest transaction of every slot. -/
theorem admission_confluent (config : MempoolConfig) (p : Mempool) (hnew : tryNew config = .ok p) (ops : List PoolOp)
    (hempty : (final step p ops).txs = ∅) (txs : List Transaction) (hfits : Fits config txs)
    (hcf : CollisionFree (txs.map Transaction.codec.encode)) (l : List Transaction) (hl : ∀ t, t ∈ l ↔ t ∈ txs) :
    (∀ c ∈ trace admitTx (final step p ops) l, ∃ a, c.result = .ok a) ∧
    final admitTx (final step p ops) l = final admitTx (final step p ops) txs ∧
    ∀ hash t, (final admitTx (final step p ops) l).get hash = some t ↔
      hash = t.hash ∧ t ∈ txs ∧ ∀ s ∈ txs, s.fromAddr = t.fromAddr → s.nonce = t.nonce → s.gasPrice ≤ t.gasPrice := by
  obtain ⟨hq, hconfig⟩ := consistent_run (consistent_tryNew hnew) ops
  rw [config_of_tryNew hnew] at hconfig
  subst hconfig
  obtain ⟨hok, hcons, hconfig, hget⟩ := admitAll_empty hq hempty hfits hcf hl
  obtain ⟨-, hcons', hconfig', hget'⟩ := admitAll_empty hq hempty hfits hcf fun t => Iff.rfl
  refine ⟨hok, ?_, ?_⟩
  · refine hcons'.eq_of_txs hcons (hconfig.trans hconfig'.symm) ?_
    apply Map.ext_get
    intro hash
    apply Option.ext
    intro t
    exact (hget hash t).trans (hget' hash t).symm
  · intro hash t
    rw [hget hash t]
    simp [bestOffers, slotOf, bid, le_iff_toNat]

end

section
open scoped Concrete

/-- Two offers for one slot and one for another. -/
def offeredTxs : List Transaction := [pooled 1 0 5, pooled 1 0 6, pooled 2 0 7]

theorem offeredTxs_fit : Fits smallConfig offeredTxs where
  small := by decide
  checked := by decide
  priced := by decide
  capacity := by decide
  budget sender := (Finset.card_filter_le _ _).trans (by decide)

/-- Last to first, and one of them twice. -/
theorem admission_confluent_reversed :
    final admitTx ⟨smallConfig, ∅, ∅⟩ [pooled 2 0 7, pooled 1 0 6, pooled 2 0 7, pooled 1 0 5] =
      final admitTx ⟨smallConfig, ∅, ∅⟩ offeredTxs ∧
    (final admitTx ⟨smallConfig, ∅, ∅⟩ offeredTxs).get (pooled 1 0 6).hash = some (pooled 1 0 6) := by
  have h := admission_confluent smallConfig ⟨smallConfig, ∅, ∅⟩ rfl [] rfl offeredTxs offeredTxs_fit (by decide +kernel)
    [pooled 2 0 7, pooled 1 0 6, pooled 2 0 7, pooled 1 0 5] (by
      intro t
      simp only [offeredTxs, List.mem_cons, List.not_mem_nil]
      tauto)
  exact ⟨h.2.1, by decide +kernel⟩

end
end Subhost.Mempool
