import Subhost.Mempool.Order
/-!
# The effect of an admission (subhost-mempool/src/lib.rs:112-181)

`admit` changes the pool before its later checks, replaces and evicts, and reports at most one transaction
as displaced. `admission_exact` is its whole effect on a reachable pool. That one report is enough because a
replacement has made the room it needs: a pool within its capacity is not full once a transaction is gone.

`eviction_price`: the victim is a cheapest pending transaction, whatever the new one pays. The new one is not
among those compared, so a full pool gives up a better price for a worse one unless somebody pending pays no
more than the new one.
-/
namespace Subhost.Mempool
open Uint Bincode Codec Run

section
variable [Blake3]

/-- The pool without a transaction that has left it. -/
def without (p : Mempool) (gone : Option Transaction) : Mempool := gone.elim p fun t => (p.remove t.hash).2

/-- The transaction that `evict_lowest_priority` takes. -/
def nextVictim (p : Mempool) : Option Transaction := p.evictLowestPriority.1.toOption.join

/-- What leaves the pool when a transaction comes in: nothing for one that is pending already; the owner of
its slot, if there is one; otherwise the victim, if the pool is full. -/
def displacedBy (p : Mempool) (tx : Transaction) : Option Transaction :=
  if (p.get tx.hash).isSome then none
  else
    match p.getBySenderNonce tx.fromAddr tx.nonce with
    | some (_, owner) => some owner
    | none => if p.txs.size = p.config.maxPending then p.nextVictim else none

/-- The effect of an admission that was accepted. -/
structure Accepted (p : Mempool) (tx : Transaction) (a : Admission) (q : Mempool) : Prop where
  hash : a.hash = tx.hash
  slot : q.getBySenderNonce tx.fromAddr tx.nonce = some (tx.hash, tx)
  pool : q = (p.without a.displaced).place tx.hash tx
  displaced : a.displaced = p.displacedBy tx
  dearer : p.get tx.hash = none → ∀ hash owner, p.getBySenderNonce tx.fromAddr tx.nonce = some (hash, owner) →
    owner.gasPrice.toNat < tx.gasPrice.toNat
  undone : p.get tx.hash = none → a.displaced.toList.foldl (fun p t => (p.add t).2) (q.remove tx.hash).2 = p

/-- The effect of an admission, by its result. -/
def Effect (p : Mempool) (tx : Transaction) : Except MempoolError Admission × Mempool → Prop
  | (.error _, q) => q = p
  | (.ok a, q) =>
    (a.accepted = true → Accepted p tx a q) ∧
    (a.accepted = false → q = p ∧ ∃ owner, p.getBySenderNonce tx.fromAddr tx.nonce = some (a.hash, owner) ∧
      tx.gasPrice.toNat ≤ owner.gasPrice.toNat)

theorem ConsistentBut.place_pending {p : Mempool} {tx : Transaction} (hp : p.Consistent)
    (hget : p.get tx.hash = some tx) : p.place tx.hash tx = p := by
  have hslot : Nested.look p.bySender tx.fromAddr tx.nonce = some tx.hash := hp.slot_of_get hget
  rw [Mempool.place, Map.insert_get hget, Nested.put_look hslot]

theorem displacedBy_of_free {p : Mempool} {tx : Transaction} (hnew : p.get tx.hash = none)
    (hfree : p.slot tx.fromAddr tx.nonce = none) :
    p.displacedBy tx = if p.txs.size = p.config.maxPending then p.nextVictim else none := by
  simp [displacedBy, hnew, getBySenderNonce_of_free hfree]

omit [Blake3] in
theorem nextVictim_of_min {p : Mempool} {victim : Hash} {t : Transaction}
    (hmin : minBy evictOrder p.txs.toList = some (victim, t)) : p.nextVictim = some t := by
  have hget : p.txs[victim]? = some t := get_of_min hmin
  simp [nextVictim, evictLowestPriority, hmin, hget, Except.toOption]

/-- Each result of `admit` has this effect, if no other pending transaction has the hash of the new one. -/
theorem Outcome.effect {p : Mempool} {tx : Transaction} {result : Except MempoolError Admission × Mempool}
    (h : Outcome p tx result) (hp : p.Consistent) (hsame : ∀ t, p.get tx.hash = some t → t = tx) :
    Effect p tx result := by
  have hnone : p.slot tx.fromAddr tx.nonce = none → ∀ hash owner,
      p.getBySenderNonce tx.fromAddr tx.nonce = some (hash, owner) → owner.gasPrice.toNat < tx.gasPrice.toNat := by
    intro hfree hash owner howner
    rw [getBySenderNonce_of_free hfree] at howner
    cases howner
  cases h with
  | refused e => exact rfl
  | outbid hget hslot hprice =>
    exact ⟨nofun, fun _ => ⟨rfl, _, getBySenderNonce_of_slot hslot hget, hprice⟩⟩
  | pending hget =>
    obtain rfl := hsame _ hget
    refine ⟨fun _ => ⟨rfl, hp.getBySenderNonce_of_get hget, (hp.place_pending hget).symm, ?_, ?_, ?_⟩, nofun⟩
    · simp [displacedBy, hget]
    · intro hnew
      rw [hget] at hnew
      cases hnew
    · intro hnew
      rw [hget] at hnew
      cases hnew
  | fresh hnew hfree hroom hq =>
    refine ⟨fun _ => ⟨rfl, hq.getBySenderNonce_of_get (get_place _ _ _), rfl, ?_, fun _ => hnone hfree,
      fun _ => hp.remove_place hnew hq⟩, nofun⟩
    rw [displacedBy_of_free hnew hfree, if_neg (Nat.ne_of_lt hroom)]
  | @evicting victim t hnew hfree hfull hmin hq =>
    have hget := get_of_min hmin
    obtain rfl := hp.sound.keyed hget
    refine ⟨fun _ => ⟨rfl, hq.getBySenderNonce_of_get (get_place _ _ _), rfl, ?_, fun _ => hnone hfree,
      fun _ => hp.restore_displaced hnew hget hq⟩, nofun⟩
    rw [displacedBy_of_free hnew hfree, if_pos hfull, nextVictim_of_min hmin]
  | @replacing existing t hnew hget hslot hprice hq =>
    have howner := getBySenderNonce_of_slot hslot hget
    obtain rfl := hp.sound.keyed hget
    refine ⟨fun _ => ⟨rfl, hq.getBySenderNonce_of_get (get_place _ _ _), rfl, ?_, ?_,
      fun _ => hp.restore_displaced hnew hget hq⟩, nofun⟩
    · simp [displacedBy, hnew, howner]
    · intro _ hash owner howner'
      rw [howner, Option.some.injEq, Prod.mk.injEq] at howner'
      rw [← howner'.2]
      exact hprice

/-- **The exact effect of an admission**, on every reachable pool. If `admit` returns an error or does not
accept, the pool is unchanged, and in the second case the hash it returns is that of the transaction in the
slot, which pays at least as much. If it accepts, it returns the hash of the transaction, which is in its slot;
the pool is the old one with it and without the displaced transaction, the cheaper one of its slot or else the
victim of a full pool; and where it was not pending before, removing it and adding what it displaced gives the
old pool back. -/
theorem admission_exact (config : MempoolConfig) (p : Mempool) (hnew : tryNew config = .ok p) (ops : List PoolOp)
    (tx : Transaction) (hcf : ∀ t, (final step p ops).get tx.hash = some t →
      CollisionFree [Transaction.codec.encode t, Transaction.codec.encode tx]) :
    Effect (final step p ops) tx ((final step p ops).admitTx tx) := by
  obtain ⟨hq, -⟩ := consistent_run (consistent_tryNew hnew) ops
  refine (hq.outcome tx).effect hq ?_
  intro t hget
  have hhash : t.hash = tx.hash := hq.sound.keyed hget
  exact Transaction.encode_injective (hcf t hget _ (by simp) _ (by simp) hhash)

end

section
open scoped Concrete

/-- A full pool: the transaction of price 6 has replaced the one of price 5. -/
def fullPool : Mempool := final step ⟨smallConfig, ∅, ∅⟩ (crowdedOps.take 3)

/-- An eviction, and its undoing. -/
theorem admission_exact_eviction :
    ∃ a, (fullPool.admitTx (pooled 1 1 8)).1 = .ok a ∧ a.displaced = some (pooled 1 0 6) ∧
      (((fullPool.admitTx (pooled 1 1 8)).2.remove (pooled 1 1 8).hash).2.add (pooled 1 0 6)).2 = fullPool := by
  have hnew : fullPool.get (pooled 1 1 8).hash = none := by decide +kernel
  have heffect := admission_exact smallConfig ⟨smallConfig, ∅, ∅⟩ rfl (crowdedOps.take 3) (pooled 1 1 8)
    fun t hget => by
      rw [show (final step ⟨smallConfig, ∅, ∅⟩ (crowdedOps.take 3)).get (pooled 1 1 8).hash = none from hnew] at hget
      cases hget
  have hresult : (fullPool.admitTx (pooled 1 1 8)).1.toOption.map (fun a => (a.accepted, a.displaced)) =
      some (true, some (pooled 1 0 6)) := by decide +kernel
  change Effect fullPool _ (fullPool.admitTx (pooled 1 1 8)) at heffect
  rcases h : fullPool.admitTx (pooled 1 1 8) with ⟨e | a, q⟩
  · rw [h] at hresult
    cases hresult
  · rw [h] at hresult heffect
    obtain ⟨haccepted, hdisplaced⟩ := Prod.mk.inj (Option.some.inj hresult)
    have hundone := (heffect.1 haccepted).undone hnew
    rw [show a.displaced = some (pooled 1 0 6) from hdisplaced] at hundone
    exact ⟨a, rfl, hdisplaced, hundone⟩

end

/-! ## Who pays more -/

section
variable [Blake3]

/-- The admission takes a free slot and evicts `v`. -/
def Evicts (p : Mempool) (tx v : Transaction) : Prop :=
  p.getBySenderNonce tx.fromAddr tx.nonce = none ∧ (p.admitTx tx).1.toOption.bind Admission.displaced = some v

omit [Blake3] in
/-- Somebody pending pays no more. -/
def Outpays (p : Mempool) (tx : Transaction) : Prop := ∃ e ∈ p.txs.toList, e.2.gasPrice.toNat ≤ tx.gasPrice.toNat

/-- A pool that is full of transactions which pay at least `price`. -/
structure Floor (price : Nat) (p : Mempool) : Prop where
  consistent : p.Consistent
  full : p.txs.size = p.config.maxPending
  above : ∀ {hash t}, p.get hash = some t → price ≤ t.gasPrice.toNat

theorem ConsistentBut.evicts_cases {p : Mempool} {tx v : Transaction} (hp : p.Consistent) (h : p.Evicts tx v) :
    p.txs.size = p.config.maxPending ∧ ∃ victim, minBy evictOrder p.txs.toList = some (victim, v) := by
  obtain ⟨hfree, hdisplaced⟩ := h
  have houtcome := hp.outcome tx
  revert hdisplaced
  generalize p.admitTx tx = result at houtcome
  intro hdisplaced
  cases houtcome with
  | refused | outbid | pending | fresh => cases hdisplaced
  | evicting _ _ hfull hmin _ =>
    obtain rfl := Option.some.inj hdisplaced
    exact ⟨hfull, _, hmin⟩
  | replacing _ hget hslot =>
    rw [getBySenderNonce_of_slot hslot hget] at hfree
    cases hfree

/-- A new transaction in the place of another: the pool stays full, and above what the new one pays. -/
theorem Floor.place {price : Nat} {p : Mempool} {tx t : Transaction} {hash : Hash} (h : Floor price p)
    (hnew : p.get tx.hash = none) (hget : p.get hash = some t) (hprice : price ≤ tx.gasPrice.toNat)
    (hq : ((p.remove hash).2.place tx.hash tx).Consistent) : Floor price ((p.remove hash).2.place tx.hash tx) := by
  refine ⟨hq, ?_, ?_⟩
  · show ((p.remove hash).2.txs.insert tx.hash tx).size = (p.remove hash).2.config.maxPending
    rw [Map.size_insert_of_none tx (get_remove_of_none hnew), size_remove hget, remove_config]
    exact h.full
  · intro hash' t' hget'
    by_cases e : tx.hash = hash'
    · subst e
      rw [get_place, Option.some.injEq] at hget'
      rwa [← hget']
    · rw [get, Mempool.place, Map.get_insert_ne _ _ e] at hget'
      exact h.above ((remove_spec p hash).2 hget')

/-- One admission, where somebody pending pays no more if it evicts. -/
theorem Floor.admitTx {price : Nat} {p : Mempool} (h : Floor price p) {tx : Transaction}
    (hpays : ∀ v, p.Evicts tx v → p.Outpays tx) : Floor price (p.admitTx tx).2 := by
  have houtcome := h.consistent.outcome tx
  have hevicts : ∀ v, p.getBySenderNonce tx.fromAddr tx.nonce = none →
      (p.admitTx tx).1.toOption.bind Admission.displaced = some v → p.Outpays tx := fun v hfree hv => hpays v ⟨hfree, hv⟩
  revert hevicts
  generalize p.admitTx tx = result at houtcome
  intro hevicts
  cases houtcome with
  | refused | outbid | pending => exact h
  | fresh _ _ hroom => exact absurd h.full (Nat.ne_of_lt hroom)
  | evicting hnew hfree _ hmin hq =>
    obtain ⟨⟨hash, t⟩, hmem, hle⟩ := hevicts _ (getBySenderNonce_of_free hfree) rfl
    have hfloor := h.above (Map.mem_toList.mp hmem)
    exact h.place hnew (get_of_min hmin) (Nat.le_trans hfloor hle) hq
  | replacing hnew hget _ hprice hq =>
    exact h.place hnew hget (Nat.le_trans (h.above hget) (Nat.le_of_lt hprice)) hq

/-- The victim is a cheapest one. -/
theorem ConsistentBut.evicts_cheapest {p : Mempool} {tx v : Transaction} (hp : p.Consistent) (h : p.Evicts tx v) :
    Floor v.gasPrice.toNat p ∧ (v.gasPrice.toNat ≤ tx.gasPrice.toNat ↔ p.Outpays tx) := by
  obtain ⟨hfull, victim, hmin⟩ := hp.evicts_cases h
  have hle : ∀ {hash t}, p.get hash = some t → v.gasPrice.toNat ≤ t.gasPrice.toNat := by
    intro hash t hget
    rcases victim_le hmin hget with hlt | ⟨heq, -⟩
    · exact Nat.le_of_lt hlt
    · exact Nat.le_of_eq heq
  refine ⟨⟨hp, hfull, hle⟩, ?_⟩
  constructor
  · intro hprice
    exact ⟨(victim, v), minBy_mem evictOrder hmin, hprice⟩
  · rintro ⟨⟨hash, t⟩, hmem, hprice⟩
    exact Nat.le_trans (hle (Map.mem_toList.mp hmem)) hprice

/-- **What an eviction costs.** On every reachable pool an admission evicts only if the pool is full, and then
a transaction that pays no more than any other pending one. It pays no more than the new one if and only if
some pending transaction does. In a run of admissions in which that is so at every eviction, each evicted
transaction pays no more than any that is pending at the end. -/
theorem eviction_price (config : MempoolConfig) (p : Mempool) (hnew : tryNew config = .ok p) (ops : List PoolOp) :
    (∀ tx v, (final step p ops).Evicts tx v →
      (final step p ops).txs.size = config.maxPending ∧
      (∀ hash t, (final step p ops).get hash = some t → v.gasPrice.toNat ≤ t.gasPrice.toNat) ∧
      (v.gasPrice.toNat ≤ tx.gasPrice.toNat ↔ (final step p ops).Outpays tx)) ∧
    ∀ offers, (∀ c ∈ trace Mempool.admitTx (final step p ops) offers,
        ∀ v, c.before.Evicts c.input v → c.before.Outpays c.input) →
      ∀ c ∈ trace Mempool.admitTx (final step p ops) offers, ∀ v, c.before.Evicts c.input v →
        ∀ hash t, (final Mempool.admitTx (final step p ops) offers).get hash = some t →
          v.gasPrice.toNat ≤ t.gasPrice.toNat := by
  obtain ⟨hq, hconfig⟩ := consistent_run (consistent_tryNew hnew) ops
  rw [config_of_tryNew hnew] at hconfig
  constructor
  · intro tx v hevicts
    obtain ⟨hfloor, hiff⟩ := hq.evicts_cheapest hevicts
    exact ⟨by rw [hfloor.full, hconfig], fun hash t hget => hfloor.above hget, hiff⟩
  · intro offers hpays c hc v hevicts hash t hget
    -- the price of the victim is a floor from its eviction on
    have hkept := final_of_trace Mempool.admitTx Consistent
      (fun c => ∀ v, c.before.Evicts c.input v → c.before.Outpays c.input)
      (fun c q => ∀ v, c.before.Evicts c.input v → Floor v.gasPrice.toNat q) (fun q tx hq => hq.admitTx tx)
      (fun q tx hq hpays v hv => (hq.evicts_cheapest hv).1.admitTx hpays)
      (fun c q tx hfloor hpays v hv => (hfloor v hv).admitTx hpays) hq offers hpays c hc
    exact (hkept v hevicts).above hget

end

section
open scoped Concrete

/-- Two transactions of price 8 go through the full pool. -/
theorem eviction_price_offers :
    fullPool.Evicts (pooled 1 1 8) (pooled 1 0 6) ∧
    (∀ hash t, fullPool.get hash = some t → (pooled 1 0 6).gasPrice.toNat ≤ t.gasPrice.toNat) ∧
    ∀ hash t, (final admitTx fullPool [pooled 1 1 8, pooled 3 0 8]).get hash = some t → 6 ≤ t.gasPrice.toNat := by
  have hevicts : fullPool.Evicts (pooled 1 1 8) (pooled 1 0 6) := ⟨by decide +kernel, by decide +kernel⟩
  obtain ⟨hone, hrun⟩ := eviction_price smallConfig ⟨smallConfig, ∅, ∅⟩ rfl (crowdedOps.take 3)
  refine ⟨hevicts, (hone _ _ hevicts).2.1, ?_⟩
  refine hrun [pooled 1 1 8, pooled 3 0 8] ?_ ⟨fullPool, pooled 1 1 8, _, _⟩ List.mem_cons_self (pooled 1 0 6) hevicts
  have hpays : ∀ c ∈ trace admitTx fullPool [pooled 1 1 8, pooled 3 0 8],
      ∃ e ∈ c.before.txs.toList, e.2.gasPrice.toNat ≤ c.input.gasPrice.toNat := by decide +kernel
  exact fun c hc v _ => hpays c hc

/-- A transaction of price 1 evicts one of price 6. -/
theorem cheap_newcomer_evicts :
    fullPool.txs.size = smallConfig.maxPending ∧ fullPool.Evicts (pooled 3 0 1) (pooled 1 0 6) ∧
    (pooled 3 0 1).gasPrice.toNat < (pooled 1 0 6).gasPrice.toNat :=
  ⟨by decide +kernel, ⟨by decide +kernel, by decide +kernel⟩, by decide⟩

end
end Subhost.Mempool
