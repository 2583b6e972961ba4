import Subhost.Mempool.Runs
/-!
# The two orders of the pool (subhost-mempool/src/lib.rs:226-240, 295-317)

`pending` sorts the pool for proposal, `evict_lowest_priority` takes a minimum of it, and both iterate a
hash map. Each is given here over an enumeration of that map, and `order_independent` says that the
enumeration makes no difference on a reachable pool. The proposal order never looks at the hash: it tells
transactions apart because no two share sender and nonce. The eviction order ends in the hash.

`eviction_contiguous`: where every sender's prices do not rise with the nonce, an eviction takes the end of
its sender's queue, so that a queue without gaps stays one.
-/
namespace Subhost.Mempool
open Uint Bincode Run

/-- The order of `pending` (lib.rs:232): dearest first, then by sender, then by nonce. -/
def pendingOrder (l r : Transaction) : Ordering :=
  (compare r.gasPrice.toNat l.gasPrice.toNat).then
    ((compare l.fromAddr r.fromAddr).then (compare l.nonce.toNat r.nonce.toNat))

/-- `Mempool::pending` (lib.rs:230), over an enumeration of the transactions. -/
def pendingOver (entries : List (Hash × Transaction)) : List Transaction :=
  sortBy pendingOrder (entries.map Prod.snd)

def pending (p : Mempool) : List Transaction := pendingOver p.txs.toList

/-- `Mempool::evict_lowest_priority` (lib.rs:295), over an enumeration of the transactions. -/
def evictOver (p : Mempool) (entries : List (Hash × Transaction)) : Except MempoolError (Option Transaction) × Mempool :=
  match minBy evictOrder entries with
  | some (hash, _) => (.ok p.txs[hash]?, (p.remove hash).2)
  | none => (.error .full, p)

theorem evictLowestPriority_eq_over (p : Mempool) : p.evictLowestPriority = p.evictOver p.txs.toList := rfl

/-! ## Both are orders -/

instance transCmp_pendingOrder : Std.TransCmp pendingOrder :=
  have := transCmp_key fun t : Transaction => t.gasPrice.toNat
  have : Std.TransCmp fun l r : Transaction => compare r.gasPrice.toNat l.gasPrice.toNat := .opposite
  have := transCmp_key Transaction.fromAddr
  have := transCmp_key fun t : Transaction => t.nonce.toNat
  inferInstanceAs (Std.TransCmp (compareLex (fun l r : Transaction => compare r.gasPrice.toNat l.gasPrice.toNat)
    (compareLex (fun l r => compare l.fromAddr r.fromAddr) fun l r => compare l.nonce.toNat r.nonce.toNat)))

instance transCmp_evictOrder : Std.TransCmp evictOrder :=
  have := transCmp_key fun e : Hash × Transaction => e.2.gasPrice.toNat
  have := transCmp_key fun e : Hash × Transaction => e.2.nonce.toNat
  have : Std.TransCmp fun l r : Hash × Transaction => compare r.2.nonce.toNat l.2.nonce.toNat := .opposite
  have := transCmp_key (Prod.fst : Hash × Transaction → Hash)
  inferInstanceAs (Std.TransCmp (compareLex
    (fun l r : Hash × Transaction => compare l.2.gasPrice.toNat r.2.gasPrice.toNat)
    (compareLex (fun l r => compare r.2.nonce.toNat l.2.nonce.toNat) fun l r => compare l.1 r.1)))

theorem slot_of_pendingOrder {l r : Transaction} (h : pendingOrder l r = .eq) :
    l.fromAddr = r.fromAddr ∧ l.nonce = r.nonce := by
  obtain ⟨-, hslot⟩ := Ordering.then_eq_eq.mp h
  obtain ⟨hfrom, hnonce⟩ := Ordering.then_eq_eq.mp hslot
  exact ⟨(Map.compare_eq_iff _ _).mp hfrom, BitVec.eq_of_toNat_eq ((Map.compare_eq_iff _ _).mp hnonce)⟩

theorem hash_of_evictOrder {l r : Hash × Transaction} (h : evictOrder l r = .eq) : l.1 = r.1 :=
  (Map.compare_eq_iff _ _).mp (Ordering.then_eq_eq.mp (Ordering.then_eq_eq.mp h).2).2

/-- What comes first to be evicted is cheaper, or as cheap and not lower in nonce. -/
theorem cheaper_of_evictOrder {l r : Hash × Transaction} (h : (evictOrder l r).isLE = true) :
    l.2.gasPrice.toNat < r.2.gasPrice.toNat ∨
      l.2.gasPrice.toNat = r.2.gasPrice.toNat ∧ r.2.nonce.toNat ≤ l.2.nonce.toNat := by
  rw [evictOrder] at h
  cases hprice : compare l.2.gasPrice.toNat r.2.gasPrice.toNat with
  | lt => exact .inl (Nat.compare_eq_lt.mp hprice)
  | gt =>
    rw [hprice] at h
    cases h
  | eq =>
    refine .inr ⟨Nat.compare_eq_eq.mp hprice, ?_⟩
    rw [hprice, Ordering.eq_then] at h
    cases hnonce : compare r.2.nonce.toNat l.2.nonce.toNat with
    | lt => exact Nat.le_of_lt (Nat.compare_eq_lt.mp hnonce)
    | eq => exact Nat.le_of_eq (Nat.compare_eq_eq.mp hnonce)
    | gt =>
      rw [hnonce] at h
      cases h

section
variable [Blake3] {p : Mempool}

/-- The pending transactions, as the proposal order sees them, are all different. -/
theorem ConsistentBut.pending_distinct (hp : p.Consistent) :
    (p.txs.toList.map Prod.snd).Pairwise fun l r => pendingOrder l r ≠ .eq := by
  rw [List.pairwise_map]
  refine (Map.nodup_toList p.txs).imp_of_mem ?_
  rintro ⟨hash, t⟩ ⟨hash', t'⟩ h h' hne heq
  obtain ⟨hfrom, hnonce⟩ := slot_of_pendingOrder heq
  have hget : p.get hash = some t := Map.mem_toList.mp h
  have hget' : p.get hash' = some t' := Map.mem_toList.mp h'
  have hslot := hp.slot_of_get hget
  rw [show t.fromAddr = t'.fromAddr from hfrom, show t.nonce = t'.nonce from hnonce, hp.slot_of_get hget'] at hslot
  obtain rfl := Option.some.inj hslot
  rw [hget, Option.some.injEq] at hget'
  exact hne (by rw [hget'])

omit [Blake3] in
theorem evict_distinct (p : Mempool) : p.txs.toList.Pairwise fun l r => evictOrder l r ≠ .eq := by
  have hkeys := Map.nodup_keys_toList p.txs
  rw [List.Nodup, List.pairwise_map] at hkeys
  exact hkeys.imp fun hne heq => hne (hash_of_evictOrder heq)

theorem ConsistentBut.uniqueListing_pending (hp : p.Consistent) {entries : List (Hash × Transaction)}
    (he : Enumerates entries p.txs) :
    UniqueListing pendingOrder (p.txs.toList.map Prod.snd) (pendingOver entries) :=
  uniqueListing_sortBy (he.map Prod.snd) hp.pending_distinct

omit [Blake3] in
theorem evictOver_eq {entries : List (Hash × Transaction)} (he : Enumerates entries p.txs) :
    p.evictOver entries = p.evictLowestPriority := by
  rw [evictLowestPriority_eq_over, evictOver, evictOver, minBy_perm he (evict_distinct p)]

/-- **Neither order depends on the iteration order of the map.** On every reachable pool and for any two
enumerations of its transactions, `pending` returns the same list, a permutation of the pending transactions
that increases strictly by descending gas price, sender and nonce; and `evict_lowest_priority` does the same,
with the same victim. -/
theorem order_independent (config : MempoolConfig) (p : Mempool) (hnew : tryNew config = .ok p) (ops : List PoolOp)
    (e e' : List (Hash × Transaction)) (he : Enumerates e (final step p ops).txs)
    (he' : Enumerates e' (final step p ops).txs) :
    pendingOver e = pendingOver e' ∧ pendingOver e = (final step p ops).pending ∧
    (pendingOver e).Perm ((final step p ops).txs.toList.map Prod.snd) ∧
    ((pendingOver e).Pairwise fun l r => pendingOrder l r = .lt) ∧
    (final step p ops).evictOver e = (final step p ops).evictOver e' ∧
    (final step p ops).evictOver e = (final step p ops).evictLowestPriority := by
  obtain ⟨hq, -⟩ := consistent_run (consistent_tryNew hnew) ops
  have hlisting := hq.uniqueListing_pending he
  obtain ⟨hperm, hsorted⟩ := (hlisting _).mpr rfl
  have hself : Enumerates (final step p ops).txs.toList (final step p ops).txs := List.Perm.refl _
  exact ⟨hlisting.eq (hq.uniqueListing_pending he'), hlisting.eq (hq.uniqueListing_pending hself), hperm, hsorted,
    (evictOver_eq he).trans (evictOver_eq he').symm, evictOver_eq he⟩

end

section
open scoped Concrete

/-- Two transactions that pay the same, visited either way. -/
theorem order_independent_two :
    pendingOver (final step ⟨smallConfig, ∅, ∅⟩ [.add (pooled 2 0 5), .add (pooled 1 0 5)]).txs.toList.reverse =
      [pooled 1 0 5, pooled 2 0 5] := by
  obtain ⟨-, hpending, -⟩ := order_independent smallConfig ⟨smallConfig, ∅, ∅⟩ rfl
    [.add (pooled 2 0 5), .add (pooled 1 0 5)] _ _ (List.reverse_perm _) (List.Perm.refl _)
  rw [hpending]
  decide +kernel

end

/-! ## Eviction and nonces -/

/-- No sender's prices rise with the nonce. -/
def PricesDescend (p : Mempool) : Prop :=
  ∀ e ∈ p.txs.toList, ∀ e' ∈ p.txs.toList, e.2.fromAddr = e'.2.fromAddr → e.2.nonce.toNat ≤ e'.2.nonce.toNat →
    e'.2.gasPrice.toNat ≤ e.2.gasPrice.toNat

instance (p : Mempool) : Decidable p.PricesDescend :=
  inferInstanceAs (Decidable (∀ e ∈ p.txs.toList, ∀ e' ∈ p.txs.toList, _ → _ → _))

def pendingNonces (p : Mempool) (sender : Address) : List Nat :=
  (p.txs.toList.filter fun e => decide (e.2.fromAddr = sender)).map fun e => e.2.nonce.toNat

/-- The pending nonces of the sender are those from `lo` up to, and without, `hi`. -/
def NoncesFill (p : Mempool) (sender : Address) (lo hi : Nat) : Prop :=
  ∀ n, n ∈ p.pendingNonces sender ↔ lo ≤ n ∧ n < hi

theorem mem_pendingNonces {p : Mempool} {sender : Address} {n : Nat} :
    n ∈ p.pendingNonces sender ↔ ∃ hash t, p.get hash = some t ∧ t.fromAddr = sender ∧ t.nonce.toNat = n := by
  simp only [pendingNonces, List.mem_map, List.mem_filter, decide_eq_true_eq, Prod.exists, Map.mem_toList, get,
    and_assoc]

/-- The victim is a cheapest pending transaction, and among the cheapest one with the highest nonce. -/
theorem victim_le {p : Mempool} {victim hash : Hash} {v t : Transaction}
    (hmin : minBy evictOrder p.txs.toList = some (victim, v)) (hget : p.get hash = some t) :
    v.gasPrice.toNat < t.gasPrice.toNat ∨ v.gasPrice.toNat = t.gasPrice.toNat ∧ t.nonce.toNat ≤ v.nonce.toNat :=
  cheaper_of_evictOrder (minBy_le hmin (hash, t) (Map.mem_toList.mpr hget))

theorem PricesDescend.victim_highest {p : Mempool} (h : p.PricesDescend) {victim hash : Hash} {v t : Transaction}
    (hmin : minBy evictOrder p.txs.toList = some (victim, v)) (hget : p.get hash = some t)
    (hfrom : t.fromAddr = v.fromAddr) : t.nonce.toNat ≤ v.nonce.toNat := by
  by_contra hlater
  have hdescend := h (victim, v) (minBy_mem evictOrder hmin) (hash, t) (Map.mem_toList.mpr hget) hfrom.symm
    (Nat.le_of_not_le hlater)
  rcases victim_le hmin hget with hcheaper | ⟨-, hnonce⟩
  · exact absurd hdescend (Nat.not_le.mpr hcheaper)
  · exact hlater hnonce

section
variable [Blake3]

/-- A removal takes one nonce from one sender. -/
theorem ConsistentBut.mem_pendingNonces_remove {p : Mempool} (hp : p.Consistent) {hash : Hash} {v : Transaction}
    (hget : p.get hash = some v) (sender : Address) (n : Nat) :
    n ∈ (p.remove hash).2.pendingNonces sender ↔
      n ∈ p.pendingNonces sender ∧ ¬ (sender = v.fromAddr ∧ n = v.nonce.toNat) := by
  rw [mem_pendingNonces, mem_pendingNonces]
  constructor
  · rintro ⟨h, t, ht, rfl, rfl⟩
    have hold := (remove_spec p hash).2 ht
    refine ⟨⟨h, t, hold, rfl, rfl⟩, ?_⟩
    rintro ⟨hfrom, hnonce⟩
    -- the same slot, so the removed transaction
    have hslot := hp.slot_of_get hold
    rw [hfrom, BitVec.eq_of_toNat_eq hnonce, hp.slot_of_get hget] at hslot
    obtain rfl := Option.some.inj hslot
    rw [get, remove_txs, Map.get_erase_self] at ht
    cases ht
  · rintro ⟨⟨h, t, ht, rfl, rfl⟩, hother⟩
    refine ⟨h, t, ?_, rfl, rfl⟩
    have hne : hash ≠ h := by
      rintro rfl
      rw [hget, Option.some.injEq] at ht
      exact hother ⟨by rw [ht], by rw [ht]⟩
    rw [get, remove_txs, Map.get_erase_ne _ hne]
    exact ht

/-- **Eviction keeps nonce queues contiguous.** In every reachable pool that is not empty there is a victim.
If no sender's prices rise with the nonce, it has the highest nonce of its sender, and every sender whose
pending nonces were an interval has the same interval after the eviction, its sender without the last. -/
theorem eviction_contiguous (config : MempoolConfig) (p : Mempool) (hnew : tryNew config = .ok p)
    (ops : List PoolOp) (hprices : (final step p ops).PricesDescend) :
    ((final step p ops).txs.size ≠ 0 → ∃ v, (final step p ops).evictLowestPriority.1 = .ok (some v)) ∧
    ∀ v, (final step p ops).evictLowestPriority.1 = .ok (some v) →
      (∃ hash, (final step p ops).get hash = some v) ∧
      (∀ hash t, (final step p ops).get hash = some t → t.fromAddr = v.fromAddr → t.nonce.toNat ≤ v.nonce.toNat) ∧
      ∀ sender lo hi, (final step p ops).NoncesFill sender lo hi →
        (final step p ops).evictLowestPriority.2.NoncesFill sender lo (if sender = v.fromAddr then hi - 1 else hi) := by
  obtain ⟨hq, -⟩ := consistent_run (consistent_tryNew hnew) ops
  generalize final step p ops = q at hq hprices ⊢
  constructor
  · intro hne
    obtain ⟨_, v, -, -, hevict⟩ := evictLowestPriority_of_pos (Nat.pos_of_ne_zero hne)
    exact ⟨v, by rw [hevict]⟩
  · intro v hv
    have hpos : 0 < q.txs.size := by
      refine Nat.pos_of_ne_zero fun hzero => ?_
      rw [← Std.ExtTreeMap.length_toList] at hzero
      rw [evictLowestPriority, List.length_eq_zero_iff.mp hzero] at hv
      cases hv
    obtain ⟨victim, v', hmin, hget, hevict⟩ := evictLowestPriority_of_pos hpos
    rw [hevict] at hv ⊢
    obtain rfl : v' = v := by simpa using hv
    have hhighest : ∀ hash t, q.get hash = some t → t.fromAddr = v'.fromAddr → t.nonce.toNat ≤ v'.nonce.toNat :=
      fun hash t ht hfrom => hprices.victim_highest hmin ht hfrom
    refine ⟨⟨victim, hget⟩, hhighest, ?_⟩
    intro sender lo hi hfill n
    rw [hq.mem_pendingNonces_remove hget, hfill]
    split
    · rename_i hsender
      -- the victim's nonce is the last of the interval
      obtain ⟨hlo, hhi⟩ := (hfill v'.nonce.toNat).mp (mem_pendingNonces.mpr ⟨victim, v', hget, hsender.symm, rfl⟩)
      obtain ⟨hash, t, ht, hfrom, hlast⟩ := mem_pendingNonces.mp ((hfill (hi - 1)).mpr (by omega))
      have hmax := hhighest hash t ht (hfrom.trans hsender)
      rw [and_iff_right hsender]
      omega
    · rename_i hsender
      exact and_iff_left (not_and_of_not_left _ hsender)

end

section
open scoped Concrete

def queuedOps : List PoolOp := [.add (pooled 1 0 5), .add (pooled 1 1 5), .add (pooled 2 0 5)]

/-- Two queues at one price: the later nonce of the first sender goes. -/
theorem eviction_contiguous_equal :
    (final step default queuedOps).evictLowestPriority.2.NoncesFill (Vector.replicate addressSize 1) 0 1 := by
  obtain ⟨-, hevicts⟩ := eviction_contiguous MempoolConfig.default default rfl queuedOps (by decide +kernel)
  obtain ⟨-, -, hfill⟩ := hevicts (pooled 1 1 5) (by decide +kernel)
  refine hfill (Vector.replicate addressSize 1) 0 2 ?_
  have hnonces : ((final step default queuedOps).pendingNonces (Vector.replicate addressSize 1)).Perm [0, 1] := by
    decide +kernel
  intro n
  rw [hnonces.mem_iff, List.mem_pair]
  omega

end
end Subhost.Mempool
