import Subhost.Mempool.Runs
import Subhost.State.Runs
/-!
# The executable prefix of a sender's queue (subhost-mempool/src/lib.rs:242-265)

`ready_for` walks a sender's queue upwards from a nonce and stops at the first gap, at a hash without a
transaction, or at the last nonce there is. On a reachable pool the second never happens, and the third leaves
nothing out: `readyLoop_spec` is the loop, `ready_prefix` the result on every reachable pool.

The pool counts nonces on its own. It stays in step with `State::apply_transaction` because a success moves the
sender's nonce on by one (`applyAll_nonces`): the prefix never fails for a nonce, whatever else stops it.
-/
namespace Subhost
open Uint Bincode Run

namespace Mempool

/-- The loop of `ready_for` (lib.rs:251), over what is left of the queue. -/
def readyLoop (txs : Map Hash Transaction) : Nonce → List (Nonce × Hash) → List Transaction
  | _, [] => []
  | expected, (nonce, hash) :: rest =>
    if nonce ≠ expected then []
    else
      match txs[hash]? with
      | none => []
      | some tx =>
        match checkedAdd expected 1 with
        | none => [tx]
        | some next => tx :: readyLoop txs next rest

/-- `Mempool::ready_for` (lib.rs:245); `range(next_nonce..)` ascends. -/
def readyFor (p : Mempool) (sender : Address) (nextNonce : Nonce) : List Transaction :=
  match p.bySender[sender]? with
  | none => []
  | some nonces => readyLoop p.txs nextNonce (nonces.toList.filter fun e => decide (nextNonce ≤ e.1))

/-- The `i`-th transaction of the list is the one of the `i`-th nonce from `start`. -/
def Follows (txs : Map Hash Transaction) (entries : List (Nonce × Hash)) (start : Nonce) (l : List Transaction) : Prop :=
  ∀ (i : Nat) (tx : Transaction), l[i]? = some tx →
    ∃ nonce hash, (nonce, hash) ∈ entries ∧ nonce.toNat = start.toNat + i ∧ txs[hash]? = some tx

/-- **The loop**: on entries in ascending order from `expected` on that all have their transaction, it collects
those of consecutive nonces, until one is missing or there is no further nonce. -/
theorem readyLoop_spec {txs : Map Hash Transaction} {entries : List (Nonce × Hash)} {expected : Nonce}
    (hsorted : entries.Pairwise fun d e => d.1.toNat < e.1.toNat)
    (hfrom : ∀ e ∈ entries, expected.toNat ≤ e.1.toNat) (hstored : ∀ e ∈ entries, ∃ tx, txs[e.2]? = some tx) :
    Follows txs entries expected (readyLoop txs expected entries) ∧
      ∀ e ∈ entries, e.1.toNat ≠ expected.toNat + (readyLoop txs expected entries).length := by
  induction entries generalizing expected with
  | nil => exact ⟨by simp [Follows, readyLoop], by simp⟩
  | cons head rest ih =>
    obtain ⟨nonce, hash⟩ := head
    obtain ⟨habove, hsorted⟩ := List.pairwise_cons.mp hsorted
    rw [List.forall_mem_cons] at hfrom hstored
    obtain ⟨tx, htx⟩ := hstored.1
    unfold readyLoop
    by_cases hgap : nonce = expected
    · subst hgap
      simp only [ne_eq, not_true_eq_false, if_false, htx]
      cases hnext : checkedAdd nonce 1 with
      | none =>
        -- the last nonce there is: nothing in the queue is above it
        have hlast : 2 ^ 64 ≤ nonce.toNat + 1 := checkedAdd_eq_none.mp hnext
        refine ⟨?_, ?_⟩
        · intro i t hi
          obtain ⟨rfl, rfl⟩ : i = 0 ∧ tx = t := by
            cases i with
            | zero => simpa using hi
            | succ i => simp at hi
          exact ⟨nonce, hash, List.mem_cons_self .., rfl, htx⟩
        · intro e he
          have := e.1.isLt
          simp only [List.length_singleton]
          omega
      | some next =>
        have hval : next.toNat = nonce.toNat + 1 := checkedAdd_eq_some.mp hnext
        have hrest : ∀ e ∈ rest, next.toNat ≤ e.1.toNat := by
          intro e he
          have habove : nonce.toNat < e.1.toNat := habove e he
          omega
        obtain ⟨hfollows, hend⟩ := ih hsorted hrest hstored.2
        refine ⟨?_, ?_⟩
        · intro i t hi
          cases i with
          | zero =>
            obtain rfl : tx = t := by simpa using hi
            exact ⟨nonce, hash, List.mem_cons_self .., rfl, htx⟩
          | succ i =>
            obtain ⟨n, h, hmem, hn, hget⟩ := hfollows i t (by simpa using hi)
            exact ⟨n, h, List.mem_cons_of_mem _ hmem, by omega, hget⟩
        · rw [List.forall_mem_cons]
          refine ⟨?_, ?_⟩
          · simp only [List.length_cons]
            omega
          · intro e he
            have := hend e he
            simp only [List.length_cons]
            omega
    · have hne : nonce.toNat ≠ expected.toNat := fun e => hgap (BitVec.eq_of_toNat_eq e)
      have hlt : expected.toNat < nonce.toNat := Nat.lt_of_le_of_ne hfrom.1 (Ne.symm hne)
      simp only [ne_eq, hgap, not_false_eq_true, if_true]
      refine ⟨by simp [Follows], ?_⟩
      rw [List.forall_mem_cons]
      refine ⟨?_, ?_⟩
      · simp only [List.length_nil]
        omega
      · intro e he
        have habove : nonce.toNat < e.1.toNat := habove e he
        simp only [List.length_nil]
        omega

/-! ## On a reachable pool -/

/-- The part of a sender's queue that the loop walks. -/
def queueFrom (p : Mempool) (sender : Address) (nextNonce : Nonce) : List (Nonce × Hash) :=
  (Nested.row p.bySender sender).filter fun e => decide (nextNonce ≤ e.1)

theorem readyFor_eq (p : Mempool) (sender : Address) (nextNonce : Nonce) :
    p.readyFor sender nextNonce = readyLoop p.txs nextNonce (p.queueFrom sender nextNonce) := by
  unfold readyFor queueFrom Nested.row
  cases p.bySender[sender]? with
  | none => rfl
  | some nonces => rfl

theorem sorted_queueFrom (p : Mempool) (sender : Address) (nextNonce : Nonce) :
    (p.queueFrom sender nextNonce).Pairwise fun d e => d.1.toNat < e.1.toNat := by
  unfold queueFrom Nested.row
  cases p.bySender[sender]? with
  | none => exact .nil
  | some nonces => exact (Std.ExtTreeMap.ordered_keys_toList.imp compare_lt_iff.mp).filter _

section
variable [Blake3] {p : Mempool}

/-- The transaction in a slot is of that sender and nonce. -/
theorem ConsistentBut.of_getBySenderNonce (hp : p.Consistent) {sender : Address} {nonce : Nonce} {hash : Hash}
    {tx : Transaction} (h : p.getBySenderNonce sender nonce = some (hash, tx)) :
    p.get hash = some tx ∧ tx.fromAddr = sender ∧ tx.nonce = nonce := by
  rw [getBySenderNonce_eq, Option.bind_eq_some_iff] at h
  obtain ⟨h', hslot, hmap⟩ := h
  obtain ⟨t, hget, heq⟩ := Option.map_eq_some_iff.mp hmap
  obtain ⟨rfl, rfl⟩ := Prod.mk.inj heq
  obtain ⟨t', hget', hfrom, hnonce⟩ := (hp.indexed _ _ _).mp hslot
  obtain rfl : t = t' := Option.some.inj (hget.symm.trans hget')
  exact ⟨hget, hfrom, hnonce⟩

theorem ConsistentBut.mem_queueFrom (hp : p.Consistent) {sender : Address} {nextNonce nonce : Nonce} {hash : Hash} :
    (nonce, hash) ∈ p.queueFrom sender nextNonce ↔
      nextNonce.toNat ≤ nonce.toNat ∧ ∃ tx, p.getBySenderNonce sender nonce = some (hash, tx) := by
  rw [queueFrom, List.mem_filter, Nested.mem_row, decide_eq_true_iff, le_iff_toNat, and_comm]
  refine and_congr_right fun _ => ?_
  constructor
  · intro hslot
    obtain ⟨tx, hget, rfl, rfl⟩ := (hp.indexed _ _ _).mp hslot
    exact ⟨tx, hp.getBySenderNonce_of_get hget⟩
  · rintro ⟨tx, htx⟩
    obtain ⟨hget, rfl, rfl⟩ := hp.of_getBySenderNonce htx
    exact hp.slot_of_get hget

/-- What `ready_for` returns: the pending transactions of consecutive nonces from `nextNonce` on, up to a nonce
that is not pending or does not exist. -/
theorem ConsistentBut.readyFor_spec (hp : p.Consistent) (sender : Address) (nextNonce : Nonce) :
    (∀ (i : Nat) (tx : Transaction), (p.readyFor sender nextNonce)[i]? = some tx →
      ∃ nonce hash, nonce.toNat = nextNonce.toNat + i ∧ p.getBySenderNonce sender nonce = some (hash, tx)) ∧
    ∀ nonce : Nonce, nonce.toNat = nextNonce.toNat + (p.readyFor sender nextNonce).length →
      p.getBySenderNonce sender nonce = none := by
  have hstored : ∀ e ∈ p.queueFrom sender nextNonce, ∃ tx, p.txs[e.2]? = some tx := by
    rintro ⟨nonce, hash⟩ he
    obtain ⟨-, tx, htx⟩ := hp.mem_queueFrom.mp he
    exact ⟨tx, (hp.of_getBySenderNonce htx).1⟩
  obtain ⟨hfollows, hend⟩ := readyLoop_spec (sorted_queueFrom p sender nextNonce)
    (fun e he => (hp.mem_queueFrom.mp he).1) hstored
  rw [readyFor_eq]
  refine ⟨?_, ?_⟩
  · intro i tx hi
    obtain ⟨nonce, hash, he, hnonce, hget⟩ := hfollows i tx hi
    obtain ⟨-, t, ht⟩ := hp.mem_queueFrom.mp he
    obtain rfl : tx = t := Option.some.inj (hget.symm.trans (hp.of_getBySenderNonce ht).1)
    exact ⟨nonce, hash, hnonce, ht⟩
  · intro nonce hnonce
    cases hget : p.getBySenderNonce sender nonce with
    | none => rfl
    | some entry =>
      exact absurd hnonce (hend (nonce, entry.1) (hp.mem_queueFrom.mpr ⟨by omega, entry.2, hget⟩))

end
end Mempool

/-! ## Applying them -/

namespace State

/-- `apply_transaction` one after the other until the first failure, which is returned. -/
def applyAll : State → List Transaction → Option StateError × State
  | s, [] => (none, s)
  | s, tx :: rest =>
    match s.applyTransaction tx with
    | (.error e, s) => (some e, s)
    | (.ok _, s) => s.applyAll rest

/-- Transactions of one sender with consecutive nonces from its own on never fail for their nonce. -/
theorem applyAll_nonces {s : State} {sender : Address} {txs : List Transaction}
    (h : ∀ (i : Nat) (tx : Transaction), txs[i]? = some tx →
      tx.fromAddr = sender ∧ tx.nonce.toNat = (s.nonce sender).toNat + i) {e : StateError}
    (he : (s.applyAll txs).1 = some e) (a : Address) (expected got : Nonce) : e ≠ .invalidNonce a expected got := by
  induction txs generalizing s with
  | nil => cases he
  | cons tx rest ih =>
    obtain ⟨hfrom, hnonce⟩ := h 0 tx rfl
    unfold applyAll at he
    split at he
    · rename_i e' s' hfail
      obtain rfl : e' = e := Option.some.inj he
      rintro rfl
      refine nonce_ne_of_invalidNonce hfail (BitVec.eq_of_toNat_eq ?_)
      rw [hfrom]
      exact hnonce
    · rename_i fee s' hok
      obtain ⟨dst, -, heffect⟩ := effect_of_ok hok
      have hmoved := nonce_of_effect heffect sender
      rw [if_pos hfrom] at hmoved
      refine ih ?_ he
      intro i t hi
      obtain ⟨hfrom, hnonce⟩ := h (i + 1) t (by simpa using hi)
      exact ⟨hfrom, by omega⟩

end State

namespace Mempool
section
variable [Blake3]

/-- **The maximal executable prefix.** On every reachable pool `ready_for` returns the sender's pending
transactions of the nonces `next_nonce`, `next_nonce + 1` and so on, up to the first that is not pending or up
to `u64::MAX`; and on a state whose nonce for the sender is `next_nonce`, applying them in order until one fails
never fails for the nonce. -/
theorem ready_prefix (config : MempoolConfig) (p : Mempool) (hnew : tryNew config = .ok p) (ops : List PoolOp)
    (sender : Address) (nextNonce : Nonce) :
    let ready := (final step p ops).readyFor sender nextNonce
    ((∀ (i : Nat) (tx : Transaction), ready[i]? = some tx →
        nextNonce.toNat + i < 2 ^ 64 ∧
        (final step p ops).getBySenderNonce sender (BitVec.ofNat 64 (nextNonce.toNat + i)) = some (tx.hash, tx)) ∧
      (nextNonce.toNat + ready.length = 2 ^ 64 ∨
        nextNonce.toNat + ready.length < 2 ^ 64 ∧
        (final step p ops).getBySenderNonce sender (BitVec.ofNat 64 (nextNonce.toNat + ready.length)) = none)) ∧
    ∀ s : State, s.nonce sender = nextNonce → ∀ e, (s.applyAll ready).1 = some e →
      ∀ a expected got, e ≠ .invalidNonce a expected got := by
  obtain ⟨hq, -⟩ := consistent_run (consistent_tryNew hnew) ops
  obtain ⟨hfollows, hend⟩ := hq.readyFor_spec sender nextNonce
  intro ready
  have hpending : ∀ (i : Nat) (tx : Transaction), ready[i]? = some tx →
      nextNonce.toNat + i < 2 ^ 64 ∧
      (final step p ops).getBySenderNonce sender (BitVec.ofNat 64 (nextNonce.toNat + i)) = some (tx.hash, tx) := by
    intro i tx hi
    obtain ⟨nonce, hash, hnonce, hget⟩ := hfollows i tx hi
    rw [← hnonce, BitVec.ofNat_toNat, BitVec.setWidth_eq, hget,
      hq.sound.keyed (hq.of_getBySenderNonce hget).1]
    exact ⟨nonce.isLt, rfl⟩
  refine ⟨⟨hpending, ?_⟩, ?_⟩
  · have hle : nextNonce.toNat + ready.length ≤ 2 ^ 64 := by
      cases hlen : ready.length with
      | zero =>
        have := nextNonce.isLt
        omega
      | succ n =>
        have hlast : ready[n]? = some ready[n] := List.getElem?_eq_getElem (by omega)
        have := (hpending n _ hlast).1
        omega
    rcases Nat.eq_or_lt_of_le hle with heq | hlt
    · exact .inl heq
    · exact .inr ⟨hlt, hend _ (by rw [BitVec.toNat_ofNat, Nat.mod_eq_of_lt hlt])⟩
  · intro s hs e he
    have hinstep : ∀ (i : Nat) (tx : Transaction), ready[i]? = some tx →
        tx.fromAddr = sender ∧ tx.nonce.toNat = (s.nonce sender).toNat + i := by
      intro i tx hi
      obtain ⟨nonce, hash, hnonce, hget⟩ := hfollows i tx hi
      obtain ⟨-, hfrom, rfl⟩ := hq.of_getBySenderNonce hget
      rw [hs]
      exact ⟨hfrom, hnonce⟩
    exact State.applyAll_nonces hinstep he

end

section
open scoped Concrete

/-- Nonces 4, 5 and 7 of one sender. -/
def gappedOps : List PoolOp := [.add (pooled 1 5 3), .add (pooled 1 7 9), .add (pooled 1 4 2)]

/-- The prefix from nonce 4 ends at the gap. -/
theorem ready_prefix_gap :
    let sender : Address := Vector.replicate addressSize 1
    let q := final step Mempool.default gappedOps
    q.readyFor sender 4 = [pooled 1 4 2, pooled 1 5 3] ∧ q.getBySenderNonce sender 6 = none ∧
    q.getBySenderNonce sender 5 = some ((pooled 1 5 3).hash, pooled 1 5 3) := by
  intro sender q
  have hready : q.readyFor sender 4 = [pooled 1 4 2, pooled 1 5 3] := by decide +kernel
  obtain ⟨⟨hpending, -⟩, -⟩ := ready_prefix MempoolConfig.default Mempool.default rfl gappedOps sender 4
  refine ⟨hready, by decide +kernel, ?_⟩
  exact (hpending 1 (pooled 1 5 3) (by rw [hready]; rfl)).2

end
end Mempool
end Subhost
