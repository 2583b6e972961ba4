import Subhost.Lib.Nested
import Subhost.Mempool.Pool
/-!
# The pool's invariant, and undoing an admission (subhost-mempool/src/lib.rs:114-318)

`Consistent` ties the two maps of the pool together: the sender index holds exactly the slots of
the stored transactions, no sender's queue is empty or over its limit, and every stored
transaction still passes the checks of `admit`. All operations keep it. A consistent pool is
determined by its limits and its transactions (`Consistent.eq_of_txs`), so that a removal is
undone exactly by adding the transaction again (`Consistent.add_remove`), whatever the pressure
on the capacity was.
-/
namespace Subhost.Mempool
open Uint Bincode

/-- The index entry of a sender and nonce. -/
abbrev slot (p : Mempool) (sender : Address) (nonce : Nonce) : Option Hash :=
  Nested.look p.bySender sender nonce

/-- The pool with a transaction written to both maps, the last step of `admit` (lib.rs:176). -/
def place (p : Mempool) (hash : Hash) (tx : Transaction) : Mempool :=
  ⟨p.config, p.txs.insert hash tx, Nested.put p.bySender tx.fromAddr tx.nonce hash⟩

theorem getBySenderNonce_eq (p : Mempool) (sender : Address) (nonce : Nonce) :
    p.getBySenderNonce sender nonce = (p.slot sender nonce).bind fun h => (p.get h).map fun t => (h, t) := by
  unfold getBySenderNonce slot Nested.look get
  cases p.bySender[sender]? with
  | none => rfl
  | some nonces =>
    cases h : nonces[nonce]? with
    | none => simp [h]
    | some hash => cases ht : p.txs[hash]? <;> simp [h, ht]

theorem getBySenderNonce_of_free {p : Mempool} {sender : Address} {nonce : Nonce} (h : p.slot sender nonce = none) :
    p.getBySenderNonce sender nonce = none := by
  rw [getBySenderNonce_eq, h, Option.bind_none]

theorem getBySenderNonce_of_slot {p : Mempool} {sender : Address} {nonce : Nonce} {hash : Hash} {t : Transaction}
    (hslot : p.slot sender nonce = some hash) (hget : p.get hash = some t) :
    p.getBySenderNonce sender nonce = some (hash, t) := by
  rw [getBySenderNonce_eq, hslot, Option.bind_some, hget, Option.map_some]

theorem get_place (p : Mempool) (hash : Hash) (tx : Transaction) : (p.place hash tx).get hash = some tx :=
  Map.get_insert_self _ _ _

/-! ## What the operations do -/

theorem remove_of_none {p : Mempool} {hash : Hash} (h : p.get hash = none) : (p.remove hash).2 = p := by
  unfold get at h
  simp [remove, h]

theorem remove_of_some {p : Mempool} {hash : Hash} {tx : Transaction} (h : p.get hash = some tx) :
    (p.remove hash).2 = ⟨p.config, p.txs.erase hash, Nested.prune p.bySender tx.fromAddr tx.nonce⟩ := by
  unfold get at h
  simp only [remove, h, Nested.prune]
  cases p.bySender[tx.fromAddr]? <;> rfl

theorem remove_config (p : Mempool) (hash : Hash) : (p.remove hash).2.config = p.config :=
  (remove_spec p hash).1

theorem remove_txs (p : Mempool) (hash : Hash) : (p.remove hash).2.txs = p.txs.erase hash := by
  cases h : p.get hash with
  | none => rw [remove_of_none h, Map.erase_of_none h]
  | some tx => rw [remove_of_some h]

theorem get_remove_of_none {p : Mempool} {hash h : Hash} (hnone : p.get h = none) :
    (p.remove hash).2.get h = none := by
  cases hget : (p.remove hash).2.get h with
  | none => rfl
  | some t =>
    rw [(remove_spec p hash).2 hget] at hnone
    cases hnone

theorem slot_remove_of_none {p : Mempool} {hash : Hash} {sender : Address} {nonce : Nonce}
    (hnone : p.slot sender nonce = none) : (p.remove hash).2.slot sender nonce = none := by
  cases hget : p.get hash with
  | none => rwa [remove_of_none hget]
  | some t =>
    rw [remove_of_some hget, slot, Nested.look_prune]
    split
    · rfl
    · exact hnone

theorem size_remove {p : Mempool} {hash : Hash} {tx : Transaction} (h : p.get hash = some tx) :
    (p.remove hash).2.txs.size + 1 = p.txs.size := by
  rw [remove_txs]
  exact Map.size_erase_of_some h

/-- The sender's queue has room, or the room of a replaced transaction. -/
theorem not_queueFull {p : Mempool} {tx : Transaction} {displaced : Option Transaction}
    (hbudget : displaced = none → Nested.width p.bySender tx.fromAddr < p.config.maxPerSender) :
    ¬ (displaced = none ∧
      p.config.maxPerSender ≤ ((p.bySender[tx.fromAddr]?).map fun nonces => nonces.size).getD 0) :=
  fun ⟨hnone, hle⟩ => absurd (hbudget hnone) (Nat.not_lt.mpr hle)

/-- With room for it, a transaction is written to both maps. -/
theorem insertTx_room {p : Mempool} (hash : Hash) {tx : Transaction} {displaced : Option Transaction}
    (hbudget : displaced = none → Nested.width p.bySender tx.fromAddr < p.config.maxPerSender)
    (hroom : p.txs.size < p.config.maxPending) :
    p.insertTx hash tx displaced = (.ok ⟨hash, true, displaced⟩, p.place hash tx) := by
  unfold insertTx
  dsimp only
  rw [if_neg (not_queueFull hbudget), if_neg (Nat.not_le.mpr hroom)]
  dsimp only
  rw [Option.or_none]
  rfl

theorem get_of_min {p : Mempool} {victim : Hash} {t : Transaction}
    (hmin : minBy evictOrder p.txs.toList = some (victim, t)) : p.get victim = some t :=
  Map.mem_toList.mp (minBy_mem evictOrder hmin)

/-- In a pool that is not empty `evict_lowest_priority` finds a victim (lib.rs:295). -/
theorem evictLowestPriority_of_pos {p : Mempool} (h : 0 < p.txs.size) :
    ∃ hash tx, minBy evictOrder p.txs.toList = some (hash, tx) ∧ p.get hash = some tx ∧
      p.evictLowestPriority = (.ok (some tx), (p.remove hash).2) := by
  rw [← Std.ExtTreeMap.length_toList] at h
  obtain ⟨⟨hash, tx⟩, hmin⟩ := exists_minBy evictOrder (List.ne_nil_of_length_pos h)
  have hget : p.txs[hash]? = some tx := get_of_min hmin
  exact ⟨hash, tx, hmin, hget, by simp [evictLowestPriority, hmin, hget]⟩

/-- Without room, the cheapest transaction makes it. -/
theorem insertTx_evicts {p : Mempool} (hash : Hash) {tx : Transaction}
    (hbudget : Nested.width p.bySender tx.fromAddr < p.config.maxPerSender)
    (hfull : p.config.maxPending ≤ p.txs.size) (hpos : 0 < p.config.maxPending) :
    ∃ victim t, minBy evictOrder p.txs.toList = some (victim, t) ∧ p.get victim = some t ∧
      p.insertTx hash tx none = (.ok ⟨hash, true, some t⟩, (p.remove victim).2.place hash tx) := by
  obtain ⟨victim, t, hmin, hget, hevict⟩ := evictLowestPriority_of_pos (Nat.lt_of_lt_of_le hpos hfull)
  refine ⟨victim, t, hmin, hget, ?_⟩
  unfold insertTx
  dsimp only
  rw [if_neg (not_queueFull fun _ => hbudget), if_pos hfull, hevict]
  rfl

theorem insertTx_refused {p : Mempool} (hash : Hash) {tx : Transaction}
    (hqueue : p.config.maxPerSender ≤ Nested.width p.bySender tx.fromAddr) :
    p.insertTx hash tx none = (.error (.senderQueueFull tx.fromAddr), p) := by
  unfold insertTx
  exact if_pos ⟨rfl, hqueue⟩

/-! ## The invariant -/

theorem maxPending_pos {c : MempoolConfig} (h : c.validate = .ok ()) : 0 < c.maxPending := by
  unfold MempoolConfig.validate at h
  split at h
  · cases h
  · omega

section
variable [Blake3]

/-- The pool's two maps agree, its limits are valid and respected, and every stored transaction
passes the checks of `admit`. A sender in `except` may have an empty queue: so the pool stands
in the middle of a replacement by fee (lib.rs:156). -/
structure ConsistentBut (except : Address → Prop) (p : Mempool) : Prop where
  limits : p.config.validate = .ok ()
  sound : p.Sound
  checked : ∀ {hash tx}, p.get hash = some tx → checkTx p.config tx = .ok ()
  indexed : Nested.Indexes Transaction.fromAddr Transaction.nonce p.txs p.bySender
  compact : Nested.CompactBut except p.bySender
  capacity : p.txs.size ≤ p.config.maxPending
  budget : ∀ sender, Nested.width p.bySender sender ≤ p.config.maxPerSender

abbrev Consistent (p : Mempool) : Prop := ConsistentBut (fun _ => False) p

/-- A new pool is consistent (lib.rs:98). -/
theorem consistent_tryNew {c : MempoolConfig} {p : Mempool} (h : tryNew c = .ok p) : p.Consistent := by
  unfold tryNew at h
  split at h
  · cases h
  · rename_i hvalid
    cases h
    exact {
      limits := hvalid
      sound := ⟨by simp [get], by simp [get]⟩
      checked := by simp [get]
      indexed := by simp [Nested.Indexes, Nested.look]
      compact := by simp [Nested.CompactBut]
      capacity := by simp
      budget := by simp [Nested.width] }

theorem consistent_default : default.Consistent := consistent_tryNew (c := MempoolConfig.default) rfl

section Facts
variable {except : Address → Prop} {p : Mempool}

theorem ConsistentBut.weaken (hp : p.Consistent) : p.ConsistentBut except :=
  { hp with compact := fun sender queue _ => hp.compact sender queue id }

theorem ConsistentBut.slot_of_get (hp : p.ConsistentBut except) {hash : Hash} {tx : Transaction}
    (h : p.get hash = some tx) : p.slot tx.fromAddr tx.nonce = some hash :=
  hp.indexed.look_of_get h

/-- `get_by_sender_nonce` finds the transaction of a taken slot (lib.rs:205). -/
theorem ConsistentBut.getBySenderNonce_of_get (hp : p.ConsistentBut except) {hash : Hash}
    {tx : Transaction} (h : p.get hash = some tx) :
    p.getBySenderNonce tx.fromAddr tx.nonce = some (hash, tx) :=
  getBySenderNonce_of_slot (hp.slot_of_get h) h

end Facts

/-- The transactions and the limits determine a consistent pool. -/
theorem ConsistentBut.eq_of_txs {p q : Mempool} (hp : p.Consistent) (hq : q.Consistent)
    (hconfig : q.config = p.config) (htxs : q.txs = p.txs) : q = p := by
  have hslots : ∀ sender nonce, q.slot sender nonce = p.slot sender nonce := by
    intro sender nonce
    apply Option.ext
    intro hash
    rw [hp.indexed, hq.indexed, htxs]
  have hindex : q.bySender = p.bySender := Nested.ext_look hq.compact hp.compact hslots
  cases p
  cases q
  simp_all

/-- Taking a transaction out of both maps, the index by either of the source's two ways. -/
theorem ConsistentBut.takeOut {except : Address → Prop} {p : Mempool} {hash : Hash} {tx : Transaction}
    (hp : p.Consistent) (hget : p.get hash = some tx) {index : Map Address (Map Nonce Hash)}
    (hlook : Nested.look index = Nested.look (Nested.vacate p.bySender tx.fromAddr tx.nonce))
    (hwidth : Nested.width index = Nested.width (Nested.vacate p.bySender tx.fromAddr tx.nonce))
    (hcompact : Nested.CompactBut except index) :
    ConsistentBut except ⟨p.config, p.txs.erase hash, index⟩ := by
  have hslot : p.slot tx.fromAddr tx.nonce = some hash := hp.slot_of_get hget
  have hsub : ∀ {h t}, (p.txs.erase hash)[h]? = some t → p.get h = some t := by
    intro h t ht
    by_cases e : hash = h
    · subst e
      rw [Map.get_erase_self] at ht
      cases ht
    · rwa [Map.get_erase_ne _ e] at ht
  refine ⟨hp.limits, ⟨fun ht => hp.sound.keyed (hsub ht), fun ht => hp.sound.bounded (hsub ht)⟩,
    fun ht => hp.checked (hsub ht), hp.indexed.erase hget hlook, hcompact, ?_, ?_⟩
  · have hsize : (p.txs.erase hash).size + 1 = p.txs.size := Map.size_erase_of_some hget
    exact Nat.le_trans (Nat.le_of_succ_le (Nat.le_of_eq hsize)) hp.capacity
  · intro sender
    rw [hwidth]
    by_cases e : tx.fromAddr = sender
    · subst e
      exact Nat.le_trans (by rw [← Nested.width_vacate_self hslot]; omega) (hp.budget _)
    · rw [Nested.width_vacate_ne _ _ e]
      exact hp.budget sender

theorem ConsistentBut.remove {p : Mempool} (hp : p.Consistent) (hash : Hash) :
    (p.remove hash).2.Consistent := by
  cases hget : p.get hash with
  | none => rwa [remove_of_none hget]
  | some tx =>
    rw [remove_of_some hget]
    exact hp.takeOut hget (Nested.look_prune_eq_vacate _ _ _) (Nested.width_prune_eq_vacate _ _ _)
      (Nested.compact_prune _ _ hp.compact)

theorem ConsistentBut.width_remove_le {p : Mempool} (hp : p.Consistent) (hash : Hash) (sender : Address) :
    Nested.width (p.remove hash).2.bySender sender ≤ Nested.width p.bySender sender := by
  cases hget : p.get hash with
  | none => rw [remove_of_none hget]
  | some tx =>
    rw [remove_of_some hget, Nested.width_prune_eq_vacate]
    by_cases e : tx.fromAddr = sender
    · subst e
      rw [← Nested.width_vacate_self (hp.slot_of_get hget)]
      exact Nat.le_succ _
    · rw [Nested.width_vacate_ne _ _ e]

/-- Writing a transaction that passes the checks to a free slot, where there is room for it. -/
theorem ConsistentBut.place {p : Mempool} {tx : Transaction} (hp : p.ConsistentBut (· = tx.fromAddr))
    (hfresh : p.get tx.hash = none) (hfree : p.slot tx.fromAddr tx.nonce = none)
    (hsize : tx.data.length ≤ p.config.maxTxDataBytes) (hcheck : checkTx p.config tx = .ok ())
    (hroom : p.txs.size < p.config.maxPending)
    (hbudget : Nested.width p.bySender tx.fromAddr < p.config.maxPerSender) :
    (p.place tx.hash tx).Consistent := by
  have hget : ∀ {h t}, (p.place tx.hash tx).get h = some t → (h = tx.hash ∧ t = tx) ∨ p.get h = some t := by
    intro h t ht
    by_cases e : tx.hash = h
    · subst e
      rw [get, Mempool.place, Map.get_insert_self] at ht
      exact .inl ⟨rfl, (Option.some.inj ht).symm⟩
    · rw [get, Mempool.place, Map.get_insert_ne _ _ e] at ht
      exact .inr ht
  refine ⟨hp.limits, ⟨?_, ?_⟩, ?_, hp.indexed.put hfresh hfree, Nested.compact_put _ _ hp.compact, ?_, ?_⟩
  · intro h t ht
    rcases hget ht with ⟨rfl, rfl⟩ | hold
    · rfl
    · exact hp.sound.keyed hold
  · intro h t ht
    rcases hget ht with ⟨-, rfl⟩ | hold
    · exact hsize
    · exact hp.sound.bounded hold
  · intro h t ht
    rcases hget ht with ⟨-, rfl⟩ | hold
    · exact hcheck
    · exact hp.checked hold
  · rw [Mempool.place, Map.size_insert_of_none _ hfresh]
    exact hroom
  · intro sender
    rw [Mempool.place]
    by_cases e : tx.fromAddr = sender
    · subst e
      rw [Nested.width_put_self _ hfree]
      exact hbudget
    · rw [Nested.width_put_ne _ _ _ e]
      exact hp.budget sender

/-- Writing a transaction in the place that another one has left. -/
theorem ConsistentBut.place_remove {p : Mempool} {tx t : Transaction} {hash : Hash} (hp : p.Consistent)
    (hnew : p.get tx.hash = none) (hget : p.get hash = some t)
    (hfree : (p.remove hash).2.slot tx.fromAddr tx.nonce = none)
    (hsize : tx.data.length ≤ p.config.maxTxDataBytes) (hcheck : checkTx p.config tx = .ok ())
    (hbudget : Nested.width (p.remove hash).2.bySender tx.fromAddr < p.config.maxPerSender) :
    ((p.remove hash).2.place tx.hash tx).Consistent := by
  have hcount := size_remove hget
  have hcapacity := hp.capacity
  refine (hp.remove hash).weaken.place (get_remove_of_none hnew) hfree ?_ ?_ ?_ ?_
  all_goals rw [remove_config]
  · exact hsize
  · exact hcheck
  · omega
  · exact hbudget

/-! ## What an admission can do -/

/-- The results of `admit` on a consistent pool, each with its condition (lib.rs:114). It is refused for its
size, by a static check or for its sender's budget; it does not pay more than the one in its slot; it is
pending already; it takes a free slot, with room for it or in the place of the cheapest transaction; or it
replaces the one in its slot. -/
inductive Outcome (p : Mempool) (tx : Transaction) : Except MempoolError Admission × Mempool → Prop where
  | refused (e : MempoolError)
      (why : tx.data.length ≤ p.config.maxTxDataBytes → checkTx p.config tx = .ok () →
        p.slot tx.fromAddr tx.nonce = none ∧ p.config.maxPerSender ≤ Nested.width p.bySender tx.fromAddr) :
      Outcome p tx (.error e, p)
  | outbid {existing : Hash} {t : Transaction} (hget : p.get existing = some t)
      (hslot : p.slot tx.fromAddr tx.nonce = some existing) (hprice : tx.gasPrice.toNat ≤ t.gasPrice.toNat) :
      Outcome p tx (.ok ⟨existing, false, none⟩, p)
  | pending {t : Transaction} (hget : p.get tx.hash = some t) : Outcome p tx (.ok ⟨tx.hash, true, none⟩, p)
  | fresh (hnew : p.get tx.hash = none) (hfree : p.slot tx.fromAddr tx.nonce = none)
      (hroom : p.txs.size < p.config.maxPending) (hq : (p.place tx.hash tx).Consistent) :
      Outcome p tx (.ok ⟨tx.hash, true, none⟩, p.place tx.hash tx)
  | evicting {victim : Hash} {t : Transaction} (hnew : p.get tx.hash = none)
      (hfree : p.slot tx.fromAddr tx.nonce = none) (hfull : p.txs.size = p.config.maxPending)
      (hmin : minBy evictOrder p.txs.toList = some (victim, t))
      (hq : ((p.remove victim).2.place tx.hash tx).Consistent) :
      Outcome p tx (.ok ⟨tx.hash, true, some t⟩, (p.remove victim).2.place tx.hash tx)
  | replacing {existing : Hash} {t : Transaction} (hnew : p.get tx.hash = none) (hget : p.get existing = some t)
      (hslot : p.slot tx.fromAddr tx.nonce = some existing) (hprice : t.gasPrice.toNat < tx.gasPrice.toNat)
      (hq : ((p.remove existing).2.place tx.hash tx).Consistent) :
      Outcome p tx (.ok ⟨tx.hash, true, some t⟩, (p.remove existing).2.place tx.hash tx)

/-- A transaction for a free slot (lib.rs:162-180): its sender's queue is full, or there is
room, or the cheapest transaction is evicted. -/
theorem ConsistentBut.outcome_free {p : Mempool} {tx : Transaction} (hp : p.Consistent)
    (hnew : p.get tx.hash = none) (hfree : p.slot tx.fromAddr tx.nonce = none)
    (hsize : tx.data.length ≤ p.config.maxTxDataBytes) (hcheck : checkTx p.config tx = .ok ()) :
    Outcome p tx (p.insertTx tx.hash tx none) := by
  by_cases hbudget : p.config.maxPerSender ≤ Nested.width p.bySender tx.fromAddr
  · rw [insertTx_refused _ hbudget]
    exact .refused _ fun _ _ => ⟨hfree, hbudget⟩
  have hbudget := Nat.lt_of_not_le hbudget
  by_cases hfull : p.config.maxPending ≤ p.txs.size
  · obtain ⟨victim, t, hmin, hget, hresult⟩ := insertTx_evicts tx.hash hbudget hfull (maxPending_pos hp.limits)
    have hwidth := hp.width_remove_le victim tx.fromAddr
    rw [hresult]
    exact .evicting hnew hfree (Nat.le_antisymm hp.capacity hfull) hmin
      (hp.place_remove hnew hget (slot_remove_of_none hfree) hsize hcheck (by omega))
  · have hroom := Nat.lt_of_not_le hfull
    rw [insertTx_room _ (fun _ => hbudget) hroom]
    exact .fresh hnew hfree hroom (hp.weaken.place hnew hfree hsize hcheck hroom hbudget)

/-- Replacement by fee (lib.rs:148-160): the old transaction has made the room the new one
takes, so that neither limit can refuse it and nothing is evicted. -/
theorem ConsistentBut.outcome_replacing {p : Mempool} {tx t : Transaction} {existing : Hash} (hp : p.Consistent)
    (hnew : p.get tx.hash = none) (hget : p.get existing = some t) (hfrom : t.fromAddr = tx.fromAddr)
    (hnonce : t.nonce = tx.nonce) (hprice : t.gasPrice.toNat < tx.gasPrice.toNat)
    (hsize : tx.data.length ≤ p.config.maxTxDataBytes) (hcheck : checkTx p.config tx = .ok ()) :
    Outcome p tx (insertTx ⟨p.config, p.txs.erase existing, Nested.vacate p.bySender tx.fromAddr tx.nonce⟩
      tx.hash tx (some t)) := by
  have hslot : p.slot tx.fromAddr tx.nonce = some existing := hfrom ▸ hnonce ▸ hp.slot_of_get hget
  have hcount : (p.txs.erase existing).size + 1 = p.txs.size := Map.size_erase_of_some hget
  have hroom : (p.txs.erase existing).size < p.config.maxPending := Nat.lt_of_lt_of_le (by omega) hp.capacity
  have hbudget : Nested.width (Nested.vacate p.bySender tx.fromAddr tx.nonce) tx.fromAddr <
      p.config.maxPerSender := by
    have := Nested.width_vacate_self hslot
    have := hp.budget tx.fromAddr
    omega
  have hout : ConsistentBut (· = tx.fromAddr)
      ⟨p.config, p.txs.erase existing, Nested.vacate p.bySender tx.fromAddr tx.nonce⟩ :=
    hp.takeOut hget (by rw [hfrom, hnonce]) (by rw [hfrom, hnonce]) (Nested.compactBut_vacate _ _ hp.compact)
  have hgone : (p.txs.erase existing)[tx.hash]? = none := by
    rw [← remove_txs]
    exact get_remove_of_none hnew
  have hvacated : Nested.look (Nested.vacate p.bySender tx.fromAddr tx.nonce) tx.fromAddr tx.nonce = none := by
    rw [Nested.look_vacate, if_pos ⟨rfl, rfl⟩]
  have hplaced := hout.place hgone hvacated hsize hcheck hroom hbudget
  -- `remove` also drops an empty queue, which the insertion makes anew
  have hpruned : (p.remove existing).2.bySender = Nested.prune p.bySender tx.fromAddr tx.nonce := by
    rw [remove_of_some hget, hfrom, hnonce]
  have hremoved : ((p.remove existing).2.place tx.hash tx).Consistent := by
    refine hp.place_remove hnew hget ?_ hsize hcheck ?_
    · rw [slot, hpruned, Nested.look_prune_eq_vacate]
      exact hvacated
    · rw [hpruned, Nested.width_prune_eq_vacate]
      exact hbudget
  have hsame := hremoved.eq_of_txs hplaced (remove_config p existing).symm (by rw [Mempool.place, Mempool.place, remove_txs])
  rw [insertTx_room _ (by simp) hroom, hsame]
  exact .replacing hnew hget hslot hprice hremoved

/-- Every admission to a consistent pool has one of these results. -/
theorem ConsistentBut.outcome {p : Mempool} (hp : p.Consistent) (tx : Transaction) :
    Outcome p tx (p.admitTx tx) := by
  unfold admitTx
  split
  · rename_i hsize
    exact .refused _ fun hle => absurd hle (Nat.not_le.mpr hsize)
  rename_i hsize
  have hsize := Nat.le_of_not_lt hsize
  dsimp only
  cases hnew : p.txs[tx.hash]? with
  | some t => exact .pending hnew
  | none =>
    simp only [Option.isSome_none, Bool.false_eq_true, if_false]
    cases hcheck : checkTx p.config tx with
    | error e =>
      refine .refused e fun _ hok => ?_
      rw [hcheck] at hok
      cases hok
    | ok u =>
      dsimp only
      cases hslot : p.slot tx.fromAddr tx.nonce with
      | none =>
        rw [slot, Nested.look] at hslot
        simp only [hslot]
        exact hp.outcome_free hnew hslot hsize hcheck
      | some existing =>
        obtain ⟨t, hget, hfrom, hnonce⟩ := (hp.indexed _ _ _).mp hslot
        have hlook := hslot
        rw [slot, Nested.look] at hlook
        simp only [hlook, hget, Option.map_some, Option.getD_some]
        split
        · rename_i hprice
          exact .outbid hget hslot (le_iff_toNat.mp hprice)
        · rename_i hprice
          rw [le_iff_toNat, Nat.not_le] at hprice
          obtain ⟨queue, hqueue, -⟩ := Option.bind_eq_some_iff.mp hlook
          have hresult := hp.outcome_replacing hnew hget hfrom hnonce hprice hsize hcheck
          simpa only [Nested.vacate, hqueue] using hresult

/-- The results `admit` can have: nothing changes (an error, a transaction that does not pay
more than the one in its slot, one that is pending already), the transaction takes a free slot,
or it comes in and one other goes, the replaced one of its slot or the evicted one. -/
inductive Admits (p : Mempool) (tx : Transaction) : Except MempoolError Admission × Mempool → Prop where
  | refused (e : MempoolError) : Admits p tx (.error e, p)
  | outbid (existing : Hash) : Admits p tx (.ok ⟨existing, false, none⟩, p)
  | pending {t : Transaction} (h : p.get tx.hash = some t) : Admits p tx (.ok ⟨tx.hash, true, none⟩, p)
  | fresh {q : Mempool} (hnew : p.get tx.hash = none)
      (hfree : p.getBySenderNonce tx.fromAddr tx.nonce = none) (hq : q.Consistent)
      (hconfig : q.config = p.config) (htxs : q.txs = p.txs.insert tx.hash tx) :
      Admits p tx (.ok ⟨tx.hash, true, none⟩, q)
  | displacing {q : Mempool} {hash : Hash} {t : Transaction} (hnew : p.get tx.hash = none)
      (hget : p.get hash = some t)
      (hslot : p.getBySenderNonce tx.fromAddr tx.nonce = none ∨
        p.getBySenderNonce tx.fromAddr tx.nonce = some (hash, t))
      (hq : q.Consistent) (hconfig : q.config = p.config)
      (htxs : q.txs = (p.txs.erase hash).insert tx.hash tx) :
      Admits p tx (.ok ⟨tx.hash, true, some t⟩, q)

theorem Outcome.admits {p : Mempool} {tx : Transaction} {result : Except MempoolError Admission × Mempool}
    (h : Outcome p tx result) : Admits p tx result := by
  have htxs : ∀ hash, ((p.remove hash).2.place tx.hash tx).txs = (p.txs.erase hash).insert tx.hash tx := by
    intro hash
    rw [place, remove_txs]
  cases h with
  | refused e => exact .refused e
  | outbid => exact .outbid _
  | pending hget => exact .pending hget
  | fresh hnew hfree _ hq => exact .fresh hnew (getBySenderNonce_of_free hfree) hq rfl rfl
  | evicting hnew hfree _ hmin hq =>
    exact .displacing hnew (get_of_min hmin) (.inl (getBySenderNonce_of_free hfree)) hq (remove_config p _) (htxs _)
  | replacing hnew hget hslot _ hq =>
    exact .displacing hnew hget (.inr (getBySenderNonce_of_slot hslot hget)) hq (remove_config p _) (htxs _)

theorem ConsistentBut.admits {p : Mempool} (hp : p.Consistent) (tx : Transaction) :
    Admits p tx (p.admitTx tx) := (hp.outcome tx).admits

theorem ConsistentBut.admitTx {p : Mempool} (hp : p.Consistent) (tx : Transaction) :
    (p.admitTx tx).2.Consistent := by
  have h := hp.admits tx
  generalize p.admitTx tx = result at h
  cases h with
  | refused | outbid | pending => exact hp
  | fresh _ _ hq | displacing _ _ _ hq => exact hq

/-! ## Undoing a removal -/

/-- Adding a transaction that is pending changes nothing (lib.rs:124). -/
theorem ConsistentBut.add_pending {p : Mempool} (hp : p.Consistent) {hash : Hash} {t : Transaction}
    (hget : p.get hash = some t) : (p.add t).2 = p := by
  have hsize : ¬ p.config.maxTxDataBytes < t.data.length := Nat.not_lt.mpr (hp.sound.bounded hget)
  have hsome : (p.txs[t.hash]?).isSome = true := by
    rw [hp.sound.keyed hget, show p.txs[hash]? = some t from hget]
    rfl
  unfold add Mempool.admitTx
  rw [if_neg hsize]
  dsimp only
  rw [if_pos hsome]

/-- A removed transaction finds its slot free and both limits with room for it, so adding it
again gives the pool back as it was. -/
theorem ConsistentBut.add_remove {p : Mempool} (hp : p.Consistent) {hash : Hash} {t : Transaction}
    (hget : p.get hash = some t) : ((p.remove hash).2.add t).2 = p := by
  obtain rfl : t.hash = hash := hp.sound.keyed hget
  have hout : (p.remove t.hash).2.Consistent := hp.remove t.hash
  have hgone : (p.remove t.hash).2.get t.hash = none := by
    rw [get, remove_txs, Map.get_erase_self]
  have hfree : (p.remove t.hash).2.slot t.fromAddr t.nonce = none := by
    rw [remove_of_some hget, slot, Nested.look_prune, if_pos ⟨rfl, rfl⟩]
  have hsize : t.data.length ≤ (p.remove t.hash).2.config.maxTxDataBytes := by
    rw [remove_config]
    exact hp.sound.bounded hget
  have hcheck : checkTx (p.remove t.hash).2.config t = .ok () := by
    rw [remove_config]
    exact hp.checked hget
  have hroom : (p.remove t.hash).2.txs.size < (p.remove t.hash).2.config.maxPending := by
    have := size_remove hget
    have := hp.capacity
    rw [remove_config]
    omega
  have hbudget : Nested.width (p.remove t.hash).2.bySender t.fromAddr <
      (p.remove t.hash).2.config.maxPerSender := by
    have := Nested.width_vacate_self (hp.slot_of_get hget)
    have := hp.budget t.fromAddr
    rw [remove_config, remove_of_some hget, Nested.width_prune_eq_vacate]
    omega
  have hadded : (p.remove t.hash).2.admitTx t =
      (.ok ⟨t.hash, true, none⟩, (p.remove t.hash).2.place t.hash t) := by
    have hslot := hfree
    rw [get] at hgone
    rw [slot, Nested.look] at hslot
    unfold Mempool.admitTx
    rw [if_neg (Nat.not_lt.mpr hsize)]
    simp only [hgone, Option.isSome_none, Bool.false_eq_true, if_false, hcheck, hslot]
    exact insertTx_room _ (fun _ => hbudget) hroom
  rw [add, hadded]
  refine hp.eq_of_txs (hout.weaken.place hgone hfree hsize hcheck hroom hbudget) (remove_config p t.hash) ?_
  rw [Mempool.place, remove_txs]
  exact Map.insert_erase hget

/-- What was placed last can be taken out again. -/
theorem ConsistentBut.remove_place {p : Mempool} {tx : Transaction} (hp : p.Consistent)
    (hnew : p.get tx.hash = none) (hq : (p.place tx.hash tx).Consistent) :
    ((p.place tx.hash tx).remove tx.hash).2 = p := by
  refine hp.eq_of_txs (hq.remove _) (remove_config _ _) ?_
  rw [remove_txs]
  exact Map.erase_insert tx hnew

/-- An admission that displaced a transaction is undone by taking the new one out and adding the other. -/
theorem ConsistentBut.restore_displaced {p : Mempool} {tx t : Transaction} {hash : Hash} (hp : p.Consistent)
    (hnew : p.get tx.hash = none) (hget : p.get hash = some t)
    (hq : ((p.remove hash).2.place tx.hash tx).Consistent) :
    ((((p.remove hash).2.place tx.hash tx).remove tx.hash).2.add t).2 = p := by
  rw [(hp.remove hash).remove_place (get_remove_of_none hnew) hq]
  exact hp.add_remove hget

end

end Subhost.Mempool
