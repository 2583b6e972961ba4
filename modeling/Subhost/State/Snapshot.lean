import Subhost.State.Model
/-!
# Snapshots determine the state (subhost-state/src/lib.rs:81-110)

A snapshot lists the accounts by address, whatever the order the hash map was visited in, so equal
snapshots come from equal states and `from_snapshot` rebuilds the state it was taken from. With a
collision-free hash the same holds of the state root (`root_identifies`).

The other way round `from_snapshot` is documented to refuse what `snapshot` cannot have produced. It
looks for a chain id and for distinct addresses, not for their order: `fromSnapshot_image_iff`.
-/
namespace Subhost
open Uint Bincode

namespace State

theorem mem_snapshot (s : State) (a : Address) (acct : Account) :
    (a, acct) ∈ s.snapshot.accounts ↔ s.account a = some acct := by
  rw [snapshot, (sortByKey_perm Prod.fst _).mem_iff]
  exact Map.mem_toList

theorem nodup_snapshot (s : State) : (s.snapshot.accounts.map Prod.fst).Nodup :=
  (((sortByKey_perm Prod.fst s.accounts.toList).map Prod.fst).nodup_iff).mpr (Map.nodup_keys_toList _)

theorem snapshot_inj {s t : State} (h : s.snapshot = t.snapshot) : s = t := by
  refine ext_account (congrArg StateSnapshot.chainId h) ?_
  intro a
  apply Option.ext
  intro acct
  rw [← mem_snapshot, ← mem_snapshot, h]

/-- Entries with new, distinct addresses are all taken over. -/
theorem collectAccounts_ok {m : Map Address Account} {entries : List (Address × Account)}
    (hnodup : (entries.map Prod.fst).Nodup) (hfree : ∀ p ∈ entries, m[p.1]? = none) :
    ∃ out, collectAccounts m entries = .ok out ∧
      ∀ a acct, out[a]? = some acct ↔ (a, acct) ∈ entries ∨ m[a]? = some acct := by
  induction entries generalizing m with
  | nil => exact ⟨m, rfl, by simp⟩
  | cons p rest ih =>
    obtain ⟨b, entry⟩ := p
    rw [List.map_cons, List.nodup_cons] at hnodup
    have hb : m[b]? = none := hfree (b, entry) (List.mem_cons_self ..)
    have hfree' : ∀ q ∈ rest, (m.insert b entry)[q.1]? = none := by
      intro q hq
      have hne : b ≠ q.1 := fun e => hnodup.1 (List.mem_map.mpr ⟨q, hq, e.symm⟩)
      rw [Map.get_insert_ne _ _ hne]
      exact hfree q (List.mem_cons_of_mem _ hq)
    obtain ⟨out, hout, hget⟩ := ih hnodup.2 hfree'
    refine ⟨out, by simp [collectAccounts, hb, hout], ?_⟩
    intro a acct
    rw [hget]
    by_cases hab : b = a
    · subst hab
      simp [hb, eq_comm, or_comm]
    · simp [Map.get_insert_ne _ _ hab, Ne.symm hab]

/-- What was taken over had new, distinct addresses. -/
theorem nodup_of_collectAccounts {m out : Map Address Account} {entries : List (Address × Account)}
    (h : collectAccounts m entries = .ok out) :
    (entries.map Prod.fst).Nodup ∧ ∀ p ∈ entries, m[p.1]? = none := by
  induction entries generalizing m with
  | nil => simp
  | cons p rest ih =>
    obtain ⟨b, entry⟩ := p
    rw [collectAccounts] at h
    split at h
    · cases h
    · rename_i hb
      obtain ⟨hnodup, hfree⟩ := ih h
      have hrest : ∀ q ∈ rest, b ≠ q.1 ∧ m[q.1]? = none := by
        intro q hq
        have hnone := hfree q hq
        by_cases e : b = q.1
        · rw [← e, Map.get_insert_self] at hnone
          cases hnone
        · exact ⟨e, by rwa [Map.get_insert_ne _ _ e] at hnone⟩
      refine ⟨List.nodup_cons.mpr ⟨?_, hnodup⟩,
        List.forall_mem_cons.mpr ⟨by simpa using hb, fun q hq => (hrest q hq).2⟩⟩
      intro hmem
      obtain ⟨q, hq, e⟩ := List.mem_map.mp hmem
      exact (hrest q hq).1 e.symm

/-- The state has the chain id and exactly the accounts of the snapshot. -/
def Lists (s : State) (p : StateSnapshot) : Prop :=
  s.chainId = p.chainId ∧ ∀ a acct, s.account a = some acct ↔ (a, acct) ∈ p.accounts

theorem lists_snapshot (s : State) : s.Lists s.snapshot := ⟨rfl, fun a acct => (mem_snapshot s a acct).symm⟩

theorem Lists.unique {s t : State} {p : StateSnapshot} (hs : s.Lists p) (ht : t.Lists p) : s = t := by
  refine ext_account (hs.1.trans ht.1.symm) fun a => Option.ext fun acct => ?_
  rw [hs.2, ht.2]

/-- A state lists the accounts of the snapshot it was built from, perhaps in another order. -/
theorem Lists.accounts_perm {s : State} {p : StateSnapshot} (h : s.Lists p)
    (hnodup : (p.accounts.map Prod.fst).Nodup) :
    s.snapshot.accounts.Perm p.accounts := by
  refine (List.perm_ext_iff_of_nodup (s.nodup_snapshot.of_map _) (hnodup.of_map _)).mpr ?_
  rintro ⟨a, acct⟩
  rw [mem_snapshot, h.2]

/-- `from_snapshot`, in full: it wants a chain id and distinct addresses. -/
theorem fromSnapshot_ok_iff {p : StateSnapshot} {s : State} :
    fromSnapshot p = .ok s ↔ p.chainId ≠ 0 ∧ (p.accounts.map Prod.fst).Nodup ∧ s.Lists p := by
  unfold fromSnapshot
  by_cases hchain : p.chainId = 0
  · simp [hchain]
  rw [if_neg hchain]
  constructor
  · intro h
    split at h
    · cases h
    · rename_i out hout
      obtain ⟨hnodup, hfree⟩ := nodup_of_collectAccounts hout
      obtain ⟨out', hout', hget⟩ := collectAccounts_ok hnodup hfree
      rw [hout] at hout'
      cases hout'
      cases h
      exact ⟨hchain, hnodup, rfl, fun a acct => by simp [account, hget]⟩
  · rintro ⟨-, hnodup, hlists⟩
    obtain ⟨out, hout, hget⟩ := collectAccounts_ok (m := ∅) hnodup (by simp)
    have hsame : (⟨out, p.chainId⟩ : State).Lists p := ⟨rfl, fun a acct => by simp [account, hget]⟩
    rw [hout, hlists.unique hsame]

/-- `from_snapshot` rebuilds the state a snapshot was taken from. -/
theorem fromSnapshot_snapshot {s : State} (hchain : s.chainId ≠ 0) : fromSnapshot s.snapshot = .ok s :=
  fromSnapshot_ok_iff.mpr ⟨hchain, s.nodup_snapshot, s.lists_snapshot⟩

/-- The state root commits to the whole state. -/
theorem root_inj [Blake3] {s t : State}
    (hcf : CollisionFree [StateSnapshot.codec.encode s.snapshot, StateSnapshot.codec.encode t.snapshot])
    (h : s.root = t.root) : s = t :=
  snapshot_inj (StateSnapshot.encode_injective (hcf _ (by simp) _ (by simp) h))

/-! ## The order of the accounts -/

/-- `State::snapshot` over an enumeration of the accounts. -/
def snapshotOver (s : State) (entries : List (Address × Account)) : StateSnapshot :=
  ⟨s.chainId, sortByKey Prod.fst entries⟩

theorem snapshot_eq_over (s : State) : s.snapshot = s.snapshotOver s.accounts.toList := rfl

theorem uniqueListing_snapshot (s : State) {entries : List (Address × Account)} (h : Enumerates entries s.accounts) :
    UniqueListing (fun a b => compare a.1 b.1) s.accounts.toList (s.snapshotOver entries).accounts :=
  uniqueListing_sortByKey Prod.fst h (Map.nodup_keys_toList _)

theorem snapshotOver_eq (s : State) {entries : List (Address × Account)} (h : Enumerates entries s.accounts) :
    s.snapshotOver entries = s.snapshot :=
  congrArg (StateSnapshot.mk s.chainId) ((uniqueListing_snapshot s h).eq (uniqueListing_snapshot s (List.Perm.refl _)))

end State

/-- The accounts are listed by increasing address. -/
def StateSnapshot.Ordered (p : StateSnapshot) : Prop := p.accounts.Pairwise fun a b => compare a.1 b.1 = .lt

instance (p : StateSnapshot) : Decidable p.Ordered :=
  inferInstanceAs (Decidable (p.accounts.Pairwise fun a b => compare a.1 b.1 = .lt))

theorem StateSnapshot.Ordered.nodup {p : StateSnapshot} (h : p.Ordered) : (p.accounts.map Prod.fst).Nodup := by
  rw [List.Nodup, List.pairwise_map]
  refine h.imp fun hlt heq => ?_
  rw [(Map.compare_eq_iff _ _).mpr heq] at hlt
  cases hlt

namespace State

theorem ordered_snapshot (s : State) : s.snapshot.Ordered :=
  ((uniqueListing_snapshot s (List.Perm.refl _) s.snapshot.accounts).mpr rfl).2

/-- A state gives back the snapshot it was built from exactly if that was in order. -/
theorem Lists.snapshot_eq_iff {s : State} {p : StateSnapshot} (h : s.Lists p)
    (hnodup : (p.accounts.map Prod.fst).Nodup) : s.snapshot = p ↔ p.Ordered := by
  constructor
  · rintro rfl
    exact s.ordered_snapshot
  · intro hordered
    have hperm : s.accounts.toList.Perm p.accounts :=
      (sortByKey_perm Prod.fst _).symm.trans (h.accounts_perm hnodup)
    have haccounts : s.snapshot.accounts = p.accounts := sortByKey_eq_of_perm Prod.fst hperm hordered
    have hchain : s.snapshot.chainId = p.chainId := h.1
    cases p
    rw [StateSnapshot.mk.injEq]
    exact ⟨hchain, haccounts⟩

theorem exists_fromSnapshot_iff {p : StateSnapshot} :
    (∃ s, fromSnapshot p = .ok s) ↔ p.chainId ≠ 0 ∧ (p.accounts.map Prod.fst).Nodup := by
  constructor
  · rintro ⟨s, h⟩
    obtain ⟨hchain, hnodup, -⟩ := fromSnapshot_ok_iff.mp h
    exact ⟨hchain, hnodup⟩
  · rintro ⟨hchain, hnodup⟩
    obtain ⟨out, hout, -⟩ := collectAccounts_ok (m := ∅) hnodup (by simp)
    exact ⟨⟨out, p.chainId⟩, by rw [fromSnapshot, if_neg hchain, hout]⟩

theorem exists_snapshot_iff {p : StateSnapshot} :
    (∃ s : State, s.chainId ≠ 0 ∧ s.snapshot = p) ↔ p.chainId ≠ 0 ∧ p.Ordered := by
  constructor
  · rintro ⟨s, hchain, rfl⟩
    exact ⟨hchain, s.ordered_snapshot⟩
  · rintro ⟨hchain, hordered⟩
    obtain ⟨s, hs⟩ := exists_fromSnapshot_iff.mpr ⟨hchain, hordered.nodup⟩
    obtain ⟨-, hnodup, hlists⟩ := fromSnapshot_ok_iff.mp hs
    exact ⟨s, hlists.1 ▸ hchain, (hlists.snapshot_eq_iff hnodup).mpr hordered⟩

/-- **The state root identifies the state.** Two states have one root exactly if they have one chain id and
the same accounts; the snapshot under the root does not depend on the order in which the accounts are
visited; and a state with a chain id is rebuilt from its snapshot exactly as it was. -/
theorem root_identifies [Blake3] :
    (∀ s t : State, CollisionFree [StateSnapshot.codec.encode s.snapshot, StateSnapshot.codec.encode t.snapshot] →
      (s.root = t.root ↔ s.chainId = t.chainId ∧ ∀ a, s.account a = t.account a)) ∧
    (∀ (s : State) (entries : List (Address × Account)), Enumerates entries s.accounts →
      s.snapshotOver entries = s.snapshot) ∧
    ∀ s : State, s.chainId ≠ 0 → fromSnapshot s.snapshot = .ok s := by
  refine ⟨?_, fun s entries h => s.snapshotOver_eq h, fun s hchain => fromSnapshot_snapshot hchain⟩
  intro s t hcf
  constructor
  · intro h
    obtain rfl := root_inj hcf h
    exact ⟨rfl, fun a => rfl⟩
  · rintro ⟨hchain, haccounts⟩
    rw [ext_account hchain haccounts]

/-- **What `from_snapshot` accepts.** It accepts exactly the snapshots of states with a chain id, on every
input but those whose addresses are distinct and out of order: these it accepts, and no state has them for
its snapshot. -/
theorem fromSnapshot_image_iff (p : StateSnapshot) :
    ((∃ s, fromSnapshot p = .ok s) ↔ ∃ s : State, s.chainId ≠ 0 ∧ s.snapshot = p) ↔
      p.chainId = 0 ∨ ¬ (p.accounts.map Prod.fst).Nodup ∨ p.Ordered := by
  rw [exists_fromSnapshot_iff, exists_snapshot_iff]
  constructor
  · intro hsame
    by_cases hchain : p.chainId = 0
    · exact .inl hchain
    by_cases hnodup : (p.accounts.map Prod.fst).Nodup
    · exact .inr (.inr (hsame.mp ⟨hchain, hnodup⟩).2)
    · exact .inr (.inl hnodup)
  · rintro (hchain | hnodup | hordered)
    · simp [hchain]
    · exact ⟨fun h => absurd h.2 hnodup, fun h => absurd h.2.nodup hnodup⟩
    · exact ⟨fun h => ⟨h.1, hordered⟩, fun h => ⟨h.1, hordered.nodup⟩⟩

section
open scoped Concrete

/-- Two accounts, credited in the one and in the other order. -/
def creditedUp : State := ((withChainId 1).setBalance (addressOf 1) 10).setBalance (addressOf 2) 20

def creditedDown : State := ((withChainId 1).setBalance (addressOf 2) 20).setBalance (addressOf 1) 10

theorem root_identifies_credited :
    creditedUp.root = creditedDown.root ∧ creditedUp.root ≠ (creditedDown.setNonce (addressOf 1) 1).root ∧
    fromSnapshot creditedUp.snapshot = .ok creditedDown := by
  obtain ⟨hroot, -, hrebuild⟩ := root_identifies
  have hsame := (hroot creditedUp creditedDown (by decide +kernel)).mp (by decide +kernel)
  refine ⟨by decide +kernel, ?_, ?_⟩
  · intro h
    have hnonce := ((hroot _ _ (by decide +kernel)).mp h).2 (addressOf 1)
    exact absurd hnonce (by decide +kernel)
  · rw [← ext_account hsame.1 hsame.2]
    exact hrebuild creditedUp (by decide)

/-- The same two accounts, the larger address first. -/
def descendingSnapshot : StateSnapshot := ⟨1, [(addressOf 2, ⟨0, 20⟩), (addressOf 1, ⟨0, 10⟩)]⟩

theorem descending_not_image :
    (∃ s, fromSnapshot descendingSnapshot = .ok s) ∧
    ¬ ((∃ s, fromSnapshot descendingSnapshot = .ok s) ↔
      ∃ s : State, s.chainId ≠ 0 ∧ s.snapshot = descendingSnapshot) := by
  have haccepted : ∃ s, fromSnapshot descendingSnapshot = .ok s :=
    exists_fromSnapshot_iff.mpr ⟨by decide, by decide +kernel⟩
  refine ⟨haccepted, fun hiff => ?_⟩
  exact absurd (exists_snapshot_iff.mp (hiff.mp haccepted)).2 (by decide +kernel)

end

end State
end Subhost
