import Subhost.Consensus.Commits
/-!
# Parents and supporters that are missing (subhost-consensus/src/lib.rs:149-301)

`add_vertex` refuses a vertex whose parents are not stored, from round 2 on. A vertex of round 1 "may have no
parents", and so its parents are not looked at: it may name hashes that nobody has ever seen.
`history_closed_iff` says that there is no other way for such a hash to get in.

`gc` drops the committed vertices of old rounds and keeps the others. A vertex that is kept may have had its
support from vertices that are dropped, so that it loses the quorum and can no longer be committed.
`gc_support` has the exact loss, and the vertices that are safe from it.
-/
namespace Subhost
open Uint Run

namespace Dag
section
variable [Blake3]

/-! ## Parents -/

/-- Every parent of a stored vertex is stored. -/
def Closed (d : Dag) : Prop := ∀ v ∈ d.stored, ∀ parent ∈ v.parents, parent ∈ d.stored.map DagVertex.hash

instance (d : Dag) : Decidable d.Closed :=
  inferInstanceAs (Decidable (∀ v ∈ d.stored, ∀ parent ∈ v.parents, parent ∈ d.stored.map DagVertex.hash))

/-- A new vertex of the genesis round names only vertices that are stored, or itself. -/
def Grounded (d : Dag) : DagOp → Prop
  | .addVertex v => v.round = 1#64 → d.contains v.hash = false →
      ∀ parent ∈ v.parents, d.contains parent = true ∨ parent = v.hash
  | _ => True

instance (d : Dag) : (op : DagOp) → Decidable (d.Grounded op)
  | .addVertex v => inferInstanceAs (Decidable (v.round = 1#64 → d.contains v.hash = false →
      ∀ parent ∈ v.parents, d.contains parent = true ∨ parent = v.hash))
  | .markCommitted _ => .isTrue trivial
  | .gc _ => .isTrue trivial

theorem closed_new (config : ConsensusConfig) : (new config).Closed := by
  intro v hv
  simp [new, stored, Buckets.contents_empty] at hv

/-- What a vertex must name to leave no gap. -/
theorem Closed.store_iff {d : Dag} (hd : d.Consistent) (hclosed : d.Closed) (v : DagVertex) :
    (d.store v).Closed ↔ ∀ parent ∈ v.parents, d.contains parent = true ∨ parent = v.hash := by
  have hhash : ∀ h, h ∈ (d.store v).stored.map DagVertex.hash ↔ h = v.hash ∨ h ∈ d.stored.map DagVertex.hash := by
    intro h
    rw [((stored_store d v).map _).mem_iff, List.map_cons, List.mem_cons]
  constructor
  · intro hafter parent hparent
    have hv : v ∈ (d.store v).stored := (stored_store d v).mem_iff.mpr (List.mem_cons_self ..)
    rcases (hhash parent).mp (hafter v hv parent hparent) with hself | hold
    · exact .inr hself
    · exact .inl ((hd.contains_iff parent).mpr hold)
  · intro hnames w hw parent hparent
    rw [hhash]
    rcases List.mem_cons.mp ((stored_store d v).mem_iff.mp hw) with rfl | hw
    · rcases hnames parent hparent with hknown | hself
      · exact .inr ((hd.contains_iff parent).mp hknown)
      · exact .inl hself
    · exact .inr (hclosed w hw parent hparent)

omit [Blake3] in
/-- From round 2 on the parents are checked. -/
theorem contains_of_checkParents {d : Dag} {v : DagVertex} (h : d.checkParents v = .ok ()) (hround : ¬ v.round ≤ 1#64) :
    ∀ parent ∈ v.parents, d.contains parent = true := by
  unfold checkParents at h
  rw [if_neg hround] at h
  split at h
  · cases h
  · split at h
    · cases h
    · rename_i hnone
      intro parent hparent
      simpa using List.find?_eq_none.mp hnone parent hparent

omit [Blake3] in
theorem checkParents_genesis (d : Dag) {v : DagVertex} (hround : v.round ≤ 1#64) : d.checkParents v = .ok () := by
  rw [checkParents, if_pos hround]

/-- **One call** leaves no gap exactly when it is grounded. -/
theorem Closed.step_iff {d : Dag} (hd : d.Consistent) (hclosed : d.Closed) {op : DagOp} (hop : ∀ k, op ≠ .gc k) :
    (d.step op).2.Closed ↔ d.Grounded op := by
  cases op with
  | addVertex v =>
    change (d.addVertex v).2.Closed ↔ _
    rcases addVertex_cases d v with (⟨e, heq⟩ | ⟨hknown, heq⟩) | ⟨hround, hnew, hcheck, heq⟩
    · -- a vertex of round 1 is refused for nothing
      rw [heq]
      refine iff_of_true hclosed ?_
      intro hone hnew
      have hgenesis := d.checkParents_genesis (v := v) (by rw [hone, le_iff_toNat])
      simp [addVertex, hone, hnew, hgenesis] at heq
    · rw [heq]
      refine iff_of_true hclosed ?_
      intro _ hnew
      rw [hknown] at hnew
      cases hnew
    · rw [heq, hclosed.store_iff hd]
      by_cases hone : v.round = 1#64
      · simp [Grounded, hone, hnew]
      · have hlater : ¬ v.round ≤ 1#64 := by
          have hzero : v.round.toNat ≠ 0 := fun e => hround (BitVec.eq_of_toNat_eq e)
          have hone : v.round.toNat ≠ 1 := fun e => hone (BitVec.eq_of_toNat_eq e)
          rw [le_iff_toNat]
          simp only [BitVec.toNat_ofNat]
          omega
        refine iff_of_true (fun parent hp => .inl (contains_of_checkParents hcheck hlater parent hp)) ?_
        intro h
        exact absurd h hone
  | markCommitted h =>
    refine iff_of_true ?_ trivial
    change (d.markCommitted h).2.Closed
    rcases markCommitted_cases d h with ⟨e, heq⟩ | ⟨-, -, heq⟩
    · rwa [heq]
    · rwa [heq]
  | gc k => exact absurd rfl (hop k)

/-- **No dangling history**, exactly. A run of `add_vertex` and `mark_committed` passes only through DAGs in
which every parent of a stored vertex is stored, if and only if every vertex of round 1 that it stores names
stored vertices only. -/
theorem history_closed_iff (config : ConsensusConfig) (ops : List DagOp) (hops : ∀ k, .gc k ∉ ops) :
    (∀ c ∈ trace step (new config) ops, c.after.Closed) ↔ ∀ c ∈ trace step (new config) ops, c.before.Grounded c.input := by
  refine forall_after_iff step Consistent Closed (fun c => c.before.Grounded c.input) ?_ ?_ (consistent_new config)
    (closed_new config)
  · intro d op _ hd
    exact hd.step op
  · intro d op hop hd hclosed
    exact hclosed.step_iff hd fun k hk => hops k (hk ▸ hop)

end

section Dangling
open scoped Concrete

/-- The run of a supported commit is grounded, and no parent is missing at its end. -/
theorem history_closed_committing :
    DagOp.gc 0 ∉ committingOps ∧
    ∃ c ∈ trace step (new soloConfig) committingOps, c.after.isCommitted firstVertex.hash = true ∧ c.after.Closed := by
  have hops : ∀ k, DagOp.gc k ∉ committingOps := by simp [committingOps]
  have hclosed := (history_closed_iff soloConfig committingOps hops).mpr (by decide +kernel)
  have hlast := last_mem_trace step (new soloConfig) [.addVertex firstVertex, .addVertex secondVertex]
    (.markCommitted firstVertex.hash)
  exact ⟨hops 0, _, hlast, by decide +kernel, hclosed _ hlast⟩

/-- A vertex of round 1 whose only parent is the zero hash. -/
def danglingVertex : DagVertex := ⟨addressOf 1, 1, emptyBlock, [Hash.zero], []⟩

/-- It is stored, and its parent is not. -/
theorem danglingVertex_stored :
    (final step (new soloConfig) [.addVertex danglingVertex]).contains danglingVertex.hash = true ∧
    ¬ (final step (new soloConfig) [.addVertex danglingVertex]).Closed := by
  decide +kernel

end Dangling

/-! ## Supporters -/

section
variable [Blake3]

/-- The authors that support `v` by a vertex which a collection leaves. -/
def keptSupporters (d : Dag) (keepRounds : U64) (v : DagVertex) : Finset Address :=
  ((d.stored.filter fun w => (w.round.toNat = v.round.toNat + 1 && w.parents.contains v.hash) &&
    decide (¬ d.Collectable keepRounds w)).map DagVertex.author).toFinset

theorem Consistent.supporters_gc {d : Dag} (hd : d.Consistent) (keepRounds : U64) (v : DagVertex) :
    (d.gc keepRounds).2.supporters v = d.keptSupporters keepRounds v := by
  rw [supporters, keptSupporters, hd.stored_gc, List.filter_filter]

theorem keptSupporters_subset (d : Dag) (keepRounds : U64) (v : DagVertex) :
    d.keptSupporters keepRounds v ⊆ d.supporters v := by
  intro a ha
  simp only [keptSupporters, List.mem_toFinset, List.mem_map, List.mem_filter, Bool.and_eq_true, decide_eq_true_iff,
    List.contains_iff_mem] at ha
  obtain ⟨w, ⟨hw, hnext, -⟩, hauthor⟩ := ha
  exact mem_supporters.mpr ⟨w, hw, hnext, hauthor⟩

/-- If no vertex that supports `v` is collected, all its supporters are left. -/
theorem keptSupporters_eq {d : Dag} {keepRounds : U64} {v : DagVertex}
    (h : ∀ w ∈ d.stored, w.round.toNat = v.round.toNat + 1 → v.hash ∈ w.parents → ¬ d.Collectable keepRounds w) :
    d.keptSupporters keepRounds v = d.supporters v := by
  rw [keptSupporters, supporters]
  congr 2
  apply List.filter_congr
  intro w hw
  by_cases hnext : w.round.toNat = v.round.toNat + 1 ∧ v.hash ∈ w.parents
  · simp [h w hw hnext.1 hnext.2]
  · have hno : (decide (w.round.toNat = v.round.toNat + 1) && w.parents.contains v.hash) = false := by
      rw [Bool.eq_false_iff, ne_eq, Bool.and_eq_true, decide_eq_true_iff, List.contains_iff_mem]
      exact hnext
    rw [hno, Bool.false_and]

theorem Consistent.hasQuorumSupport_iff {d : Dag} (hd : d.Consistent) {v : DagVertex} (hv : v ∈ d.stored) :
    d.hasQuorumSupport v.hash = true ↔ d.config.quorumThreshold ≤ (d.supporters v).card := by
  rw [hasQuorumSupport, decide_eq_true_iff, hd.supportFor_eq hv]

/-- Nothing that supports `v` is collected: the vertex is committed and stays, or its next round is not before
the cutoff, or no committed vertex supports it. -/
def Sheltered (d : Dag) (keepRounds : U64) (v : DagVertex) : Prop :=
  v.hash ∈ d.committed ∨ (d.cutoff keepRounds).toNat ≤ v.round.toNat + 1 ∨
    ∀ w ∈ d.stored, w.round.toNat = v.round.toNat + 1 → v.hash ∈ w.parents → w.hash ∉ d.committed

theorem Consistent.not_collectable_of_sheltered {d : Dag} (hd : d.Consistent) {keepRounds : U64} {v w : DagVertex}
    (hv : v ∈ (d.gc keepRounds).2.stored) (hsafe : d.Sheltered keepRounds v) (hw : w ∈ d.stored)
    (hnext : w.round.toNat = v.round.toNat + 1) (hnames : v.hash ∈ w.parents) : ¬ d.Collectable keepRounds w := by
  rintro ⟨hcommitted, hlt⟩
  rw [lt_iff_toNat] at hlt
  rcases hsafe with hself | hround | hnone
  · -- a committed vertex that stays is not before the cutoff
    rw [hd.stored_gc, List.mem_filter, decide_eq_true_iff] at hv
    have hcut : ¬ v.round < d.cutoff keepRounds := fun h => hv.2 ⟨hself, h⟩
    rw [lt_iff_toNat] at hcut
    omega
  · omega
  · exact hnone w hw hnext hnames hcommitted

/-- **What collection does to support.** In every reachable DAG and for every vertex that a collection leaves,
the vertex has quorum support after it as before, exactly when a quorum of supporters before leaves a quorum
among those that are not collected; in particular if the vertex is committed, if the round after it is not
before the cutoff, or if no committed vertex supports it. -/
theorem gc_support (config : ConsensusConfig) (ops : List DagOp) (keepRounds : U64) (v : DagVertex)
    (hv : v ∈ ((final step (new config) ops).gc keepRounds).2.stored) :
    let d := final step (new config) ops
    ((d.gc keepRounds).2.hasQuorumSupport v.hash = d.hasQuorumSupport v.hash ↔
      (config.quorumThreshold ≤ (d.supporters v).card → config.quorumThreshold ≤ (d.keptSupporters keepRounds v).card)) ∧
    (d.Sheltered keepRounds v → (d.gc keepRounds).2.hasQuorumSupport v.hash = d.hasQuorumSupport v.hash) := by
  have hd := consistent_run config ops
  have hconfig := config_run config ops
  intro d
  have hstored : v ∈ d.stored := by
    rw [hd.stored_gc, List.mem_filter] at hv
    exact hv.1
  have hbefore := hd.hasQuorumSupport_iff hstored
  have hafter := (hd.gc keepRounds).hasQuorumSupport_iff hv
  rw [hd.supporters_gc] at hafter
  have hsame : (d.gc keepRounds).2.config = config := hconfig
  rw [hsame] at hafter
  rw [hconfig] at hbefore
  have hiff : (d.gc keepRounds).2.hasQuorumSupport v.hash = d.hasQuorumSupport v.hash ↔
      (config.quorumThreshold ≤ (d.supporters v).card → config.quorumThreshold ≤ (d.keptSupporters keepRounds v).card) := by
    have hless := Finset.card_le_card (d.keptSupporters_subset keepRounds v)
    rw [Bool.eq_iff_iff, hafter, hbefore]
    exact ⟨fun h => h.mpr, fun h => ⟨fun hkept => hkept.trans hless, h⟩⟩
  refine ⟨hiff, ?_⟩
  intro hsafe
  rw [hiff, keptSupporters_eq fun w hw => hd.not_collectable_of_sheltered hv hsafe hw]
  exact id

end

section Stranded
open scoped Concrete

def thirdVertex : DagVertex := ⟨addressOf 1, 3, emptyBlock, [secondVertex.hash], []⟩

/-- A chain of three vertices, of which the second is committed and the first is not. -/
def strandingOps : List DagOp :=
  [.addVertex firstVertex, .addVertex secondVertex, .addVertex thirdVertex, .markCommitted secondVertex.hash]

/-- With one round kept behind the newest, the support of the first vertex stays. -/
theorem gc_support_kept :
    firstVertex ∈ ((final step (new soloConfig) strandingOps).gc 1).2.stored ∧
    ((final step (new soloConfig) strandingOps).gc 1).2.hasQuorumSupport firstVertex.hash =
      (final step (new soloConfig) strandingOps).hasQuorumSupport firstVertex.hash := by
  have hstays : firstVertex ∈ ((final step (new soloConfig) strandingOps).gc 1).2.stored := by decide +kernel
  exact ⟨hstays, (gc_support soloConfig strandingOps 1 firstVertex hstays).2 (.inr (.inl (by decide +kernel)))⟩

/-- With none, it can be committed before the collection and not after it. -/
theorem gc_strands :
    ((final step (new soloConfig) strandingOps).gc 0).2.contains firstVertex.hash = true ∧
    (final step (new soloConfig) strandingOps).hasQuorumSupport firstVertex.hash = true ∧
    ((final step (new soloConfig) strandingOps).gc 0).2.hasQuorumSupport firstVertex.hash = false := by
  decide +kernel

end Stranded
end Dag
end Subhost
