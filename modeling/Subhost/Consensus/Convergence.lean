import Subhost.Consensus.Commits
/-!
# Two nodes that receive the same vertices (subhost-consensus/src/lib.rs:154-251)

Two nodes receive the same vertices in different orders, each in one in which every vertex finds its
parents. The lists of the rounds then differ in their order, and nothing a query returns depends on it:
both nodes store the delivered vertices, and every query is a function of the set of stored ones.
-/
namespace Subhost
open Uint Run

namespace Dag
section
variable [Blake3]

/-! ## Queries depend on the set of stored vertices -/

/-- Two DAGs that no query tells apart. -/
structure Agree (d d' : Dag) : Prop where
  contains : ∀ h, d.contains h = d'.contains h
  vertexRound : ∀ h, d.vertexRound h = d'.vertexRound h
  parentsOf : ∀ h, d.parentsOf h = d'.parentsOf h
  getRound : ∀ r v, v ∈ d.getRound r ↔ v ∈ d'.getRound r
  latestRound : d.latestRound = d'.latestRound
  supportFor : ∀ h, d.supportFor h = d'.supportFor h
  hasQuorumSupport : ∀ h, d.hasQuorumSupport h = d'.hasQuorumSupport h
  markCommitted : ∀ h, (d.markCommitted h).1 = (d'.markCommitted h).1

theorem Consistent.latestRound_eq {d d' : Dag} (hd : d.Consistent) (hd' : d'.Consistent)
    (hp : d.stored.Perm d'.stored) : d.latestRound = d'.latestRound := by
  have hle := hd.latestRound_mono hd' fun v hv _ => hp.subset hv
  have hge := hd'.latestRound_mono hd fun v hv _ => hp.symm.subset hv
  rw [le_iff_toNat] at hle hge
  exact BitVec.eq_of_toNat_eq (Nat.le_antisymm hle hge)

theorem Consistent.supportFor_congr {d d' : Dag} (hd : d.Consistent) (hd' : d'.Consistent)
    (hp : d.stored.Perm d'.stored) (h : Hash) : d.supportFor h = d'.supportFor h := by
  by_cases hknown : h ∈ d.stored.map DagVertex.hash
  · obtain ⟨v, hv, rfl⟩ := List.mem_map.mp hknown
    rw [hd.supportFor_eq hv, hd'.supportFor_eq (hp.subset hv)]
    congr 1
    exact Finset.Subset.antisymm (supporters_subset fun w hw _ => hp.subset hw)
      (supporters_subset fun w hw _ => hp.symm.subset hw)
  · have hunknown : h ∉ d'.stored.map DagVertex.hash := mt (hp.map DagVertex.hash).mem_iff.mpr hknown
    rw [hd.supportFor_of_not_contains hknown, hd'.supportFor_of_not_contains hunknown]

/-- **Consistent DAGs with the same vertices and configuration agree.** -/
theorem Consistent.agree {d d' : Dag} (hd : d.Consistent) (hd' : d'.Consistent) (hconfig : d.config = d'.config)
    (hp : d.stored.Perm d'.stored) : d.Agree d' := by
  have hindex : d.index = d'.index := hd.index.unique hd'.index hp
  have hcontains : ∀ h, d.contains h = d'.contains h := fun h => by rw [contains, contains, hindex]
  have hsupport := hd.supportFor_congr hd' hp
  have hquorum : ∀ h, d.hasQuorumSupport h = d'.hasQuorumSupport h := fun h => by
    rw [hasQuorumSupport, hasQuorumSupport, hsupport, hconfig]
  refine ⟨hcontains, ?_, ?_, ?_, hd.latestRound_eq hd' hp, hsupport, hquorum, ?_⟩
  · intro h
    rw [vertexRound, vertexRound, hindex]
  · intro h
    rw [parentsOf, parentsOf, hd.edges.unique hd'.edges hp]
  · intro r v
    rw [hd.mem_getRound_iff, hd'.mem_getRound_iff, hp.mem_iff]
  · intro h
    unfold Dag.markCommitted
    rw [hcontains, hquorum, hsupport, hconfig]
    split
    · rfl
    · split
      · rfl
      · rfl

/-! ## Deliveries -/

/-- Every `add_vertex` of the delivery succeeds. -/
def Accepted (d : Dag) (l : List DagVertex) : Prop := ∀ c ∈ trace addVertex d l, c.result.isOk = true

instance (d : Dag) (l : List DagVertex) : Decidable (d.Accepted l) := inferInstanceAs (Decidable (∀ c ∈ _, _))

/-- Adding accepted vertices of new hashes stores them all. -/
theorem stored_deliver {d : Dag} (hd : d.Consistent) {l : List DagVertex}
    (hnew : (l.map DagVertex.hash ++ d.stored.map DagVertex.hash).Nodup)
    (haccepted : d.Accepted l) :
    (final addVertex d l).stored.Perm (l ++ d.stored) := by
  induction l generalizing d with
  | nil => exact .refl _
  | cons v rest ih =>
    rw [Accepted, trace, List.forall_mem_cons] at haccepted
    obtain ⟨hok, hrest⟩ := haccepted
    rw [List.map_cons, List.cons_append, List.nodup_cons, List.mem_append, not_or] at hnew
    obtain ⟨⟨hother, hfresh⟩, hnodup⟩ := hnew
    rcases addVertex_cases d v with (⟨e, heq⟩ | ⟨hknown, -⟩) | ⟨hround, hunknown, -, heq⟩
    · rw [heq] at hok
      cases hok
    · exact absurd ((hd.contains_iff v.hash).mp hknown) hfresh
    · rw [heq] at hrest
      have hstored := stored_store d v
      have hperm : (rest.map DagVertex.hash ++ (d.store v).stored.map DagVertex.hash).Perm
          (v.hash :: (rest.map DagVertex.hash ++ d.stored.map DagVertex.hash)) :=
        ((hstored.map _).append_left _).trans List.perm_middle
      have hnodup' : (v.hash :: (rest.map DagVertex.hash ++ d.stored.map DagVertex.hash)).Nodup := by
        rw [List.nodup_cons, List.mem_append, not_or]
        exact ⟨⟨hother, hfresh⟩, hnodup⟩
      rw [final, heq]
      refine (ih (hd.store hround hunknown) (hperm.nodup_iff.mpr hnodup') hrest).trans ?_
      exact (hstored.append_left rest).trans List.perm_middle

theorem config_deliver (d : Dag) (l : List DagVertex) : (final addVertex d l).config = d.config :=
  final_invariant addVertex (fun d' => d'.config = d.config)
    (fun d' v h => (config_step d' (.addVertex v)).trans h) rfl l

theorem consistent_deliver (config : ConsensusConfig) (l : List DagVertex) :
    (final addVertex (new config) l).Consistent :=
  final_invariant addVertex Consistent (fun _ v h => h.addVertex v) (consistent_new config) l

/-- **Convergence.** Vertices of distinct hashes, delivered in any two orders in which every one of them is
accepted, give DAGs that agree on every query. -/
theorem dag_convergence (config : ConsensusConfig) {l l' : List DagVertex} (hp : l.Perm l')
    (hdistinct : (l.map DagVertex.hash).Nodup)
    (haccepted : (new config).Accepted l) (haccepted' : (new config).Accepted l') :
    Agree (final addVertex (new config) l) (final addVertex (new config) l') := by
  have hempty : (new config).stored = [] := Buckets.contents_empty
  have hstored : ∀ l : List DagVertex, (l.map DagVertex.hash).Nodup → (new config).Accepted l →
      (final addVertex (new config) l).stored.Perm l := by
    intro l hdistinct haccepted
    have hperm := stored_deliver (consistent_new config) (by simpa [hempty] using hdistinct) haccepted
    rwa [hempty, List.append_nil] at hperm
  have hdistinct' := ((hp.map DagVertex.hash).nodup_iff).mp hdistinct
  refine (consistent_deliver config l).agree (consistent_deliver config l') ?_ ?_
  · rw [config_deliver, config_deliver]
  · exact ((hstored l hdistinct haccepted).trans hp).trans (hstored l' hdistinct' haccepted').symm

end

section Delivered
open scoped Concrete

def otherVertex : DagVertex := ⟨addressOf 2, 1, emptyBlock, [], []⟩

/-- A vertex of the second round that names both vertices of the first. -/
def joiningVertex : DagVertex := ⟨addressOf 2, 2, emptyBlock, [firstVertex.hash, otherVertex.hash], []⟩

/-- Two vertices of the first round in either order, and a third above both. -/
theorem dag_convergence_joined :
    Agree (final addVertex (new soloConfig) [firstVertex, otherVertex, joiningVertex])
      (final addVertex (new soloConfig) [otherVertex, firstVertex, joiningVertex]) ∧
    (final addVertex (new soloConfig) [firstVertex, otherVertex, joiningVertex]).supportFor otherVertex.hash = 1 := by
  refine ⟨dag_convergence soloConfig (.swap _ _ _) ?_ ?_ ?_, by decide +kernel⟩
  · decide +kernel
  · decide +kernel
  · decide +kernel

end Delivered
end Dag
end Subhost
