import Subhost.Consensus.HotStuff
import Subhost.Core.Encoding
import Subhost.Lib.Buckets
/-!
# The dissemination DAG (subhost-consensus/src/lib.rs:102-302)

| here | there |
| --- | --- |
| `Dag`                | `DAG { vertices, index, edges, committed, config }` (lib.rs:125) |
| `Dag.addVertex`      | `DAG::add_vertex` (lib.rs:154) |
| `Dag.supportFor`     | `DAG::support_for` (lib.rs:213) |
| `Dag.markCommitted`  | `DAG::mark_committed` (lib.rs:239) |
| `Dag.gc`             | `DAG::gc` (lib.rs:265) |

Four collections are kept by hand. `stored` is what they are about: the vertices of all rounds in one
list. `Consistent` says how the four hang together through it, and every operation is described by what
it does to it: a vertex is added, a mark is set, the list is filtered.
-/
namespace Subhost
open Uint Bincode Codec Run Buckets

/-- `DAGVertex` (lib.rs:104). -/
structure DagVertex where
  author : Address
  round : U64
  block : Block
  parents : List Hash
  signature : Bytes
deriving DecidableEq

/-- `DAGVertex::hash` (lib.rs:117); the signature is no part of the identity, nor is the order of the
parents. -/
def DagVertex.hash [Blake3] (v : DagVertex) : Hash :=
  Hash.fromData ((pair Address.codec (pair u64 (pair Hash.codec (list Hash.codec Hash.encode_ne_nil)))).encode
    (v.author, v.round, v.block.hash, sortBy compare v.parents))

/-- `DAG` (lib.rs:125). -/
structure Dag where
  vertices : Map U64 (List DagVertex)
  index : Map Hash U64
  edges : Map Hash (List Hash)
  committed : KeySet Hash
  config : ConsensusConfig

namespace Dag

/-- `DAG::new` (lib.rs:135). -/
def new (config : ConsensusConfig) : Dag := ⟨∅, ∅, ∅, ∅, config⟩

/-- `DAG::get_round` (lib.rs:184). -/
def getRound (d : Dag) (round : U64) : List DagVertex := d.vertices[round]?.getD []

/-- `DAG::contains` (lib.rs:188). -/
def contains (d : Dag) (h : Hash) : Bool := d.index.contains h

/-- `DAG::vertex_round` (lib.rs:192). -/
def vertexRound (d : Dag) (h : Hash) : Option U64 := d.index[h]?

/-- `DAG::parents_of` (lib.rs:196). -/
def parentsOf (d : Dag) (h : Hash) : Option (List Hash) := d.edges[h]?

/-- `DAG::latest_round` (lib.rs:200). -/
def latestRound (d : Dag) : U64 := d.vertices.keys.getLast?.getD 0#64

/-- `DAG::support_for` (lib.rs:213): distinct authors of the next round that name the vertex as a parent. -/
def supportFor (d : Dag) (h : Hash) : Nat :=
  match d.vertexRound h with
  | none => 0
  | some round =>
    match checkedAdd round 1#64 with
    | none => 0
    | some next =>
      match d.vertices[next]? with
      | none => 0
      | some vertices => ((vertices.filter fun v => v.parents.contains h).map DagVertex.author).toFinset.card

/-- `DAG::has_quorum_support` (lib.rs:234). -/
def hasQuorumSupport (d : Dag) (h : Hash) : Bool := d.config.quorumThreshold ≤ d.supportFor h

/-- `DAG::mark_committed` (lib.rs:239). -/
def markCommitted (d : Dag) (h : Hash) : Except ConsensusError Unit × Dag :=
  if !d.contains h then (.error (.unknownVertex h), d)
  else if !d.hasQuorumSupport h then (.error (.insufficientSupport (d.supportFor h) d.config.quorumThreshold), d)
  else (.ok (), { d with committed := d.committed.insert h })

/-- `DAG::is_committed` (lib.rs:253). -/
def isCommitted (d : Dag) (h : Hash) : Bool := d.committed.contains h

/-- The parent checks of `add_vertex` (lib.rs:162-173). -/
def checkParents (d : Dag) (vertex : DagVertex) : Except ConsensusError Unit :=
  if vertex.round ≤ 1#64 then .ok ()
  else if vertex.parents.isEmpty then .error (.invalidVertex "a non-genesis vertex must reference parents")
  else
    match vertex.parents.find? fun p => !d.contains p with
    | some parent => .error (.missingParent parent)
    | none => .ok ()

section
variable [Blake3]

/-- The three writes of `add_vertex` (lib.rs:175-179). -/
def store (d : Dag) (vertex : DagVertex) : Dag :=
  { d with
    vertices := push d.vertices vertex.round vertex
    index := d.index.insert vertex.hash vertex.round
    edges := d.edges.insert vertex.hash vertex.parents }

/-- `DAG::add_vertex` (lib.rs:154). -/
def addVertex (d : Dag) (vertex : DagVertex) : Except ConsensusError Hash × Dag :=
  if vertex.round = 0#64 then (.error (.invalidVertex "round must be >= 1"), d)
  else if d.contains vertex.hash then (.ok vertex.hash, d)
  else
    match d.checkParents vertex with
    | .error e => (.error e, d)
    | .ok () => (.ok vertex.hash, d.store vertex)

/-- What `gc` leaves of one round (lib.rs:270-283); `none` where `retain` drops the round. -/
def retainRound (d : Dag) (cutoff round : U64) (vertices : List DagVertex) : Option (List DagVertex) :=
  if cutoff ≤ round then some vertices
  else
    let kept := vertices.filter fun v => v.hash ∉ d.committed
    if kept.isEmpty then none else some kept

/-- `DAG::gc` (lib.rs:265). `live` is its set of surviving hashes; `retained_index` is never read. -/
def gc (d : Dag) (keepRounds : U64) : Nat × Dag :=
  let cutoff := saturatingSub d.latestRound keepRounds
  let vertices := d.vertices.retain (d.retainRound cutoff)
  let live := (contents vertices).map DagVertex.hash
  let removed := d.index.toList.countP fun p => !live.contains p.1
  (removed, { d with
    vertices
    index := d.index.retainKeys fun h => live.contains h
    edges := d.edges.retainKeys fun h => live.contains h
    committed := Map.retainMembers (fun h => live.contains h) d.committed })

end

/-! ## The representation invariant -/

/-- The vertices of all rounds. -/
def stored (d : Dag) : List DagVertex := contents d.vertices

section
variable [Blake3]

/-- How the four collections hang together. -/
structure Consistent (d : Dag) : Prop where
  distinct : (d.stored.map DagVertex.hash).Nodup
  filed : ∀ (round : U64) (vertices : List DagVertex), d.vertices[round]? = some vertices →
    vertices ≠ [] ∧ 1#64 ≤ round ∧ ∀ v ∈ vertices, v.round = round
  index : Indexes DagVertex.hash DagVertex.round d.stored d.index
  edges : Indexes DagVertex.hash DagVertex.parents d.stored d.edges
  committed : ∀ h ∈ d.committed, h ∈ d.stored.map DagVertex.hash

theorem consistent_new (config : ConsensusConfig) : (new config).Consistent where
  distinct := by simp [new, stored, contents_empty]
  filed := by simp [new]
  index := by
    rw [stored, new, contents_empty]
    exact .empty
  edges := by
    rw [stored, new, contents_empty]
    exact .empty
  committed := by simp [new]

namespace Consistent
variable {d : Dag}

theorem contains_iff (hd : d.Consistent) (h : Hash) : d.contains h = true ↔ h ∈ d.stored.map DagVertex.hash :=
  hd.index.contains_iff h

theorem not_mem_of_contains (hd : d.Consistent) {h : Hash} (hnew : d.contains h = false) :
    h ∉ d.stored.map DagVertex.hash := by
  rw [← hd.contains_iff, hnew]
  exact Bool.false_ne_true

/-- A vertex is stored exactly when it is in the list of its round. -/
theorem mem_stored_iff (hd : d.Consistent) {v : DagVertex} :
    v ∈ d.stored ↔ ∃ vertices, d.vertices[v.round]? = some vertices ∧ v ∈ vertices := by
  rw [stored, mem_contents]
  constructor
  · rintro ⟨round, vertices, hround, hv⟩
    rw [← (hd.filed round vertices hround).2.2 v hv] at hround
    exact ⟨vertices, hround, hv⟩
  · rintro ⟨vertices, hround, hv⟩
    exact ⟨v.round, vertices, hround, hv⟩

theorem mem_getRound_iff (hd : d.Consistent) {v : DagVertex} {round : U64} :
    v ∈ d.getRound round ↔ v ∈ d.stored ∧ v.round = round := by
  rw [getRound]
  cases hround : d.vertices[round]? with
  | none =>
    simp only [Option.getD_none, List.not_mem_nil, false_iff, not_and]
    rintro hv rfl
    obtain ⟨vertices, hsome, -⟩ := hd.mem_stored_iff.mp hv
    simp [hround] at hsome
  | some vertices =>
    rw [Option.getD_some]
    constructor
    · intro hv
      have hr := (hd.filed round vertices hround).2.2 v hv
      exact ⟨hd.mem_stored_iff.mpr ⟨vertices, hr ▸ hround, hv⟩, hr⟩
    · rintro ⟨hv, rfl⟩
      obtain ⟨vertices', hsome, hmem⟩ := hd.mem_stored_iff.mp hv
      rw [hround, Option.some.injEq] at hsome
      exact hsome ▸ hmem

end Consistent

/-! ## The newest round -/

theorem Consistent.le_latestRound {d : Dag} (hd : d.Consistent) {v : DagVertex} (hv : v ∈ d.stored) :
    v.round ≤ d.latestRound := by
  obtain ⟨vertices, hround, -⟩ := hd.mem_stored_iff.mp hv
  have hmem : v.round ∈ d.vertices := by
    rw [Std.ExtTreeMap.mem_iff_isSome_getElem?, hround]
    rfl
  rw [latestRound, ← Std.ExtTreeMap.maxKey?_eq_getLast?_keys]
  cases hmax : d.vertices.maxKey? with
  | none =>
    rw [Std.ExtTreeMap.maxKey?_eq_none_iff] at hmax
    simp [hmax] at hround
  | some r =>
    have hall := (Std.ExtTreeMap.maxKey?_eq_some_iff_mem_and_forall.mp hmax).2
    exact (isLE_compare_iff _ _).mp (hall _ hmem)

/-- The newest round is 0, or some stored vertex is of it. -/
theorem Consistent.latestRound_attained {d : Dag} (hd : d.Consistent) :
    d.latestRound = 0#64 ∨ ∃ v ∈ d.stored, v.round = d.latestRound := by
  rw [latestRound, ← Std.ExtTreeMap.maxKey?_eq_getLast?_keys]
  cases hmax : d.vertices.maxKey? with
  | none => exact .inl rfl
  | some r =>
    right
    have hmem := (Std.ExtTreeMap.maxKey?_eq_some_iff_mem_and_forall.mp hmax).1
    rw [Std.ExtTreeMap.mem_iff_isSome_getElem?, Option.isSome_iff_exists] at hmem
    obtain ⟨vertices, hround⟩ := hmem
    obtain ⟨hne, -, hall⟩ := hd.filed r vertices hround
    obtain ⟨v, hv⟩ := List.exists_mem_of_ne_nil vertices hne
    exact ⟨v, mem_contents.mpr ⟨r, vertices, hround, hv⟩, hall v hv⟩

/-- The newest round does not go back as long as the vertices of that round stay. -/
theorem Consistent.latestRound_mono {d d' : Dag} (hd : d.Consistent) (hd' : d'.Consistent)
    (hkeep : ∀ v ∈ d.stored, v.round = d.latestRound → v ∈ d'.stored) : d.latestRound ≤ d'.latestRound := by
  rcases hd.latestRound_attained with hzero | ⟨v, hv, hround⟩
  · rw [hzero, le_iff_toNat]
    exact Nat.zero_le _
  · rw [← hround]
    exact hd'.le_latestRound (hkeep v hv hround)

/-! ## What each operation does -/

/-- **What `add_vertex` can do**: nothing, or store a vertex whose hash is new. -/
theorem addVertex_cases (d : Dag) (v : DagVertex) :
    ((∃ e, d.addVertex v = (.error e, d)) ∨ (d.contains v.hash = true ∧ d.addVertex v = (.ok v.hash, d))) ∨
      (v.round ≠ 0#64 ∧ d.contains v.hash = false ∧ d.checkParents v = .ok () ∧
        d.addVertex v = (.ok v.hash, d.store v)) := by
  unfold addVertex
  by_cases hzero : v.round = 0#64
  · simp [hzero]
  · by_cases hknown : d.contains v.hash = true
    · simp [hzero, hknown]
    · cases hparents : d.checkParents v with
      | error e => simp [hzero, hknown]
      | ok u => simp [hzero, hknown]

theorem stored_store (d : Dag) (v : DagVertex) : (d.store v).stored.Perm (v :: d.stored) :=
  contents_push d.vertices v.round v

theorem Consistent.store {d : Dag} (hd : d.Consistent) {v : DagVertex} (hround : v.round ≠ 0#64)
    (hnew : d.contains v.hash = false) : (d.store v).Consistent where
  distinct := by
    refine ((stored_store d v).map _).nodup_iff.mpr ?_
    exact List.nodup_cons.mpr ⟨hd.not_mem_of_contains hnew, hd.distinct⟩
  filed := by
    intro round vertices hget
    by_cases e : v.round = round
    · subst e
      rw [Dag.store, get_push_self, Option.some.injEq] at hget
      subst hget
      refine ⟨by simp, ?_, ?_⟩
      · have : v.round.toNat ≠ 0 := fun h => hround (BitVec.eq_of_toNat_eq h)
        rw [le_iff_toNat]
        simpa using Nat.one_le_iff_ne_zero.mpr this
      · intro w hw
        rcases List.mem_append.mp hw with hw | hw
        · exact (hd.mem_getRound_iff.mp hw).2
        · rw [List.mem_singleton.mp hw]
    · rw [Dag.store, get_push_ne _ _ e] at hget
      exact hd.filed round vertices hget
  index := (hd.index.insert ((hd.index.get_eq_none_iff _).mpr (hd.not_mem_of_contains hnew))).of_perm
    (stored_store d v).symm
  edges := (hd.edges.insert ((hd.edges.get_eq_none_iff _).mpr (hd.not_mem_of_contains hnew))).of_perm
    (stored_store d v).symm
  committed := by
    intro h hh
    rw [((stored_store d v).map _).mem_iff, List.map_cons]
    exact List.mem_cons_of_mem _ (hd.committed h hh)

theorem Consistent.addVertex {d : Dag} (hd : d.Consistent) (v : DagVertex) : (d.addVertex v).2.Consistent := by
  rcases addVertex_cases d v with (⟨e, h⟩ | ⟨-, h⟩) | ⟨hround, hnew, -, h⟩
  · rwa [h]
  · rwa [h]
  · rw [h]
    exact hd.store hround hnew

omit [Blake3] in
/-- **What `mark_committed` can do**: nothing, or mark a known vertex with enough support. -/
theorem markCommitted_cases (d : Dag) (h : Hash) :
    (∃ e, d.markCommitted h = (.error e, d)) ∨
      (d.contains h = true ∧ d.config.quorumThreshold ≤ d.supportFor h ∧
        d.markCommitted h = (.ok (), { d with committed := d.committed.insert h })) := by
  unfold markCommitted hasQuorumSupport
  by_cases hknown : d.contains h = true
  · by_cases hquorum : d.config.quorumThreshold ≤ d.supportFor h
    · simp [hknown, hquorum]
    · simp [hknown, hquorum]
  · simp [hknown]

theorem Consistent.markCommitted {d : Dag} (hd : d.Consistent) (h : Hash) : (d.markCommitted h).2.Consistent := by
  rcases markCommitted_cases d h with ⟨e, heq⟩ | ⟨hknown, -, heq⟩
  · rwa [heq]
  · rw [heq]
    refine ⟨hd.distinct, hd.filed, hd.index, hd.edges, ?_⟩
    intro h' hh'
    rcases Std.ExtTreeSet.mem_insert.mp hh' with e | hmem
    · rw [← (Map.compare_eq_iff _ _).mp e]
      exact (hd.contains_iff h).mp hknown
    · exact hd.committed h' hmem

/-! ### Collection -/

/-- The oldest round `gc` does not touch. -/
def cutoff (d : Dag) (keepRounds : U64) : U64 := saturatingSub d.latestRound keepRounds

/-- What `gc` collects: committed vertices of rounds before the cutoff. -/
def Collectable (d : Dag) (keepRounds : U64) (v : DagVertex) : Prop :=
  v.hash ∈ d.committed ∧ v.round < d.cutoff keepRounds

instance (d : Dag) (keepRounds : U64) (v : DagVertex) : Decidable (d.Collectable keepRounds v) :=
  inferInstanceAs (Decidable (_ ∧ _))

omit [Blake3] in
theorem cutoff_le_latestRound (d : Dag) (keepRounds : U64) : d.cutoff keepRounds ≤ d.latestRound := by
  rw [le_iff_toNat, cutoff, toNat_saturatingSub]
  omega

/-- What `gc` leaves of a round, as a list. -/
theorem retainRound_getD (d : Dag) (keepRounds : U64) {round : U64} {vertices : List DagVertex}
    (h : ∀ v ∈ vertices, v.round = round) :
    (d.retainRound (d.cutoff keepRounds) round vertices).getD [] =
      vertices.filter fun v => ¬ d.Collectable keepRounds v := by
  unfold retainRound
  by_cases hold : d.cutoff keepRounds ≤ round
  · rw [if_pos hold, Option.getD_some, eq_comm, List.filter_eq_self]
    intro v hv
    have hnlt : ¬ v.round < d.cutoff keepRounds := by
      rw [h v hv, lt_iff_toNat]
      rw [le_iff_toNat] at hold
      omega
    simp [Collectable, hnlt]
  · have hkept : vertices.filter (fun v => decide (v.hash ∉ d.committed)) =
        vertices.filter fun v => decide ¬ d.Collectable keepRounds v := by
      apply List.filter_congr
      intro v hv
      have hlt : v.round < d.cutoff keepRounds := by
        rw [h v hv, lt_iff_toNat]
        rw [le_iff_toNat] at hold
        omega
      simp [Collectable, hlt]
    rw [if_neg hold, hkept]
    -- a dropped round and an empty one are the same list
    generalize vertices.filter (fun v => decide ¬ d.Collectable keepRounds v) = kept
    cases kept with
    | nil => rfl
    | cons v rest => rfl

/-- **Collection filters the stored vertices.** -/
theorem Consistent.stored_gc {d : Dag} (hd : d.Consistent) (keepRounds : U64) :
    (d.gc keepRounds).2.stored = d.stored.filter fun v => ¬ d.Collectable keepRounds v := by
  refine contents_retain ?_
  rintro ⟨round, vertices⟩ hmem
  exact retainRound_getD d keepRounds (hd.filed round vertices (Map.mem_toList.mp hmem)).2.2

theorem index_gc (d : Dag) (keepRounds : U64) :
    (d.gc keepRounds).2.index =
      d.index.retainKeys fun h => ((d.gc keepRounds).2.stored.map DagVertex.hash).contains h := rfl

theorem edges_gc (d : Dag) (keepRounds : U64) :
    (d.gc keepRounds).2.edges =
      d.edges.retainKeys fun h => ((d.gc keepRounds).2.stored.map DagVertex.hash).contains h := rfl

theorem committed_gc (d : Dag) (keepRounds : U64) :
    (d.gc keepRounds).2.committed =
      Map.retainMembers (fun h => ((d.gc keepRounds).2.stored.map DagVertex.hash).contains h) d.committed := rfl

/-- The hash of a stored vertex is live exactly when the vertex survives. -/
theorem Consistent.live_iff {d : Dag} (hd : d.Consistent) (keepRounds : U64) {v : DagVertex} (hv : v ∈ d.stored) :
    v.hash ∈ (d.gc keepRounds).2.stored.map DagVertex.hash ↔ ¬ d.Collectable keepRounds v := by
  rw [hd.stored_gc, mem_map_filter_iff hd.distinct _ hv, decide_eq_true_iff]

theorem Consistent.contains_live {d : Dag} (hd : d.Consistent) (keepRounds : U64) {v : DagVertex} (hv : v ∈ d.stored) :
    ((d.gc keepRounds).2.stored.map DagVertex.hash).contains v.hash = decide (¬ d.Collectable keepRounds v) := by
  rw [Bool.eq_iff_iff, List.contains_iff_mem, hd.live_iff keepRounds hv, decide_eq_true_iff]

theorem Consistent.gc {d : Dag} (hd : d.Consistent) (keepRounds : U64) : (d.gc keepRounds).2.Consistent where
  distinct := by
    rw [hd.stored_gc]
    exact hd.distinct.sublist (List.filter_sublist.map _)
  filed := by
    intro round vertices hget
    rw [Dag.gc, Map.get_retain, Option.bind_eq_some_iff] at hget
    obtain ⟨old, hold, hretain⟩ := hget
    obtain ⟨hne, hpos, hround⟩ := hd.filed round old hold
    unfold retainRound at hretain
    split at hretain
    · cases hretain
      exact ⟨hne, hpos, hround⟩
    · dsimp only at hretain
      split at hretain
      · cases hretain
      · rename_i hnonempty
        cases hretain
        refine ⟨by simpa using hnonempty, hpos, ?_⟩
        intro v hv
        exact hround v (List.mem_filter.mp hv).1
  index := by
    have hfilter := hd.index.filter (p := fun h => ((d.gc keepRounds).2.stored.map DagVertex.hash).contains h)
      fun v hv => hd.contains_live keepRounds hv
    rwa [← index_gc, ← hd.stored_gc] at hfilter
  edges := by
    have hfilter := hd.edges.filter (p := fun h => ((d.gc keepRounds).2.stored.map DagVertex.hash).contains h)
      fun v hv => hd.contains_live keepRounds hv
    rwa [← edges_gc, ← hd.stored_gc] at hfilter
  committed := by
    intro h hh
    rw [committed_gc, Map.mem_retainMembers, List.contains_iff_mem] at hh
    exact hh.2

/-- **The number `gc` returns** is the number of collected vertices. -/
theorem Consistent.gc_removed {d : Dag} (hd : d.Consistent) (keepRounds : U64) :
    (d.gc keepRounds).1 = d.stored.countP fun v => d.Collectable keepRounds v := by
  have hkeys := hd.index.keys_perm hd.distinct
  have hcount : (d.gc keepRounds).1 =
      (d.index.toList.map Prod.fst).countP fun h => !((d.gc keepRounds).2.stored.map DagVertex.hash).contains h := by
    rw [List.countP_map]
    rfl
  rw [hcount, hkeys.countP_eq, List.countP_map]
  apply List.countP_congr
  intro v hv
  simp only [Function.comp_apply, hd.contains_live keepRounds hv, decide_not, Bool.not_not]

theorem mem_committed_gc {d : Dag} {keepRounds : U64} {h : Hash} :
    h ∈ (d.gc keepRounds).2.committed ↔
      h ∈ d.committed ∧ h ∈ (d.gc keepRounds).2.stored.map DagVertex.hash := by
  rw [committed_gc, Map.mem_retainMembers, List.contains_iff_mem]

/-! ## Runs -/

end
end Dag

/-- One call on a DAG. -/
inductive DagOp where
  | addVertex (vertex : DagVertex)
  | markCommitted (hash : Hash)
  | gc (keepRounds : U64)
deriving DecidableEq

/-- What the call returns. -/
inductive DagReply where
  | added (result : Except ConsensusError Hash)
  | marked (result : Except ConsensusError Unit)
  | collected (removed : Nat)

namespace Dag
section
variable [Blake3]

def step (d : Dag) : DagOp → DagReply × Dag
  | .addVertex v => ((d.addVertex v).map .added id)
  | .markCommitted h => ((d.markCommitted h).map .marked id)
  | .gc k => ((d.gc k).map .collected id)

theorem Consistent.step {d : Dag} (hd : d.Consistent) (op : DagOp) : (d.step op).2.Consistent := by
  cases op with
  | addVertex v => exact hd.addVertex v
  | markCommitted h => exact hd.markCommitted h
  | gc k => exact hd.gc k

theorem consistent_run (config : ConsensusConfig) (ops : List DagOp) : (final step (new config) ops).Consistent :=
  final_invariant step Consistent (fun _ op h => h.step op) (consistent_new config) ops

/-- The newest round never goes back. -/
theorem Consistent.latestRound_step {d : Dag} (hd : d.Consistent) (op : DagOp) :
    d.latestRound ≤ (d.step op).2.latestRound := by
  refine hd.latestRound_mono (hd.step op) ?_
  intro v hv hlatest
  cases op with
  | addVertex w =>
    rcases addVertex_cases d w with (⟨e, h⟩ | ⟨-, h⟩) | ⟨-, -, -, h⟩
    · simpa [Dag.step, h] using hv
    · simpa [Dag.step, h] using hv
    · simp only [Dag.step, h, Prod.map_snd, id_eq]
      exact (stored_store d w).mem_iff.mpr (List.mem_cons_of_mem _ hv)
  | markCommitted h =>
    rcases markCommitted_cases d h with ⟨e, heq⟩ | ⟨-, -, heq⟩
    · simpa [Dag.step, heq] using hv
    · simpa [Dag.step, heq, stored] using hv
  | gc k =>
    -- the newest round is never before the cutoff
    have hcut := cutoff_le_latestRound d k
    change v ∈ (d.gc k).2.stored
    rw [hd.stored_gc, List.mem_filter, decide_eq_true_iff]
    refine ⟨hv, ?_⟩
    rintro ⟨-, hlt⟩
    rw [hlatest, lt_iff_toNat] at hlt
    rw [le_iff_toNat] at hcut
    omega

/-- **Representation invariant.** After any run the four collections are consistent; and in every call of
it the newest round does not go back, a refused or repeated vertex changes nothing, and a collection drops
the committed vertices of the rounds before its cutoff, no others, and returns their number. -/
theorem dag_representation (config : ConsensusConfig) (ops : List DagOp) :
    (final step (new config) ops).Consistent ∧
      ∀ c ∈ trace step (new config) ops,
        c.before.latestRound ≤ c.after.latestRound ∧
        (∀ v, c.input = .addVertex v →
          ((∃ e, c.result = .added (.error e)) ∨ c.before.contains v.hash = true) → c.after = c.before) ∧
        (∀ k, c.input = .gc k →
          c.after.stored = c.before.stored.filter (fun v => ¬ c.before.Collectable k v) ∧
          c.result = .collected (c.before.stored.countP fun v => c.before.Collectable k v)) := by
  refine ⟨consistent_run config ops, ?_⟩
  intro c hc
  have hbefore : c.before.Consistent :=
    trace_invariant step Consistent (fun _ op h => h.step op) (consistent_new config) ops c hc
  have hstep := trace_step step (new config) ops c hc
  have hafter : (c.before.step c.input).2 = c.after := by rw [hstep]
  have hresult : (c.before.step c.input).1 = c.result := by rw [hstep]
  refine ⟨hafter ▸ hbefore.latestRound_step c.input, ?_, ?_⟩
  · rintro v hinput hrefused
    rw [hinput] at hafter hresult
    rcases addVertex_cases c.before v with (⟨e, h⟩ | ⟨-, h⟩) | ⟨-, hnew, -, h⟩
    · simpa [step, h] using hafter.symm
    · simpa [step, h] using hafter.symm
    · rcases hrefused with ⟨e, herror⟩ | hknown
      · simp [step, h, herror] at hresult
      · simp [hnew] at hknown
  · rintro k hinput
    rw [hinput] at hafter hresult
    rw [← hafter, ← hresult]
    exact ⟨hbefore.stored_gc k, congrArg DagReply.collected (hbefore.gc_removed k)⟩

end

/-! A vertex, one that supports it, and its collection. -/

section Collected
open scoped Concrete

def emptyBlock : Block where
  header :=
    { version := 1, chainId := 1, height := 1, timestamp := 0, parentHash := Hash.zero, stateRoot := Hash.zero
      txRoot := Hash.zero, receiptRoot := Hash.zero, validator := Address.zero, gasUsed := 0
      gasLimit := blockGasLimit, extraData := [] }
  transactions := []
  signatures := []

def soloConfig : ConsensusConfig := ⟨1, 1, 0, defaultBlockTimeMs, 500#64⟩

def firstVertex : DagVertex := ⟨addressOf 1, 1, emptyBlock, [], []⟩

def secondVertex : DagVertex := ⟨addressOf 1, 2, emptyBlock, [firstVertex.hash], []⟩

/-- The first vertex is stored, supported and committed. -/
def committingOps : List DagOp :=
  [.addVertex firstVertex, .addVertex secondVertex, .markCommitted firstVertex.hash]

/-- Collecting everything behind the newest round takes the committed vertex and leaves its supporter. -/
theorem dag_representation_collected :
    ∃ c ∈ trace step (new soloConfig) (committingOps ++ [.gc 0]),
      c.before.contains firstVertex.hash = true ∧ c.after.contains firstVertex.hash = false ∧
      c.after.contains secondVertex.hash = true ∧
      c.result = .collected (c.before.stored.countP fun v => c.before.Collectable 0 v) := by
  have hmem := last_mem_trace step (new soloConfig) committingOps (.gc 0)
  refine ⟨_, hmem, by decide +kernel, by decide +kernel, by decide +kernel, ?_⟩
  exact (((dag_representation soloConfig (committingOps ++ [.gc 0])).2 _ hmem).2.2 0 rfl).2

end Collected

end Dag
end Subhost
