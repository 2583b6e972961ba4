import Subhost.Consensus.Dag
/-!
# Committed vertices over whole runs (subhost-consensus/src/lib.rs:213-301)

`mark_committed` asks for a quorum of supporters at the time of the call. Collection may later drop
vertices, supporters among them, but never those of a committed vertex that stays: a committed vertex
that survives is at or after the cutoff, and its supporters are one round later.

Collection forgets the vertex together with its mark. If the vertex arrives again it is stored as a new
one and can be committed again, so a hash is committed as often as it is stored, not once.
-/
namespace Subhost
open Uint Run

namespace Dag
section
variable [Blake3]

/-! ## Support -/

/-- The authors of the stored vertices of the next round that name `v` as a parent. -/
def supporters (d : Dag) (v : DagVertex) : Finset Address :=
  ((d.stored.filter fun w => w.round.toNat = v.round.toNat + 1 && w.parents.contains v.hash).map
    DagVertex.author).toFinset

theorem mem_supporters {d : Dag} {v : DagVertex} {a : Address} :
    a ∈ d.supporters v ↔
      ∃ w ∈ d.stored, (w.round.toNat = v.round.toNat + 1 ∧ v.hash ∈ w.parents) ∧ w.author = a := by
  simp only [supporters, List.mem_toFinset, List.mem_map, List.mem_filter, Bool.and_eq_true, decide_eq_true_iff,
    List.contains_iff_mem, and_assoc]

/-- Only the vertices of the next round matter for support. -/
theorem supporters_subset {d d' : Dag} {v : DagVertex}
    (h : ∀ w ∈ d.stored, w.round.toNat = v.round.toNat + 1 → w ∈ d'.stored) : d.supporters v ⊆ d'.supporters v := by
  intro a ha
  obtain ⟨w, hw, hnext, hauthor⟩ := mem_supporters.mp ha
  exact mem_supporters.mpr ⟨w, h w hw hnext.1, hnext, hauthor⟩

theorem Consistent.supportFor_of_not_contains {d : Dag} (hd : d.Consistent) {h : Hash}
    (hh : h ∉ d.stored.map DagVertex.hash) : d.supportFor h = 0 := by
  have hnone : d.vertexRound h = none := (hd.index.get_eq_none_iff h).mpr hh
  rw [supportFor, hnone]

/-- **What `support_for` counts** for a stored vertex. -/
theorem Consistent.supportFor_eq {d : Dag} (hd : d.Consistent) {v : DagVertex} (hv : v ∈ d.stored) :
    d.supportFor v.hash = (d.supporters v).card := by
  have hround : d.vertexRound v.hash = some v.round := hd.index.get hv
  simp only [supportFor, hround]
  cases hnext : checkedAdd v.round 1#64 with
  | none =>
    -- no round follows `u64::MAX`, so nothing stored is of the next round
    have hmax : 2 ^ 64 ≤ v.round.toNat + 1 := checkedAdd_eq_none.mp hnext
    have hempty : d.supporters v = ∅ := by
      rw [Finset.eq_empty_iff_forall_notMem]
      intro a ha
      obtain ⟨w, -, ⟨hw, -⟩, -⟩ := mem_supporters.mp ha
      have := w.round.isLt
      omega
    simp only [hempty, Finset.card_empty]
  | some next =>
    have hval : next.toNat = v.round.toNat + 1 := checkedAdd_eq_some.mp hnext
    have hsupporters : d.supporters v =
        (((d.getRound next).filter fun w => w.parents.contains v.hash).map DagVertex.author).toFinset := by
      ext a
      have hiff : ∀ w : DagVertex, w.round = next ↔ w.round.toNat = v.round.toNat + 1 := by
        intro w
        rw [← hval, BitVec.toNat_inj]
      simp only [mem_supporters, List.mem_toFinset, List.mem_map, List.mem_filter, hd.mem_getRound_iff,
        List.contains_iff_mem, hiff, and_assoc]
    rw [hsupporters, getRound]
    cases hget : d.vertices[next]? with
    | none => simp [hget]
    | some vertices => simp [hget]

/-! ## Commits stay justified -/

/-- Every committed hash is that of a stored vertex with a quorum of supporters. -/
def Justified (d : Dag) : Prop :=
  ∀ h ∈ d.committed, ∃ v ∈ d.stored, v.hash = h ∧ d.config.quorumThreshold ≤ (d.supporters v).card

theorem Justified.store {d : Dag} (hj : d.Justified) (v : DagVertex) : (d.store v).Justified := by
  have hkeep : ∀ w ∈ d.stored, w ∈ (d.store v).stored := fun w hw =>
    (stored_store d v).mem_iff.mpr (List.mem_cons_of_mem _ hw)
  intro h hh
  obtain ⟨w, hw, hhash, hquorum⟩ := hj h hh
  exact ⟨w, hkeep w hw, hhash, hquorum.trans (Finset.card_le_card (supporters_subset fun u hu _ => hkeep u hu))⟩

theorem Justified.mark {d : Dag} (hd : d.Consistent) (hj : d.Justified) {h : Hash} (hknown : d.contains h = true)
    (hquorum : d.config.quorumThreshold ≤ d.supportFor h) :
    Justified { d with committed := d.committed.insert h } := by
  intro h' hh'
  rcases Std.ExtTreeSet.mem_insert.mp hh' with e | hmem
  · obtain ⟨v, hv, rfl⟩ := List.mem_map.mp ((hd.contains_iff h).mp hknown)
    rw [hd.supportFor_eq hv] at hquorum
    exact ⟨v, hv, (Map.compare_eq_iff _ _).mp e, hquorum⟩
  · exact hj h' hmem

theorem Justified.gc {d : Dag} (hd : d.Consistent) (hj : d.Justified) (keepRounds : U64) :
    (d.gc keepRounds).2.Justified := by
  intro h hh
  obtain ⟨hcommitted, hlive⟩ := mem_committed_gc.mp hh
  obtain ⟨v, hv, rfl, hquorum⟩ := hj h hcommitted
  have hstays := (hd.live_iff keepRounds hv).mp hlive
  -- a committed vertex that stays is not before the cutoff, so its supporters are after it
  have hcut : ¬ v.round < d.cutoff keepRounds := fun hlt => hstays ⟨hcommitted, hlt⟩
  rw [lt_iff_toNat] at hcut
  have hkeep : ∀ w ∈ d.stored, w.round.toNat = v.round.toNat + 1 → w ∈ (d.gc keepRounds).2.stored := by
    intro w hw hnext
    rw [hd.stored_gc, List.mem_filter, decide_eq_true_iff]
    refine ⟨hw, ?_⟩
    rintro ⟨-, hlt⟩
    rw [lt_iff_toNat] at hlt
    omega
  have hv' : v ∈ (d.gc keepRounds).2.stored := by
    rw [hd.stored_gc, List.mem_filter, decide_eq_true_iff]
    exact ⟨hv, hstays⟩
  exact ⟨v, hv', rfl, hquorum.trans (Finset.card_le_card (supporters_subset hkeep))⟩

theorem Justified.step {d : Dag} (hd : d.Consistent) (hj : d.Justified) (op : DagOp) : (d.step op).2.Justified := by
  cases op with
  | addVertex v =>
    change (d.addVertex v).2.Justified
    rcases addVertex_cases d v with (⟨e, h⟩ | ⟨-, h⟩) | ⟨-, -, -, h⟩
    · rwa [h]
    · rwa [h]
    · rw [h]
      exact hj.store v
  | markCommitted h =>
    change (d.markCommitted h).2.Justified
    rcases markCommitted_cases d h with ⟨e, heq⟩ | ⟨hknown, hquorum, heq⟩
    · rwa [heq]
    · rw [heq]
      exact hj.mark hd hknown hquorum
  | gc k => exact hj.gc hd k

omit [Blake3] in
theorem config_markCommitted (d : Dag) (h : Hash) : (d.markCommitted h).2.config = d.config := by
  rcases markCommitted_cases d h with ⟨e, heq⟩ | ⟨-, -, heq⟩
  · rw [heq]
  · rw [heq]

theorem config_step (d : Dag) (op : DagOp) : (d.step op).2.config = d.config := by
  cases op with
  | addVertex v =>
    change (d.addVertex v).2.config = d.config
    rcases addVertex_cases d v with (⟨e, h⟩ | ⟨-, h⟩) | ⟨-, -, -, h⟩
    · rw [h]
    · rw [h]
    · rw [h, store]
  | markCommitted h => exact config_markCommitted d h
  | gc k => rfl

theorem config_run (config : ConsensusConfig) (ops : List DagOp) : (final step (new config) ops).config = config :=
  final_invariant step (fun d => d.config = config) (fun d op h => (config_step d op).trans h) rfl ops

/-- **Commits stay justified.** After any run, every committed hash is that of a stored vertex which stored
vertices of the next round, from at least `quorum_threshold` distinct authors, name as a parent. -/
theorem commits_justified (config : ConsensusConfig) (ops : List DagOp) (h : Hash)
    (hh : h ∈ (final step (new config) ops).committed) :
    ∃ v ∈ (final step (new config) ops).stored, v.hash = h ∧
      config.quorumThreshold ≤ ((final step (new config) ops).supporters v).card := by
  have hinv : (final step (new config) ops).Consistent ∧ (final step (new config) ops).Justified := by
    refine final_invariant step (fun d => d.Consistent ∧ d.Justified) ?_ ?_ ops
    · rintro d op ⟨hd, hj⟩
      exact ⟨hd.step op, hj.step hd op⟩
    · refine ⟨consistent_new config, ?_⟩
      intro h hh
      simp [new] at hh
  obtain ⟨v, hv, hhash, hquorum⟩ := hinv.2 h hh
  rw [config_run] at hquorum
  exact ⟨v, hv, hhash, hquorum⟩

end

section Supported
open scoped Concrete

/-- The first vertex is committed, and the second one is what justifies it. -/
theorem commits_justified_first :
    firstVertex.hash ∈ (final step (new soloConfig) committingOps).committed ∧
      ∃ v ∈ (final step (new soloConfig) committingOps).stored, v.hash = firstVertex.hash ∧
        1 ≤ ((final step (new soloConfig) committingOps).supporters v).card := by
  have hcommitted : firstVertex.hash ∈ (final step (new soloConfig) committingOps).committed := by decide +kernel
  exact ⟨hcommitted, commits_justified soloConfig committingOps firstVertex.hash hcommitted⟩

end Supported

/-! ## How often a vertex is committed -/

section
variable [Blake3]

/-- The call puts `h` into the committed set. -/
def Enters (h : Hash) (c : Call Dag DagOp DagReply) : Bool := !c.before.isCommitted h && c.after.isCommitted h

/-- The call is a collection that takes the committed vertex `h`. -/
def Collects (h : Hash) (c : Call Dag DagOp DagReply) : Bool :=
  match c.input with
  | .gc _ => c.before.isCommitted h && !c.after.contains h
  | _ => false

/-- The call stores a vertex of hash `h` that was not known. -/
def Stores (h : Hash) (c : Call Dag DagOp DagReply) : Bool :=
  match c.input with
  | .addVertex v => v.hash = h && !c.before.contains h && c.after.contains h
  | _ => false

omit [Blake3] in
theorem isCommitted_iff (d : Dag) (h : Hash) : d.isCommitted h = true ↔ h ∈ d.committed :=
  Std.ExtTreeSet.mem_iff_contains.symm

theorem Consistent.contains_of_isCommitted {d : Dag} (hd : d.Consistent) {h : Hash} (hh : d.isCommitted h = true) :
    d.contains h = true :=
  (hd.contains_iff h).mpr (hd.committed h ((isCommitted_iff d h).mp hh))

/-- A mark is lost in a collection only, and together with the vertex. -/
theorem Consistent.leaves_iff {d : Dag} (hd : d.Consistent) (h : Hash) (op : DagOp) :
    (d.isCommitted h && !(d.step op).2.isCommitted h) = Collects h ⟨d, op, (d.step op).1, (d.step op).2⟩ := by
  cases op with
  | addVertex v =>
    have hsame : (d.step (.addVertex v)).2.isCommitted h = d.isCommitted h := by
      change (d.addVertex v).2.isCommitted h = d.isCommitted h
      rcases addVertex_cases d v with (⟨e, heq⟩ | ⟨-, heq⟩) | ⟨-, -, -, heq⟩
      · rw [heq]
      · rw [heq]
      · rw [heq, isCommitted, Dag.store, isCommitted]
    rw [hsame, Bool.and_not_self]
    rfl
  | markCommitted h' =>
    have hkeep : d.isCommitted h = true → (d.step (.markCommitted h')).2.isCommitted h = true := by
      intro hh
      change (d.markCommitted h').2.isCommitted h = true
      rcases markCommitted_cases d h' with ⟨e, heq⟩ | ⟨-, -, heq⟩
      · rwa [heq]
      · rw [heq, isCommitted_iff]
        exact Std.ExtTreeSet.mem_insert.mpr (.inr ((isCommitted_iff d h).mp hh))
    cases hh : d.isCommitted h with
    | false => rfl
    | true =>
      rw [hkeep hh]
      rfl
  | gc k =>
    change (d.isCommitted h && !(d.gc k).2.isCommitted h) = (d.isCommitted h && !(d.gc k).2.contains h)
    cases hh : d.isCommitted h with
    | false => rfl
    | true =>
      have hiff : (d.gc k).2.isCommitted h = true ↔ (d.gc k).2.contains h = true := by
        rw [isCommitted_iff, mem_committed_gc, (hd.gc k).contains_iff]
        simp only [(isCommitted_iff d h).mp hh, true_and]
      rw [Bool.eq_iff_iff.mpr hiff]

/-- A hash becomes known only by storing a vertex of that hash. -/
theorem Consistent.becomes_known {d : Dag} (hd : d.Consistent) (h : Hash) (op : DagOp) :
    (!d.contains h && (d.step op).2.contains h) = Stores h ⟨d, op, (d.step op).1, (d.step op).2⟩ := by
  cases op with
  | addVertex v =>
    change (!d.contains h && (d.addVertex v).2.contains h) =
      (decide (v.hash = h) && !d.contains h && (d.addVertex v).2.contains h)
    rcases addVertex_cases d v with (⟨e, heq⟩ | ⟨-, heq⟩) | ⟨-, -, -, heq⟩
    · simp [heq]
    · simp [heq]
    · rw [heq]
      by_cases e : v.hash = h
      · simp [e]
      · have hsame : (d.store v).contains h = d.contains h := by
          rw [contains, Dag.store, Std.ExtTreeMap.contains_eq_isSome_getElem?, Map.get_insert_ne _ _ e,
            ← Std.ExtTreeMap.contains_eq_isSome_getElem?, contains]
        simp [hsame]
  | markCommitted h' =>
    have hsame : (d.step (.markCommitted h')).2.contains h = d.contains h := by
      change (d.markCommitted h').2.contains h = d.contains h
      rcases markCommitted_cases d h' with ⟨e, heq⟩ | ⟨-, -, heq⟩
      · rw [heq]
      · rw [heq, contains, contains]
    rw [hsame, Bool.not_and_self]
    rfl
  | gc k =>
    have hshrinks : (d.gc k).2.contains h = true → d.contains h = true := by
      rw [(hd.gc k).contains_iff, hd.contains_iff, hd.stored_gc]
      exact fun hmem => (List.filter_sublist.map _).subset hmem
    change (!d.contains h && (d.gc k).2.contains h) = false
    cases hh : (d.gc k).2.contains h with
    | false => exact Bool.and_false _
    | true =>
      rw [hshrinks hh]
      rfl

/-- **How often a vertex is committed.** Over any run a hash enters the committed set once for every
collection that took it from there, and once more if it is in it at the end; and at most as often as a
vertex of that hash was stored. -/
theorem commits_count (config : ConsensusConfig) (ops : List DagOp) (h : Hash) :
    (trace step (new config) ops).countP (Enters h) =
        (trace step (new config) ops).countP (Collects h) +
          ((final step (new config) ops).isCommitted h).toNat ∧
      (trace step (new config) ops).countP (Enters h) ≤ (trace step (new config) ops).countP (Stores h) := by
  have hbefore := trace_invariant step Consistent (fun _ op hd => hd.step op) (consistent_new config) ops
  have hrecord := trace_step step (new config) ops
  have hcall : ∀ c ∈ trace step (new config) ops,
      c = ⟨c.before, c.input, (c.before.step c.input).1, (c.before.step c.input).2⟩ := by
    intro c hc
    rw [hrecord c hc]
  have hleaves : (trace step (new config) ops).countP (fun c => c.before.isCommitted h && !c.after.isCommitted h) =
      (trace step (new config) ops).countP (Collects h) := by
    apply List.countP_congr
    intro c hc
    rw [hcall c hc, (hbefore c hc).leaves_iff h]
  have hstores : (trace step (new config) ops).countP (fun c => !c.before.contains h && c.after.contains h) =
      (trace step (new config) ops).countP (Stores h) := by
    apply List.countP_congr
    intro c hc
    rw [hcall c hc, (hbefore c hc).becomes_known h]
  -- a collection that takes the mark takes the vertex
  have hdrops : (trace step (new config) ops).countP (Collects h) ≤
      (trace step (new config) ops).countP (fun c => c.before.contains h && !c.after.contains h) := by
    apply List.countP_mono_left
    intro c hc hcollects
    unfold Collects at hcollects
    split at hcollects
    · rw [Bool.and_eq_true] at hcollects
      rw [Bool.and_eq_true]
      exact ⟨(hbefore c hc).contains_of_isCommitted hcollects.1, hcollects.2⟩
    · cases hcollects
  have hcommits := countP_turns step (fun d => d.isCommitted h) (new config) ops
  have hknown := countP_turns step (fun d => d.contains h) (new config) ops
  have hend : ((final step (new config) ops).isCommitted h).toNat ≤ ((final step (new config) ops).contains h).toNat :=
    Bool.toNat_le_toNat fun hh => (consistent_run config ops).contains_of_isCommitted hh
  have hstart : ((new config).isCommitted h).toNat = 0 := by simp [new, isCommitted]
  have hstart' : ((new config).contains h).toNat = 0 := by simp [new, contains]
  have henters : (trace step (new config) ops).countP (Enters h) =
      (trace step (new config) ops).countP (fun c => !c.before.isCommitted h && c.after.isCommitted h) := rfl
  omega

end

section Forgotten
open scoped Concrete

/-- Collected and delivered again, the first vertex is committed a second time. -/
theorem committed_twice :
    (trace step (new soloConfig)
      (committingOps ++ [.gc 0, .addVertex firstVertex, .markCommitted firstVertex.hash])).countP
        (Enters firstVertex.hash) = 2 := by
  decide +kernel

end Forgotten
end Dag
end Subhost
