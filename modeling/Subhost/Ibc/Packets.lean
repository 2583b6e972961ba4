import Subhost.Ibc.Module
/-!
# Packets on the sending side, and what a failed call leaves behind

* `atomic_iff_not_overflows`: a failed call changes nothing, except a `receive_packet` that passes every
  check and then finds the channel's counter at its end; that one keeps the receipt.
* `sent_resolved_at_most_once`: sequences are handed out as 1, 2, 3, …, a stored packet never changes, and a
  sequence is acknowledged or timed out at most once in all.
-/
namespace Subhost.IbcModule
open Uint Bincode Run

section
variable [TransferJson]

/-! ## Failed calls -/

/-- The call is a delivery that passes every check and has no next sequence to move to. -/
def Overflows (m : IbcModule) : IbcOp → Prop
  | .receivePacket now p => (∃ channel t, Acceptable m now p channel t) ∧ AtEnd m p
  | _ => False

omit [TransferJson] in
/-- A new receipt shows in the module. -/
theorem recordReceipt_ne {m : IbcModule} {p : IbcPacket} (next : U64)
    (h : (p.sourceChannel, p.sequence) ∉ m.receivedPackets) : recordReceipt m p next ≠ m := by
  intro heq
  apply h
  have hset : (recordReceipt m p next).receivedPackets = m.receivedPackets := by rw [heq]
  rw [← hset]
  simp [recordReceipt]

/-- A call that fails leaves the module as it was, unless it is an overflowing delivery. -/
theorem atomic_iff_not_overflows (m : IbcModule) (op : IbcOp) :
    (∀ e, (step m op).1 = .error e → (step m op).2 = m) ↔ ¬ Overflows m op := by
  have h := step_effect m op
  generalize (step m op).1 = result, (step m op).2 = after at h ⊢
  cases h with
  | refused _ unacceptable =>
    refine iff_of_true (fun _ _ => rfl) ?_
    cases op with
    | receivePacket now p => exact fun hover => unacceptable now p rfl hover.1
    | _ => exact id
  | @overflowed now p channel t hacc hend =>
    -- the one exit between the writes
    constructor
    · intro hatomic
      exact absurd (hatomic _ rfl) (recordReceipt_ne _ hacc.fresh)
    · intro hno
      exact absurd ⟨⟨channel, t, hacc⟩, hend⟩ hno
  | delivered _ room => simp [Overflows, room]
  | _ => simp [Overflows]

end

section Sample
attribute [local instance] plainJson

/-- A payload for a transfer over `sourceChannel`. -/
def samplePayload (sourceChannel : String) : Bytes :=
  match plainEncode ⟨Vector.replicate 20 1, "cosmos1receiver", "SUB", 100#128, sourceChannel⟩ with
  | .ok bs => bs
  | .error _ => []

/-- A packet from `sourceChannel` to `destinationChannel`, both on port `transfer`. -/
def samplePacket (sequence : U64) (sourceChannel destinationChannel : String) : IbcPacket :=
  ⟨sequence, "transfer", sourceChannel, "transfer", destinationChannel, samplePayload sourceChannel, 100#64, 0#64⟩

/-- A module after `open_channel` and `set_channel_state(.., Open)`. -/
def sampleModule (ordering : ChannelOrdering) : IbcModule :=
  final step (new .default)
    [.openChannel "transfer" "transfer" "channel-9" ordering, .setChannelState "channel-0" .open]

/-- The last sequence is refused on an unordered channel, and its receipt is kept. -/
theorem last_sequence_keeps_receipt :
    (step (sampleModule .unordered) (.receivePacket 5#64 (samplePacket (maxValue 64) "channel-9" "channel-0"))).1 =
      .error .sequenceOverflow ∧
    (step (sampleModule .unordered) (.receivePacket 5#64 (samplePacket (maxValue 64) "channel-9" "channel-0"))).2 ≠
      sampleModule .unordered := by
  refine ⟨by decide +kernel, fun h => ?_⟩
  have hreceipt := congrArg (fun m => m.receivedPackets.contains ("channel-9", maxValue 64)) h
  revert hreceipt
  decide +kernel

end Sample

/-! ## The outbox -/

/-- The sequence a call sent under. -/
def sentSequence (c : IbcCall) : Option U64 :=
  match c.input, c.result with
  | .sendTransfer _ _, .ok (.sequence n) => some n
  | _, _ => none

/-- A call that acknowledged or timed out sequence `n`. -/
def resolves (n : U64) (c : IbcCall) : Bool :=
  match c.input, c.result with
  | .acknowledgePacket k, .ok _ => k = n
  | .timeoutPacket _ k, .ok _ => k = n
  | _, _ => false

@[simp] theorem sentSequence_error (m after : IbcModule) (op : IbcOp) (e : IbcError) :
    sentSequence ⟨m, op, .error e, after⟩ = none := by
  cases op <;> rfl

@[simp] theorem resolves_error (n : U64) (m after : IbcModule) (op : IbcOp) (e : IbcError) :
    resolves n ⟨m, op, .error e, after⟩ = false := by
  cases op <;> rfl

section
variable [TransferJson]

/-- All that a call can do to the sent packets, their acknowledgements and the counter. -/
theorem step_outbox (m : IbcModule) (op : IbcOp) :
    -- nothing
    ((step m op).2.sentPackets = m.sentPackets ∧ (step m op).2.nextSequenceSend = m.nextSequenceSend ∧
      (step m op).2.acknowledgedPackets = m.acknowledgedPackets ∧
      sentSequence ⟨m, op, (step m op).1, (step m op).2⟩ = none ∧
      ∀ n, resolves n ⟨m, op, (step m op).1, (step m op).2⟩ = false) ∨
    -- a packet is stored under the next sequence
    (∃ p, (step m op).2.sentPackets = m.sentPackets.insert m.nextSequenceSend p ∧
      (step m op).2.nextSequenceSend.toNat = m.nextSequenceSend.toNat + 1 ∧
      (step m op).2.acknowledgedPackets = m.acknowledgedPackets ∧
      sentSequence ⟨m, op, (step m op).1, (step m op).2⟩ = some m.nextSequenceSend ∧
      ∀ n, resolves n ⟨m, op, (step m op).1, (step m op).2⟩ = false) ∨
    -- a stored packet is resolved: acknowledged, or removed
    (∃ k p, m.sentPackets[k]? = some p ∧ k ∉ m.acknowledgedPackets ∧
      ((step m op).2.sentPackets = m.sentPackets ∧
          (step m op).2.acknowledgedPackets = m.acknowledgedPackets.insert k ∨
        (step m op).2.sentPackets = m.sentPackets.erase k ∧
          (step m op).2.acknowledgedPackets = m.acknowledgedPackets) ∧
      (step m op).2.nextSequenceSend = m.nextSequenceSend ∧
      sentSequence ⟨m, op, (step m op).1, (step m op).2⟩ = none ∧
      ∀ n, resolves n ⟨m, op, (step m op).1, (step m op).2⟩ = decide (k = n)) := by
  have h := step_effect m op
  generalize (step m op).1 = result, (step m op).2 = after at h ⊢
  cases h with
  | @sent now t channel data next _ _ _ _ _ succ =>
    exact .inr (.inl ⟨outgoing m now t channel data, by simp [succ, sentSequence, resolves]⟩)
  | @acknowledged n p stored unresolved | @timedOut _ n p stored unresolved =>
    exact .inr (.inr ⟨n, p, stored, unresolved, by simp [sentSequence, resolves]⟩)
  | refused => simp
  | _ => simp [recordReceipt, setCurrentHeight, sentSequence, resolves]

/-- Sequences that are stored have been handed out. -/
def Issued (m : IbcModule) : Prop :=
  ∀ (n : U64) (p : IbcPacket), m.sentPackets[n]? = some p → n.toNat < m.nextSequenceSend.toNat

omit [TransferJson] in
theorem issued_new (config : IbcConfig) : Issued (new config) := by
  intro n p h
  simp [new] at h

theorem issued_step (m : IbcModule) (op : IbcOp) (hm : Issued m) : Issued (step m op).2 := by
  intro n p hp
  rcases step_outbox m op with ⟨hs, hn, -⟩ | ⟨q, hs, hn, -⟩ | ⟨k, q, hk, -, hs, hn, -⟩
  · rw [hs] at hp
    rw [hn]
    exact hm n p hp
  · rw [hs] at hp
    rw [hn]
    by_cases e : m.nextSequenceSend = n
    · rw [← e]; omega
    · rw [Map.get_insert_ne _ _ e] at hp
      exact Nat.lt_succ_of_lt (hm n p hp)
  · rw [hn]
    rcases hs with ⟨hs, -⟩ | ⟨hs, -⟩
    · rw [hs] at hp
      exact hm n p hp
    · rw [hs] at hp
      by_cases e : k = n
      · exact e ▸ hm k q hk
      · rw [Map.get_erase_ne _ e] at hp
        exact hm n p hp

/-- Sequences are handed out one after the other. -/
theorem sentSequences_eq_range (m : IbcModule) (ops : List IbcOp) :
    ((trace step m ops).filterMap sentSequence).map BitVec.toNat =
      List.range' m.nextSequenceSend.toNat ((trace step m ops).filterMap sentSequence).length := by
  induction ops generalizing m with
  | nil => rfl
  | cons op ops ih =>
    have hrest := ih (step m op).2
    rw [trace, List.filterMap_cons]
    rcases step_outbox m op with ⟨-, hn, -, hsent, -⟩ | ⟨p, -, hn, -, hsent, -⟩ | ⟨k, p, -, -, -, hn, hsent, -⟩
    · rwa [hsent, ← hn]
    · rw [hn] at hrest
      simp [hsent, hrest, List.range'_succ]
    · rwa [hsent, ← hn]

/-- Sequence `n` was handed out, and holds `p` or nothing. -/
def Keeps (n : U64) (p : IbcPacket) (m : IbcModule) : Prop :=
  n.toNat < m.nextSequenceSend.toNat ∧ (m.sentPackets[n]? = some p ∨ m.sentPackets[n]? = none)

theorem keeps_step (n : U64) (p : IbcPacket) (m : IbcModule) (op : IbcOp) (h : Keeps n p m) :
    Keeps n p (step m op).2 := by
  obtain ⟨hlt, hkeep⟩ := h
  rcases step_outbox m op with ⟨hs, hn, -⟩ | ⟨q, hs, hn, -⟩ | ⟨k, q, -, -, hs, hn, -⟩
  · exact ⟨hn ▸ hlt, hs ▸ hkeep⟩
  · refine ⟨by omega, ?_⟩
    have hne : m.nextSequenceSend ≠ n := by rintro rfl; omega
    rwa [hs, Map.get_insert_ne _ _ hne]
  · refine ⟨hn ▸ hlt, ?_⟩
    rcases hs with ⟨hs, -⟩ | ⟨hs, -⟩
    · exact hs ▸ hkeep
    · by_cases e : k = n
      · subst e
        exact .inr (hs ▸ Map.get_erase_self _ _)
      · rwa [hs, Map.get_erase_ne _ e]

/-- A sequence that is neither acknowledged nor gone can still be resolved, once. -/
def resolvable (n : U64) (m : IbcModule) : Nat :=
  if n ∈ m.acknowledgedPackets ∨ (n.toNat < m.nextSequenceSend.toNat ∧ (m.sentPackets[n]?).isNone) then 0 else 1

theorem resolvable_step (n : U64) (m : IbcModule) (op : IbcOp) (hm : Issued m) :
    resolvable n (step m op).2 + (if resolves n ⟨m, op, (step m op).1, (step m op).2⟩ then 1 else 0) ≤
      resolvable n m := by
  unfold resolvable
  rcases step_outbox m op with ⟨hs, hn, ha, -, hr⟩ | ⟨q, hs, hn, ha, -, hr⟩ | ⟨k, q, hk, hack, hs, hn, -, hr⟩
  · simp [hs, hn, ha, hr]
  · rw [hs, hn, ha, hr]
    by_cases e : m.nextSequenceSend = n
    · subst e
      simp
    · have hne : n.toNat ≠ m.nextSequenceSend.toNat := fun h => e (BitVec.eq_of_toNat_eq h.symm)
      have hlt : n.toNat < m.nextSequenceSend.toNat + 1 ↔ n.toNat < m.nextSequenceSend.toNat := by omega
      simp [Map.get_insert_ne _ _ e, hlt]
  · rw [hn, hr]
    by_cases e : k = n
    · subst e
      have hbefore := hm k q hk
      rcases hs with ⟨hs, ha⟩ | ⟨hs, ha⟩ <;> simp [hs, ha, hk, hack, hbefore]
    · have hmem : n ∈ m.acknowledgedPackets.insert k ↔ n ∈ m.acknowledgedPackets := by
        simp [Std.ExtTreeSet.mem_insert, e]
      rcases hs with ⟨hs, ha⟩ | ⟨hs, ha⟩
      · simp [hs, ha, hmem, e]
      · simp [hs, ha, e, Map.get_erase_ne _ e]

/-- In every run: the sequences of successful sends are 1, 2, 3, …; a stored packet is the same whenever
it is stored; and each sequence is acknowledged or timed out at most once in all. -/
theorem sent_resolved_at_most_once (config : IbcConfig) (ops : List IbcOp) :
    (∃ k, ((trace step (new config) ops).filterMap sentSequence).map BitVec.toNat = List.range' 1 k) ∧
    (∀ (before after : List IbcOp) (n : U64) (p q : IbcPacket), ops = before ++ after →
      (final step (new config) before).sentPackets[n]? = some p →
      (final step (new config) ops).sentPackets[n]? = some q → q = p) ∧
    ∀ n, (trace step (new config) ops).countP (resolves n) ≤ 1 := by
  refine ⟨⟨_, sentSequences_eq_range (new config) ops⟩, ?_, ?_⟩
  · rintro before after n p q rfl hp hq
    have hissued := final_invariant step Issued issued_step (issued_new config) before
    have hkeeps : Keeps n p (final step (new config) before) := ⟨hissued n p hp, .inl hp⟩
    rw [final_append] at hq
    rcases (final_invariant step (Keeps n p) (keeps_step n p) hkeeps after).2 with h | h
    · exact Option.some.inj (hq.symm.trans h)
    · rw [h] at hq
      cases hq
  · intro n
    calc (trace step (new config) ops).countP (resolves n)
        ≤ resolvable n (new config) :=
          countP_trace_le step Issued issued_step _ _ (resolvable_step n) (issued_new config) ops
      _ ≤ 1 := by unfold resolvable; split <;> omega

end

end Subhost.IbcModule
