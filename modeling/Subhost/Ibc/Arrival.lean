import Subhost.Ibc.Channels
import Subhost.Lib.Sequence
/-!
# Order of arrival on an unordered channel

An unordered channel checks no sequence, but moves its counter to `max(next, sequence) + 1` with every packet
it accepts (lib.rs:336). The counter, and near its end the acceptance of packets, therefore depend on the
order of arrival: `arrival_insensitive_iff` says for which packets they do not.
-/
namespace Subhost.IbcModule
open Uint Bincode Run

/-- The last value of a sequence counter, `u64::MAX`. -/
def lastSequence : Nat := 2 ^ 64 - 1

section
variable [TransferJson]

/-- One arrival: a packet, and the clock at that moment. -/
def arrive (m : IbcModule) (x : Timestamp × IbcPacket) : Except IbcError IbcTransfer × IbcModule :=
  receivePacket m x.1 x.2

/-- The packets a list of arrivals delivers. -/
def deliveredBy (m : IbcModule) (xs : List (Timestamp × IbcPacket)) : List IbcPacket :=
  (trace arrive m xs).filterMap fun c => if c.result.toOption.isSome then some c.input.2 else none

/-- A valid, unexpired packet for the unordered channel `d`: it passes every check at some time. -/
def Receivable (m : IbcModule) (d : String) (p : IbcPacket) : Prop :=
  p.destinationChannel = d ∧ ∃ now channel t, Acceptable m now p channel t ∧ channel.ordering = .unordered

/-- The packets can arrive in any order, each at any time before it expires: the same ones are accepted, and
the module ends the same. -/
def ArrivalInsensitive (m : IbcModule) (packets : List IbcPacket) : Prop :=
  ∀ xs ys : List (Timestamp × IbcPacket), (xs.map (·.2)).Perm packets → (ys.map (·.2)).Perm packets →
    (∀ x ∈ xs, expired m.currentHeight x.1 x.2 = false) → (∀ y ∈ ys, expired m.currentHeight y.1 y.2 = false) →
    (∀ p, p ∈ deliveredBy m xs ↔ p ∈ deliveredBy m ys) ∧ final arrive m xs = final arrive m ys

/-! ## One arrival -/

variable {m : IbcModule} {d : String}

/-- A receivable packet can arrive at any time before it expires. -/
theorem Receivable.acceptable {p : IbcPacket} (h : Receivable m d p) {now : Timestamp}
    (hlive : expired m.currentHeight now p = false) :
    ∃ channel t, Acceptable m now p channel t ∧ channel.ordering = .unordered := by
  obtain ⟨-, _, channel, t, hacc, hordering⟩ := h
  exact ⟨channel, t, { hacc with live := hlive }, hordering⟩

/-- A packet stays receivable when one with another sequence is recorded. -/
theorem Receivable.recordReceipt {p q : IbcPacket} (h : Receivable m d q) (hne : p.sequence ≠ q.sequence)
    (next : U64) : Receivable (recordReceipt m p next) d q := by
  obtain ⟨hdest, now, channel, t, hacc, hordering⟩ := h
  refine ⟨hdest, now, channel, t, { hacc with fresh := ?_, inOrder := ?_ }, hordering⟩
  · intro hmem
    rw [mem_recordReceipt, Prod.mk.injEq] at hmem
    rcases hmem with ⟨-, heq⟩ | hmem
    · exact hne heq.symm
    · exact hacc.fresh hmem
  · intro hordered
    rw [hordering] at hordered
    cases hordered

/-- A receivable packet leaves its receipt, and moves the counter if it can be moved. -/
theorem arrive_cases {x : Timestamp × IbcPacket} (h : Receivable m d x.2)
    (hlive : expired m.currentHeight x.1 x.2 = false) :
    (max (m.expectedRecvSequence d).toNat x.2.sequence.toNat < lastSequence ∧ ∃ t next,
      next.toNat = max (m.expectedRecvSequence d).toNat x.2.sequence.toNat + 1 ∧
      arrive m x = (.ok t, recordReceipt m x.2 next)) ∨
    (¬ max (m.expectedRecvSequence d).toNat x.2.sequence.toNat < lastSequence ∧
      arrive m x = (.error .sequenceOverflow, recordReceipt m x.2 (m.expectedRecvSequence d))) := by
  obtain ⟨channel, t, hacc, -⟩ := h.acceptable hlive
  obtain ⟨rfl, -⟩ := h
  unfold arrive lastSequence
  rcases receivePacket_cases m x.1 x.2 with ⟨hno, -⟩ | ⟨_, _, _, hend, hr⟩ | ⟨_, t', next, _, hend, hnext, hr⟩
  · exact absurd ⟨channel, t, hacc⟩ hno
  · unfold AtEnd at hend
    exact .inr ⟨by omega, hr⟩
  · unfold AtEnd at hend
    exact .inl ⟨by omega, t', next, hnext, hr⟩

/-! ## Arrivals -/

/-- What the arrival of `packets` on channel `d` leaves. -/
structure Arrived (m : IbcModule) (d : String) (packets : List IbcPacket) (m' : IbcModule) : Prop where
  frame : m' = { m with receivedPackets := m'.receivedPackets, nextSequenceRecv := m'.nextSequenceRecv }
  receipts : ∀ key, key ∈ m'.receivedPackets ↔
    key ∈ m.receivedPackets ∨ ∃ p ∈ packets, key = (p.sourceChannel, p.sequence)
  counters : m'.nextSequenceRecv =
    if packets = [] then m.nextSequenceRecv else m.nextSequenceRecv.insert d (m'.expectedRecvSequence d)

omit [TransferJson] in
theorem Arrived.cons {p : IbcPacket} {next : U64} {packets : List IbcPacket} {m' : IbcModule}
    (h : Arrived (recordReceipt m p next) d packets m') (hp : p.destinationChannel = d) :
    Arrived m d (p :: packets) m' where
  frame := h.frame
  receipts key := by
    rw [h.receipts, mem_recordReceipt]
    simp [or_left_comm, or_assoc]
  counters := by
    have hcounters := h.counters
    simp only [recordReceipt, hp] at hcounters
    by_cases hnil : packets = []
    · have hexpected : m'.expectedRecvSequence d = next := by simp [expectedRecvSequence, hcounters, hnil]
      simp [hcounters, hnil, hexpected]
    · simp [hcounters, hnil, Map.insert_insert]

theorem deliveredBy_cons (m : IbcModule) (x : Timestamp × IbcPacket) (xs : List (Timestamp × IbcPacket)) :
    deliveredBy m (x :: xs) =
      (if (arrive m x).1.toOption.isSome then [x.2] else []) ++ deliveredBy (arrive m x).2 xs := by
  by_cases h : (arrive m x).1.toOption.isSome <;> simp [deliveredBy, trace, h]

/-- A list of arrivals is the run of the counter over their packets. -/
theorem arrivals (xs : List (Timestamp × IbcPacket)) (hrec : ∀ x ∈ xs, Receivable m d x.2)
    (hlive : ∀ x ∈ xs, expired m.currentHeight x.1 x.2 = false) (hdistinct : (xs.map (·.2.sequence)).Nodup) :
    Arrived m d (xs.map (·.2)) (final arrive m xs) ∧
    deliveredBy m xs =
      Sequence.taken lastSequence (·.sequence.toNat) (m.expectedRecvSequence d).toNat (xs.map (·.2)) ∧
    ((final arrive m xs).expectedRecvSequence d).toNat =
      Sequence.counter lastSequence (·.sequence.toNat) (m.expectedRecvSequence d).toNat (xs.map (·.2)) := by
  induction xs generalizing m with
  | nil => exact ⟨⟨rfl, by simp [final], by simp [final]⟩, rfl, rfl⟩
  | cons x xs ih =>
    rw [List.forall_mem_cons] at hrec hlive
    rw [List.map_cons, List.nodup_cons] at hdistinct
    have hdest := hrec.1.1
    -- the rest arrives at the module with the receipt of `x`
    have hrest := fun next => ih (m := recordReceipt m x.2 next)
      (fun y hy => (hrec.2 y hy).recordReceipt
        (fun heq => hdistinct.1 (List.mem_map.mpr ⟨y, hy, heq.symm⟩)) next) hlive.2 hdistinct.2
    simp only [expected_recordReceipt, if_pos hdest] at hrest
    rcases arrive_cases hrec.1 hlive.1 with ⟨hroom, t, next, hnext, hx⟩ | ⟨hfull, hx⟩
    · obtain ⟨harrived, hdelivered, hcounter⟩ := hrest next
      rw [hnext] at hdelivered hcounter
      refine ⟨?_, ?_, ?_⟩
      · simpa [final, hx] using harrived.cons hdest
      · simp [deliveredBy_cons, hx, Except.toOption, hdelivered, Sequence.taken, hroom]
      · simp [final, hx, hcounter, Sequence.counter, hroom]
    · obtain ⟨harrived, hdelivered, hcounter⟩ := hrest (m.expectedRecvSequence d)
      refine ⟨?_, ?_, ?_⟩
      · simpa [final, hx] using harrived.cons hdest
      · simp [deliveredBy_cons, hx, Except.toOption, hdelivered, Sequence.taken, hfull]
      · simp [final, hx, hcounter, Sequence.counter, hfull]

omit [TransferJson] in
/-- The same packets leave the same module, but for the channel's counter. -/
theorem Arrived.eq_of_perm {ps qs : List IbcPacket} {m₁ m₂ : IbcModule} (h₁ : Arrived m d ps m₁)
    (h₂ : Arrived m d qs m₂) (hperm : ps.Perm qs)
    (hcounter : m₁.expectedRecvSequence d = m₂.expectedRecvSequence d) : m₁ = m₂ := by
  have hreceipts : m₁.receivedPackets = m₂.receivedPackets := by
    apply Std.ExtTreeSet.ext_mem
    intro key
    simp [h₁.receipts, h₂.receipts, hperm.mem_iff]
  have hcounters : m₁.nextSequenceRecv = m₂.nextSequenceRecv := by
    have hnil : ps = [] ↔ qs = [] := by rw [← List.length_eq_zero_iff, hperm.length_eq, List.length_eq_zero_iff]
    simp only [h₁.counters, h₂.counters, hcounter, hnil]
  rw [h₁.frame, h₂.frame, hreceipts, hcounters]

theorem exists_times {packets : List IbcPacket} (hrec : ∀ p ∈ packets, Receivable m d p) :
    ∃ time : IbcPacket → Timestamp, ∀ p ∈ packets, expired m.currentHeight (time p) p = false := by
  have htime : ∀ p : IbcPacket, ∃ now, p ∈ packets → expired m.currentHeight now p = false := by
    intro p
    by_cases hp : p ∈ packets
    · obtain ⟨-, now, _, _, hacc, -⟩ := hrec p hp
      exact ⟨now, fun _ => hacc.live⟩
    · exact ⟨0#64, fun h => absurd h hp⟩
  choose time hlive using htime
  exact ⟨time, hlive⟩

/-- For valid packets with distinct sequences on an unordered channel, the order of arrival does not matter
exactly when at most one of them is not the last sequence, or the channel's counter is at its end, or the counter
is past all of them and has room for all of them. -/
theorem arrival_insensitive_iff (m : IbcModule) (d : String) (packets : List IbcPacket)
    (hrec : ∀ p ∈ packets, Receivable m d p) (hdistinct : (packets.map (·.sequence)).Nodup) :
    ArrivalInsensitive m packets ↔
      (packets.filter (·.sequence.toNat < lastSequence)).length ≤ 1 ∨
      (m.expectedRecvSequence d).toNat = lastSequence ∨
      ((∀ p ∈ packets, p.sequence.toNat < lastSequence → p.sequence.toNat ≤ (m.expectedRecvSequence d).toNat) ∧
        (m.expectedRecvSequence d).toNat + (packets.filter (·.sequence.toNat < lastSequence)).length ≤
          lastSequence) := by
  have hbound : (m.expectedRecvSequence d).toNat ≤ lastSequence := by
    have := (m.expectedRecvSequence d).isLt
    unfold lastSequence
    omega
  have hnumbers : (packets.map (·.sequence.toNat)).Nodup := by
    have := hdistinct.map (f := BitVec.toNat) fun _ _ => BitVec.eq_of_toNat_eq
    rwa [List.map_map] at this
  rw [← Sequence.order_insensitive_iff hbound packets hnumbers]
  -- a schedule of the packets is an order of them
  have hrun : ∀ xs : List (Timestamp × IbcPacket), (xs.map (·.2)).Perm packets →
      (∀ x ∈ xs, expired m.currentHeight x.1 x.2 = false) → _ := fun xs hperm hlive =>
    arrivals (m := m) (d := d) xs (fun x hx => hrec x.2 (hperm.mem_iff.mp (List.mem_map_of_mem hx))) hlive
      (by simpa [Function.comp_def] using (hperm.map (·.sequence)).nodup_iff.mpr hdistinct)
  constructor
  · intro h l₁ l₂ h₁ h₂
    -- each packet arrives at the time it was valid at
    obtain ⟨time, hlive⟩ := exists_times hrec
    have hschedule : ∀ l : List IbcPacket, l.Perm packets →
        ((l.map fun p => (time p, p)).map (·.2) = l) ∧
        ∀ x ∈ l.map fun p => (time p, p), expired m.currentHeight x.1 x.2 = false := by
      intro l hl
      refine ⟨by simp [Function.comp_def], fun x hx => ?_⟩
      obtain ⟨p, hp, rfl⟩ := List.mem_map.mp hx
      exact hlive p (hl.mem_iff.mp hp)
    obtain ⟨hm₁, hl₁⟩ := hschedule l₁ h₁
    obtain ⟨hm₂, hl₂⟩ := hschedule l₂ h₂
    obtain ⟨hsame, hfinal⟩ := h _ _ (hm₁.symm ▸ h₁) (hm₂.symm ▸ h₂) hl₁ hl₂
    obtain ⟨-, hd₁, hc₁⟩ := hrun _ (hm₁.symm ▸ h₁) hl₁
    obtain ⟨-, hd₂, hc₂⟩ := hrun _ (hm₂.symm ▸ h₂) hl₂
    rw [hm₁] at hd₁ hc₁
    rw [hm₂] at hd₂ hc₂
    refine ⟨fun p => by rw [← hd₁, ← hd₂]; exact hsame p, ?_⟩
    rw [← hc₁, ← hc₂, hfinal]
  · intro h xs ys hxs hys hlx hly
    obtain ⟨hx, hxd, hxc⟩ := hrun xs hxs hlx
    obtain ⟨hy, hyd, hyc⟩ := hrun ys hys hly
    obtain ⟨hsame, hcounter⟩ := h _ _ hxs hys
    refine ⟨fun p => by rw [hxd, hyd]; exact hsame p, hx.eq_of_perm hy (hxs.trans hys.symm) ?_⟩
    exact BitVec.eq_of_toNat_eq (hxc.trans (hcounter.trans hyc.symm))

/-- A packet that passes the checks is receivable on its unordered channel. -/
theorem receivable_of_check {now : Timestamp} {p : IbcPacket} {t : IbcTransfer} {channel : IbcChannel}
    (hcheck : checkPacket m now p = .ok t) (hchannel : m.channels[p.destinationChannel]? = some channel)
    (hordering : channel.ordering = .unordered) : Receivable m p.destinationChannel p := by
  obtain ⟨found, hacc⟩ := checkPacket_eq_ok.mp hcheck
  obtain rfl : found = channel := Option.some.inj (hacc.found.symm.trans hchannel)
  exact ⟨rfl, now, found, t, hacc, hordering⟩

end

section Sample
attribute [local instance] plainJson

/-- An open unordered channel that has received sequence 5. -/
def sampleReceiver : IbcModule :=
  final step (sampleModule .unordered) [.receivePacket 5#64 (samplePacket 5#64 "channel-9" "channel-0")]

/-- Sequences 2 and 3 may come in any order after sequence 5. -/
theorem arrival_insensitive_sample :
    ArrivalInsensitive sampleReceiver
      [samplePacket 2#64 "channel-9" "channel-0", samplePacket 3#64 "channel-9" "channel-0"] := by
  refine (arrival_insensitive_iff sampleReceiver "channel-0" _ ?_ (by decide +kernel)).mpr (by decide +kernel)
  have hchannel : sampleReceiver.channels["channel-0"]? =
      some ⟨"channel-0", "transfer", .open, .unordered, "channel-9", "transfer"⟩ := by decide +kernel
  have hreceivable : ∀ n : U64,
      checkPacket sampleReceiver 5#64 (samplePacket n "channel-9" "channel-0") =
        .ok ⟨Vector.replicate 20 1, "cosmos1receiver", "SUB", 100#128, "channel-9"⟩ →
      Receivable sampleReceiver "channel-0" (samplePacket n "channel-9" "channel-0") := fun n hcheck =>
    receivable_of_check hcheck hchannel rfl
  rw [List.forall_mem_cons, List.forall_mem_singleton]
  exact ⟨hreceivable 2#64 (by decide +kernel), hreceivable 3#64 (by decide +kernel)⟩

/-- Sequences 5 and 2 are accepted in both orders, and leave the channel expecting 7 or 6. -/
theorem arrival_order_shows :
    deliveredBy (sampleModule .unordered)
        [(5#64, samplePacket 5#64 "channel-9" "channel-0"), (5#64, samplePacket 2#64 "channel-9" "channel-0")] =
      [samplePacket 5#64 "channel-9" "channel-0", samplePacket 2#64 "channel-9" "channel-0"] ∧
    deliveredBy (sampleModule .unordered)
        [(5#64, samplePacket 2#64 "channel-9" "channel-0"), (5#64, samplePacket 5#64 "channel-9" "channel-0")] =
      [samplePacket 2#64 "channel-9" "channel-0", samplePacket 5#64 "channel-9" "channel-0"] ∧
    (final arrive (sampleModule .unordered) [(5#64, samplePacket 5#64 "channel-9" "channel-0"),
      (5#64, samplePacket 2#64 "channel-9" "channel-0")]).expectedRecvSequence "channel-0" = 7#64 ∧
    (final arrive (sampleModule .unordered) [(5#64, samplePacket 2#64 "channel-9" "channel-0"),
      (5#64, samplePacket 5#64 "channel-9" "channel-0")]).expectedRecvSequence "channel-0" = 6#64 := by
  decide +kernel

end Sample

end Subhost.IbcModule
