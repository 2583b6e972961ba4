import Subhost.Ibc.Channels
import Subhost.Lib.Sequence
/-!
# Two ends of a channel

What one module sends over a channel is delivered to a module that holds the mirrored channel. The
sending side numbers the packets of all its channels with one counter (lib.rs:239), an ordered receiving
side expects 1, 2, 3, … on each channel (lib.rs:319-323): they agree exactly as long as the sender uses no
other channel in between (`ordered_delivery_iff`).
-/
namespace Subhost.IbcModule
open Uint Bincode Run

section
variable [TransferJson]

/-! ## The sending side -/

/-- The packet a call sent. -/
def sentPacket (c : IbcCall) : Option IbcPacket := (sentSequence c).bind fun n => c.after.sentPackets[n]?

/-- The packets a run sends, in order, over all channels. -/
def sentIn (m : IbcModule) (ops : List IbcOp) : List IbcPacket := (trace step m ops).filterMap sentPacket

/-- A sent packet is the next one, over a channel that is open, for a transfer that was checked. -/
theorem sentPacket_cases (m : IbcModule) (op : IbcOp) :
    (sentSequence ⟨m, op, (step m op).1, (step m op).2⟩ = none ∧
      sentPacket ⟨m, op, (step m op).1, (step m op).2⟩ = none) ∨
    (∃ now t channel data, t.validate = .ok () ∧ m.channels[t.sourceChannel]? = some channel ∧
      TransferJson.toVec t = .ok data ∧ data.length ≤ maxPacketBytes ∧ m.nextSequenceSend.toNat + 1 < 2 ^ 64 ∧
      sentSequence ⟨m, op, (step m op).1, (step m op).2⟩ = some m.nextSequenceSend ∧
      sentPacket ⟨m, op, (step m op).1, (step m op).2⟩ = some (outgoing m now t channel data)) := by
  cases op with
  | sendTransfer now t =>
    rcases sendTransfer_cases m now t with
      ⟨e, h⟩ | ⟨channel, data, next, hvalid, hfound, _, hdata, hlen, hnext, h⟩
    · left
      simp [sentPacket, sentSequence, step, h, Except.map]
    · refine .inr ⟨now, t, channel, data, hvalid, hfound, hdata, hlen, hnext ▸ next.isLt, ?_, ?_⟩
      · simp [sentSequence, step, h, Except.map]
      · simp [sentPacket, sentSequence, step, h, Except.map]
  | _ => exact .inl ⟨rfl, rfl⟩

/-- The packets of a run carry its sequences. -/
theorem sentIn_numbered (m : IbcModule) (ops : List IbcOp) :
    (sentIn m ops).map (·.sequence.toNat) = List.range' m.nextSequenceSend.toNat (sentIn m ops).length := by
  have hseq : (sentIn m ops).map (·.sequence) = (trace step m ops).filterMap sentSequence := by
    rw [sentIn, List.map_filterMap]
    apply List.filterMap_congr
    intro c hc
    have hcall : c = ⟨c.before, c.input, (step c.before c.input).1, (step c.before c.input).2⟩ := by
      rw [trace_step step m ops c hc]
    rw [hcall]
    rcases sentPacket_cases c.before c.input with ⟨hs, hp⟩ | ⟨_, _, _, _, _, _, _, _, _, hs, hp⟩
    · rw [hs, hp]; rfl
    · rw [hs, hp]; rfl
  have hrange := sentSequences_eq_range m ops
  rw [← hseq, List.map_map, List.length_map] at hrange
  exact hrange

/-- What the packets sent over `c` are, when `c` ends as `channel`. -/
structure SentOver (c : String) (channel : IbcChannel) (p : IbcPacket) : Prop where
  bound : p.sourceChannel = c ∧ p.sourcePort = channel.portId ∧ p.destinationPort = channel.counterpartyPortId ∧
    p.destinationChannel = channel.counterpartyChannelId
  payload : ∃ t, checkPayload p = .ok t
  size : p.data ≠ [] ∧ p.data.length ≤ maxPacketBytes
  timed : p.timeoutHeight ≠ 0#64
  not_last : p.sequence.toNat + 1 < 2 ^ 64

omit [TransferJson] in
theorem timeout_set (height : BlockHeight) : saturatingAdd height defaultTimeoutBlocks ≠ 0#64 := by
  unfold saturatingAdd
  cases hsum : checkedAdd height defaultTimeoutBlocks with
  | none => decide
  | some sum =>
    rintro rfl
    have hnat := checkedAdd_eq_some.mp hsum
    simp [defaultTimeoutBlocks] at hnat

theorem sentIn_sentOver [LawfulTransferJson] {m : IbcModule} (hm : Named m) (ops : List IbcOp) {c : String}
    {channel : IbcChannel} (hc : (final step m ops).channels[c]? = some channel) :
    ∀ p ∈ sentIn m ops, p.sourceChannel = c → SentOver c channel p := by
  induction ops generalizing m with
  | nil => intro p hp; cases hp
  | cons op ops ih =>
    intro p hp hsource
    have hrest := ih (named_step m op hm) hc
    rw [sentIn, trace, List.filterMap_cons] at hp
    rcases sentPacket_cases m op with
      ⟨_, hnone⟩ | ⟨now, t, opened, data, hvalid, hfound, hdata, hlen, hlast, _, hsome⟩
    · rw [hnone] at hp
      exact hrest p hp hsource
    · rw [hsome] at hp
      rcases List.mem_cons.mp hp with rfl | hp
      · -- the channel still has the binding the packet was made from
        have hsrc : t.sourceChannel = c := hsource
        obtain ⟨later, hlater, hfollows⟩ := channel_final hm (op :: ops) (hsrc ▸ hfound)
        obtain rfl : later = channel := Option.some.inj (hlater.symm.trans hc)
        refine ⟨⟨hsrc, ?_, ?_, ?_⟩, ⟨t, ?_⟩, ⟨?_, by simpa [outgoing] using hlen⟩,
          by simpa only [outgoing] using timeout_set _, by simpa [outgoing] using hlast⟩
        · rw [hfollows.1]; rfl
        · rw [hfollows.1]; rfl
        · rw [hfollows.1]; rfl
        · simp [checkPayload, outgoing, LawfulTransferJson.decode_encode t data hdata, hvalid]
        · rintro hnil
          exact LawfulTransferJson.encode_ne_nil t (hnil ▸ hdata)
      · exact hrest p hp hsource

/-! ## The receiving side -/

/-- One delivery, with the receiver's height and clock at that moment. -/
structure Delivery where
  height : BlockHeight
  now : Timestamp
  packet : IbcPacket

/-- `set_current_height`, then `receive_packet`. -/
def deliver (b : IbcModule) (d : Delivery) : Except IbcError IbcTransfer × IbcModule :=
  receivePacket (setCurrentHeight b d.height) d.now d.packet

/-- Every delivery of the list is accepted. -/
def AcceptsAll (b : IbcModule) (ds : List Delivery) : Prop :=
  ∀ call ∈ trace deliver b ds, ∃ t, call.result = .ok t

theorem acceptsAll_cons (b : IbcModule) (d : Delivery) (ds : List Delivery) :
    AcceptsAll b (d :: ds) ↔ (∃ t, (deliver b d).1 = .ok t) ∧ AcceptsAll (deliver b d).2 ds := by
  simp [AcceptsAll, trace]

/-- Module `b` holds the open, ordered mirror image of another module's channel `c`, with ports and
channel ids swapped. It expects sequence `n`, and has no receipt for `n` or anything after it. -/
structure Mirrors (b : IbcModule) (c : String) (channel : IbcChannel) (n : Nat) : Prop where
  enabled : b.config.enabled = true
  mirror : ∃ mirrored, b.channels[channel.counterpartyChannelId]? = some mirrored ∧ mirrored.state = .open ∧
    mirrored.ordering = .ordered ∧ mirrored.counterpartyChannelId = c ∧
    mirrored.counterpartyPortId = channel.portId ∧ mirrored.portId = channel.counterpartyPortId
  expects : (b.expectedRecvSequence channel.counterpartyChannelId).toNat = n
  unused : ∀ k : U64, n ≤ k.toNat → (c, k) ∉ b.receivedPackets

variable {b : IbcModule} {c : String} {channel : IbcChannel} {n : Nat}

/-- The mirror accepts the packet with the expected sequence, and then expects the next. -/
theorem deliver_expected (hb : Mirrors b c channel n) (hn : 0 < n) {d : Delivery}
    (hsent : SentOver c channel d.packet) (hlive : expired d.height d.now d.packet = false)
    (hseq : d.packet.sequence.toNat = n) :
    (∃ t, (deliver b d).1 = .ok t) ∧ Mirrors (deliver b d).2 c channel (n + 1) := by
  obtain ⟨mirrored, hfound, hopen, hordered, hchannel, hport, hport'⟩ := hb.mirror
  obtain ⟨hsource, hsport, hdport, hdest⟩ := hsent.bound
  obtain ⟨t, ht⟩ := hsent.payload
  have hacc : Acceptable (setCurrentHeight b d.height) d.now d.packet mirrored t :=
    { enabled := hb.enabled
      sequence_ne := by intro h; rw [h] at hseq; simp at hseq; omega
      size := hsent.size
      found := hdest ▸ hfound
      carries := .inl hopen
      bound := ⟨hchannel.trans hsource.symm, hport.trans hsport.symm, hport'.trans hdport.symm⟩
      timed := fun h => hsent.timed h.1
      live := hlive
      fresh := hsource ▸ hb.unused _ (by omega)
      inOrder := fun _ => BitVec.eq_of_toNat_eq (hseq.trans (hdest ▸ hb.expects.symm))
      payload := ht }
  have hexpected : ((setCurrentHeight b d.height).expectedRecvSequence d.packet.destinationChannel).toNat = n :=
    hdest ▸ hb.expects
  have hlast := hsent.not_last
  unfold deliver
  rcases receivePacket_cases (setCurrentHeight b d.height) d.now d.packet with
    ⟨hno, -⟩ | ⟨_, _, _, hend, -⟩ | ⟨_, t', next, _, _, hnext, hr⟩
  · exact absurd ⟨mirrored, t, hacc⟩ hno
  · unfold AtEnd at hend
    omega
  · rw [hr]
    refine ⟨⟨t', rfl⟩, hb.enabled, ⟨mirrored, hfound, hopen, hordered, hchannel, hport, hport'⟩, ?_, ?_⟩
    · rw [expected_recordReceipt, if_pos hdest]
      omega
    · intro k hk hmem
      rw [mem_recordReceipt, Prod.mk.injEq] at hmem
      rcases hmem with ⟨-, rfl⟩ | hmem
      · omega
      · exact hb.unused k (by omega) hmem

/-- The mirror refuses a packet with any other sequence. -/
theorem deliver_unexpected (hb : Mirrors b c channel n) {d : Delivery} (hsent : SentOver c channel d.packet)
    (hseq : d.packet.sequence.toNat ≠ n) (t : IbcTransfer) : (deliver b d).1 ≠ .ok t := by
  obtain ⟨mirrored, hfound, -, hordered, -⟩ := hb.mirror
  intro hok
  unfold deliver at hok
  rcases receivePacket_cases (setCurrentHeight b d.height) d.now d.packet with
    ⟨_, e, hr⟩ | ⟨_, _, _, _, hr⟩ | ⟨ch, _, _, hacc, _, _, _⟩
  · rw [hr] at hok; cases hok
  · rw [hr] at hok; cases hok
  · obtain ⟨-, -, -, hdest⟩ := hsent.bound
    have hfound' := hacc.found
    rw [hdest] at hfound'
    obtain rfl : mirrored = ch := Option.some.inj (hfound.symm.trans hfound')
    have hexpected := hacc.inOrder hordered
    rw [hexpected, hdest] at hseq
    exact hseq hb.expects

/-- The mirror accepts a list of packets exactly when they are numbered from what it expects. -/
theorem acceptsAll_iff_numbered (hb : Mirrors b c channel n) (hn : 0 < n) (ds : List Delivery)
    (hsent : ∀ d ∈ ds, SentOver c channel d.packet)
    (hlive : ∀ d ∈ ds, expired d.height d.now d.packet = false) :
    AcceptsAll b ds ↔ ds.map (·.packet.sequence.toNat) = List.range' n ds.length := by
  induction ds generalizing b n with
  | nil => simp [AcceptsAll, trace]
  | cons d ds ih =>
    rw [List.forall_mem_cons] at hsent hlive
    rw [acceptsAll_cons, List.map_cons, List.length_cons, List.range'_succ, List.cons.injEq]
    by_cases hseq : d.packet.sequence.toNat = n
    · obtain ⟨hok, hnext⟩ := deliver_expected hb hn hsent.1 hlive.1 hseq
      simp [hok, hseq, ih hnext (Nat.succ_pos n) hsent.2 hlive.2]
    · have hno : ¬ ∃ t, (deliver b d).1 = .ok t := by
        rintro ⟨t, ht⟩
        exact deliver_unexpected hb hsent.1 hseq t ht
      simp [hno, hseq]

/-- **Sender and receiver.** Module `a` runs from its start; `b` holds the unused, ordered mirror image of
its channel `c`, and gets what `a` sent on `c` in the order it was sent, none of it expired. It accepts all of it
exactly when `a` sent nothing over another channel before anything it sent over `c`. -/
theorem ordered_delivery_iff [LawfulTransferJson] (config : IbcConfig) (ops : List IbcOp)
    (hc : (final step (new config) ops).channels[c]? = some channel) (hb : Mirrors b c channel 1)
    (ds : List Delivery) (hds : ds.map (·.packet) = (sentIn (new config) ops).filter (·.sourceChannel = c))
    (hlive : ∀ d ∈ ds, expired d.height d.now d.packet = false) :
    AcceptsAll b ds ↔ (sentIn (new config) ops).Pairwise fun p q => q.sourceChannel = c → p.sourceChannel = c := by
  have hsent : ∀ d ∈ ds, SentOver c channel d.packet := by
    intro d hd
    have hmem : d.packet ∈ (sentIn (new config) ops).filter (·.sourceChannel = c) := hds ▸ List.mem_map_of_mem hd
    rw [List.mem_filter, decide_eq_true_iff] at hmem
    exact sentIn_sentOver (named_new config) ops hc d.packet hmem.1 hmem.2
  have hnumbers : ds.map (·.packet.sequence.toNat) =
      ((sentIn (new config) ops).filter (·.sourceChannel = c)).map (·.sequence.toNat) := by
    rw [← hds, List.map_map]; rfl
  have hlength : ds.length = ((sentIn (new config) ops).filter (·.sourceChannel = c)).length := by
    rw [← hds, List.length_map]
  rw [acceptsAll_iff_numbered hb Nat.one_pos ds hsent hlive, hnumbers, hlength,
    Sequence.filter_numbered_iff _ _ 1 _ (sentIn_numbered (new config) ops)]
  simp

end

section Sample
attribute [local instance] plainJson

/-- Two ordered channels are opened, then one transfer is sent over each channel of the list. -/
def sampleSender (sends : List String) : List IbcOp :=
  [.openChannel "transfer" "transfer" "channel-0" .ordered, .openChannel "transfer" "transfer" "channel-1" .ordered,
    .setChannelState "channel-0" .open, .setChannelState "channel-1" .open] ++
  sends.map fun id => .sendTransfer 5#64 ⟨Vector.replicate 20 1, "cosmos1receiver", "SUB", 100#128, id⟩

/-- The sender's `channel-0`, and the receiver that mirrors it. -/
def sampleChannel : IbcChannel := ⟨"channel-0", "transfer", .open, .ordered, "channel-0", "transfer"⟩

def sampleMirror : IbcModule :=
  final step (new .default)
    [.openChannel "transfer" "transfer" "channel-0" .ordered, .setChannelState "channel-0" .open]

/-- What the sender sent on `channel-0`, delivered at once. -/
def sampleDeliveries (sends : List String) : List Delivery :=
  ((sentIn (new .default) (sampleSender sends)).filter (·.sourceChannel = "channel-0")).map fun p => ⟨0#64, 5#64, p⟩

theorem sampleMirror_mirrors : Mirrors sampleMirror "channel-0" sampleChannel 1 where
  enabled := by decide +kernel
  mirror := ⟨sampleChannel, by decide +kernel, rfl, rfl, rfl, rfl, rfl⟩
  expects := by decide +kernel
  unused k _ := by
    have hempty : sampleMirror.receivedPackets.isEmpty = true := by decide +kernel
    simp [Std.ExtTreeSet.isEmpty_iff.mp hempty]

theorem sampleDeliveries_packets (sends : List String) :
    (sampleDeliveries sends).map (·.packet) =
      (sentIn (new .default) (sampleSender sends)).filter (·.sourceChannel = "channel-0") := by
  simp [sampleDeliveries, Function.comp_def]

/-- Two transfers on `channel-0`, then one on `channel-1`: both packets are accepted. -/
theorem ordered_delivery_sample : AcceptsAll sampleMirror (sampleDeliveries ["channel-0", "channel-0", "channel-1"]) :=
  haveI := plainJson_lawful
  (ordered_delivery_iff .default (sampleSender ["channel-0", "channel-0", "channel-1"]) (by decide +kernel)
    sampleMirror_mirrors _ (sampleDeliveries_packets _) (by decide +kernel)).mpr (by decide +kernel)

/-- One transfer on `channel-1`, then one on `channel-0`: the mirror of `channel-0` expects sequence 1 and
gets 2. -/
theorem interleaved_delivery_refused :
    (final step (new .default) (sampleSender ["channel-1", "channel-0"])).channels["channel-0"]? = some sampleChannel ∧
    Mirrors sampleMirror "channel-0" sampleChannel 1 ∧
    (sampleDeliveries ["channel-1", "channel-0"]).map (·.packet) =
      (sentIn (new .default) (sampleSender ["channel-1", "channel-0"])).filter (·.sourceChannel = "channel-0") ∧
    (∀ d ∈ sampleDeliveries ["channel-1", "channel-0"], expired d.height d.now d.packet = false) ∧
    ((trace deliver sampleMirror (sampleDeliveries ["channel-1", "channel-0"])).map (·.result)) =
      [.error (.invalidSequence 1#64 2#64)] :=
  ⟨by decide +kernel, sampleMirror_mirrors, sampleDeliveries_packets _, by decide +kernel, by decide +kernel⟩

end Sample

end Subhost.IbcModule
