import Subhost.Ibc.Packets
/-!
# Channels over a run, and what they accept

Channel ids are generated from the number of channels, so opening a channel never touches an existing
one (`named_step`); a channel keeps everything but its state, and `Closed` is final (`channel_step`).
From that and the two keys of `receive_packet` (the counter under the local id, the receipt under the
counterparty's id):

* `delivered_once_in_order`: an ordered channel accepts 1, 2, …, k, no channel accepts a sequence twice,
  and a closed channel carries nothing.
* `isolated_of_sole_counterparty`: deliveries on other channels do not influence a channel whose counterparty
  id no other channel has. Two channels with one counterparty id share their receipts, and then they do
  (`shared_counterparty_interferes`).
-/
namespace Subhost.IbcModule
open Uint Bincode Run

section
variable [TransferJson]

/-! ## Channels are never replaced -/

omit [TransferJson] in
theorem channelName_inj {i j : Nat} (h : channelName i = channelName j) : i = j := by
  unfold channelName at h
  rw [String.append_right_inj, Nat.toString_eq_ofList_toDigits, Nat.toString_eq_ofList_toDigits] at h
  have hdigits := congrArg (fun l => Nat.ofDigitChars 10 l 0) (String.ofList_injective h)
  simpa only [Nat.ofDigitChars_ten_toDigits] using hdigits

/-- All that a call can do to the channels. -/
theorem step_channels (m : IbcModule) (op : IbcOp) :
    (step m op).2.channels = m.channels ∨
    (∃ channel, channel.state = .init ∧
      (step m op).2.channels = m.channels.insert (channelName m.channels.size) channel) ∨
    (∃ id channel state, m.channels[id]? = some channel ∧ transitionAllowed channel.state state = true ∧
      (step m op).2.channels = m.channels.insert id { channel with state }) := by
  have h := step_effect m op
  generalize (step m op).1 = result, (step m op).2 = after at h ⊢
  cases h with
  | opened => exact .inr (.inl ⟨_, rfl, rfl⟩)
  | moved found allowed => exact .inr (.inr ⟨_, _, _, found, allowed, rfl⟩)
  | _ => exact .inl rfl

/-- The names handed out are those below the number of channels. -/
def Named (m : IbcModule) : Prop :=
  ∀ i, (m.channels[channelName i]?).isSome → i < m.channels.size

omit [TransferJson] in
theorem named_new (config : IbcConfig) : Named (new config) := by
  intro i h
  simp [new] at h

omit [TransferJson] in
/-- The name the next channel gets is not in use. -/
theorem next_name_free {m : IbcModule} (hm : Named m) : m.channels[channelName m.channels.size]? = none := by
  cases h : m.channels[channelName m.channels.size]? with
  | none => rfl
  | some channel => exact absurd (hm _ (by simp [h])) (Nat.lt_irrefl _)

theorem named_step (m : IbcModule) (op : IbcOp) (hm : Named m) : Named (step m op).2 := by
  intro i hi
  rcases step_channels m op with h | ⟨channel, -, h⟩ | ⟨id, channel, state, hfound, -, h⟩
  · rw [h] at hi ⊢
    exact hm i hi
  · rw [h] at hi
    rw [h, Map.size_insert_of_none _ (next_name_free hm)]
    by_cases e : m.channels.size = i
    · omega
    · rw [Map.get_insert_ne _ _ fun heq => e (channelName_inj heq)] at hi
      exact Nat.lt_succ_of_lt (hm i hi)
  · rw [h] at hi
    rw [h, Map.size_insert_of_some _ hfound]
    by_cases e : id = channelName i
    · exact hm i (by rw [← e, hfound]; rfl)
    · rw [Map.get_insert_ne _ _ e] at hi
      exact hm i hi

/-- `later` is `channel` in a later state: only the handshake state moved, and not out of `Closed`. -/
def Follows (channel later : IbcChannel) : Prop :=
  later = { channel with state := later.state } ∧ (channel.state = .closed → later.state = .closed)

omit [TransferJson] in
theorem Follows.refl (channel : IbcChannel) : Follows channel channel := ⟨rfl, id⟩

omit [TransferJson] in
theorem Follows.trans {a b c : IbcChannel} (h : Follows a b) (h' : Follows b c) : Follows a c := by
  refine ⟨?_, fun hc => h'.2 (h.2 hc)⟩
  rw [h'.1, h.1]

/-- A channel that exists keeps its binding and its ordering. -/
theorem channel_step {m : IbcModule} (hm : Named m) (op : IbcOp) {d : String} {channel : IbcChannel}
    (hd : m.channels[d]? = some channel) :
    ∃ later, (step m op).2.channels[d]? = some later ∧ Follows channel later := by
  rcases step_channels m op with h | ⟨opened, -, h⟩ | ⟨id, changed, state, hfound, hallowed, h⟩
  · exact ⟨channel, by rw [h, hd], .refl _⟩
  · have hne : channelName m.channels.size ≠ d := by
      rintro rfl
      rw [next_name_free hm] at hd
      cases hd
    exact ⟨channel, by rw [h, Map.get_insert_ne _ _ hne, hd], .refl _⟩
  · by_cases e : id = d
    · subst e
      obtain rfl : changed = channel := Option.some.inj (hfound.symm.trans hd)
      refine ⟨{ changed with state }, by rw [h, Map.get_insert_self], rfl, fun hclosed => ?_⟩
      rw [hclosed] at hallowed
      cases hallowed
    · exact ⟨channel, by rw [h, Map.get_insert_ne _ _ e, hd], .refl _⟩

/-- A channel of any state of a run is there at the end, with the same binding and ordering. -/
theorem channel_final {m : IbcModule} (hm : Named m) (ops : List IbcOp) {d : String} {channel : IbcChannel}
    (hd : m.channels[d]? = some channel) :
    ∃ later, (final step m ops).channels[d]? = some later ∧ Follows channel later := by
  induction ops generalizing m channel with
  | nil => exact ⟨channel, hd, .refl _⟩
  | cons op ops ih =>
    obtain ⟨next, hnext, hfollows⟩ := channel_step hm op hd
    obtain ⟨later, hlater, hrest⟩ := ih (named_step m op hm) hnext
    exact ⟨later, hlater, hfollows.trans hrest⟩

/-! ## Accepted packets -/

/-- The sequence a call accepted on channel `d`. -/
def acceptedOn (d : String) (c : IbcCall) : Option U64 :=
  match c.input, c.result with
  | .receivePacket _ p, .ok _ => if p.destinationChannel = d then some p.sequence else none
  | _, _ => none

omit [TransferJson] in
@[simp] theorem acceptedOn_error (d : String) (m after : IbcModule) (op : IbcOp) (e : IbcError) :
    acceptedOn d ⟨m, op, .error e, after⟩ = none := by
  cases op <;> rfl

/-- The call sent a transfer over channel `d`. -/
def sentOver (d : String) (c : IbcCall) : Bool :=
  match c.input, c.result with
  | .sendTransfer _ t, .ok _ => t.sourceChannel = d
  | _, _ => false

omit [TransferJson] in
theorem expected_recordReceipt (m : IbcModule) (p : IbcPacket) (next : U64) (d : String) :
    (recordReceipt m p next).expectedRecvSequence d =
      if p.destinationChannel = d then next else m.expectedRecvSequence d := by
  unfold expectedRecvSequence recordReceipt
  by_cases h : p.destinationChannel = d
  · subst h; simp
  · simp [h, Map.get_insert_ne _ _ h]

/-- All that a call can do to the receipts and to what channel `d` expects. -/
theorem step_inbox (m : IbcModule) (op : IbcOp) (d : String) :
    -- nothing accepted on `d`
    (acceptedOn d ⟨m, op, (step m op).1, (step m op).2⟩ = none ∧
      (step m op).2.expectedRecvSequence d = m.expectedRecvSequence d ∧
      ∀ key ∈ m.receivedPackets, key ∈ (step m op).2.receivedPackets) ∨
    -- a packet accepted on `d`
    (∃ now p channel t next, p.destinationChannel = d ∧ Acceptable m now p channel t ∧
      next.toNat = max (m.expectedRecvSequence d).toNat p.sequence.toNat + 1 ∧
      acceptedOn d ⟨m, op, (step m op).1, (step m op).2⟩ = some p.sequence ∧
      (step m op).2 = recordReceipt m p next) := by
  have h := step_effect m op
  generalize (step m op).1 = result, (step m op).2 = after at h ⊢
  have hkept : ∀ (p : IbcPacket) (next : U64), ∀ key ∈ m.receivedPackets,
      key ∈ (recordReceipt m p next).receivedPackets := fun p next key hkey => mem_recordReceipt.mpr (.inr hkey)
  cases h with
  | refused => simp
  | @overflowed now p =>
    left
    simp only [acceptedOn_error, expected_recordReceipt, true_and]
    exact ⟨by split <;> simp_all, hkept p _⟩
  | @delivered now p channel t next acceptable _ succ =>
    by_cases hd : p.destinationChannel = d
    · subst hd
      exact .inr ⟨now, p, channel, t, next, rfl, acceptable, succ, by simp [acceptedOn], rfl⟩
    · left
      simp only [acceptedOn, expected_recordReceipt, hd, if_false, true_and]
      exact hkept p next
  | _ => simp [acceptedOn, expectedRecvSequence, setCurrentHeight]

/-- The sequences channel `d` accepts in a run, in order. -/
def accepted (d : String) (m : IbcModule) (ops : List IbcOp) : List U64 :=
  (trace step m ops).filterMap (acceptedOn d)

theorem accepted_cons_none {d : String} {m : IbcModule} {op : IbcOp} (ops : List IbcOp)
    (h : acceptedOn d ⟨m, op, (step m op).1, (step m op).2⟩ = none) :
    accepted d m (op :: ops) = accepted d (step m op).2 ops := by
  simp [accepted, trace, h]

theorem accepted_cons_some {d : String} {m : IbcModule} {op : IbcOp} {n : U64} (ops : List IbcOp)
    (h : acceptedOn d ⟨m, op, (step m op).1, (step m op).2⟩ = some n) :
    accepted d m (op :: ops) = n :: accepted d (step m op).2 ops := by
  simp [accepted, trace, h]

/-- An ordered channel accepts from what it expects, one after the other. -/
theorem accepted_ordered {m : IbcModule} (hm : Named m) (ops : List IbcOp) {d : String} {channel : IbcChannel}
    (hd : (final step m ops).channels[d]? = some channel) (hordered : channel.ordering = .ordered) :
    (accepted d m ops).map BitVec.toNat =
      List.range' (m.expectedRecvSequence d).toNat (accepted d m ops).length := by
  induction ops generalizing m with
  | nil => rfl
  | cons op ops ih =>
    have hrest := ih (named_step m op hm) hd
    rcases step_inbox m op d with ⟨hnone, hexpected, -⟩ | ⟨now, p, ch, t, next, rfl, hacc, hnext, hsome, hafter⟩
    · rwa [accepted_cons_none ops hnone, ← hexpected]
    · -- the channel has had its ordering since it was opened
      obtain ⟨later, hlater, hfollows⟩ := channel_final hm (op :: ops) hacc.found
      obtain rfl : later = channel := Option.some.inj (hlater.symm.trans hd)
      have hseq : p.sequence = m.expectedRecvSequence p.destinationChannel := by
        apply hacc.inOrder
        rw [hfollows.1] at hordered
        exact hordered
      have hexpected : ((step m op).2.expectedRecvSequence p.destinationChannel).toNat = p.sequence.toNat + 1 := by
        rw [hafter, expected_recordReceipt, if_pos rfl, hnext, ← hseq, Nat.max_self]
      rw [hexpected] at hrest
      simp [accepted_cons_some ops hsome, hrest, ← hseq, List.range'_succ]

/-- What channel `d` accepts had no receipt at the start, and is accepted once. -/
theorem accepted_once {m : IbcModule} (hm : Named m) (ops : List IbcOp) (d : String) :
    (accepted d m ops).Nodup ∧
    ∀ n ∈ accepted d m ops, ∀ channel, (final step m ops).channels[d]? = some channel →
      (channel.counterpartyChannelId, n) ∉ m.receivedPackets := by
  induction ops generalizing m with
  | nil => simp [accepted, trace]
  | cons op ops ih =>
    obtain ⟨hnodup, hfresh⟩ := ih (named_step m op hm)
    rcases step_inbox m op d with ⟨hnone, -, hmono⟩ | ⟨now, p, ch, t, next, rfl, hacc, -, hsome, hafter⟩
    · rw [accepted_cons_none ops hnone]
      exact ⟨hnodup, fun n hn channel hd hmem => hfresh n hn channel hd (hmono _ hmem)⟩
    · rw [accepted_cons_some ops hsome]
      obtain ⟨later, hlater, hfollows⟩ := channel_final hm (op :: ops) hacc.found
      -- the receipt is kept under the channel's counterparty, which never changes
      have hkey : later.counterpartyChannelId = p.sourceChannel := by
        rw [hfollows.1]
        exact hacc.bound.1
      rw [hafter] at hfresh
      constructor
      · refine List.nodup_cons.mpr ⟨fun hin => ?_, hnodup⟩
        exact hfresh _ (hafter ▸ hin) later (hafter ▸ hlater) (mem_recordReceipt.mpr (.inl (by rw [hkey])))
      · intro n hn channel hd hold
        obtain rfl : later = channel := Option.some.inj (hlater.symm.trans hd)
        rcases List.mem_cons.mp hn with rfl | hn
        · exact hacc.fresh (hkey ▸ hold)
        · exact hfresh n (hafter ▸ hn) later (hafter ▸ hd) (mem_recordReceipt.mpr (.inr hold))

/-- A closed channel stays closed. -/
def ClosedAt (d : String) (m : IbcModule) : Prop :=
  Named m ∧ ∃ channel, m.channels[d]? = some channel ∧ channel.state = .closed

theorem closedAt_step (d : String) (m : IbcModule) (op : IbcOp) (h : ClosedAt d m) :
    ClosedAt d (step m op).2 := by
  obtain ⟨hm, channel, hd, hclosed⟩ := h
  obtain ⟨later, hlater, hfollows⟩ := channel_step hm op hd
  exact ⟨named_step m op hm, later, hlater, hfollows.2 hclosed⟩

theorem closed_carries_nothing {d : String} {m : IbcModule} (h : ClosedAt d m) (op : IbcOp) :
    acceptedOn d ⟨m, op, (step m op).1, (step m op).2⟩ = none ∧
    sentOver d ⟨m, op, (step m op).1, (step m op).2⟩ = false := by
  obtain ⟨-, channel, hd, hclosed⟩ := h
  constructor
  · rcases step_inbox m op d with ⟨hnone, -⟩ | ⟨now, p, ch, t, next, rfl, hacc, -⟩
    · exact hnone
    · obtain rfl : channel = ch := Option.some.inj (hd.symm.trans hacc.found)
      have := hacc.carries
      simp [hclosed] at this
  · cases op with
    | sendTransfer now t =>
      rcases sendTransfer_cases m now t with ⟨e, hs⟩ | ⟨ch, _, _, _, hfound, hopen, _, _, _, hs⟩
      · simp [step, hs, sentOver, Except.map]
      · have hne : t.sourceChannel ≠ d := by
          rintro rfl
          obtain rfl : channel = ch := Option.some.inj (hd.symm.trans hfound)
          rw [hclosed] at hopen
          cases hopen
        simp [step, hs, sentOver, Except.map, hne]
    | _ => rfl

/-- In every run: an ordered channel accepts exactly 1, 2, …, k in order; no channel accepts a sequence
twice; and from the moment a channel is closed nothing is accepted on it or sent over it. -/
theorem delivered_once_in_order (config : IbcConfig) (ops : List IbcOp) (d : String) :
    (∀ channel, (final step (new config) ops).channels[d]? = some channel → channel.ordering = .ordered →
      ∃ k, (accepted d (new config) ops).map BitVec.toNat = List.range' 1 k) ∧
    (accepted d (new config) ops).Nodup ∧
    (∀ before after, ops = before ++ after →
      (∃ channel, (final step (new config) before).channels[d]? = some channel ∧ channel.state = .closed) →
      ∀ c ∈ trace step (final step (new config) before) after, acceptedOn d c = none ∧ sentOver d c = false) := by
  refine ⟨?_, (accepted_once (named_new config) ops d).1, ?_⟩
  · intro channel hd hordered
    exact ⟨_, accepted_ordered (named_new config) ops hd hordered⟩
  · rintro before after - hclosed c hc
    have hstart : ClosedAt d (final step (new config) before) :=
      ⟨final_invariant step Named named_step (named_new config) before, hclosed⟩
    have hbefore := trace_invariant step (ClosedAt d) (closedAt_step d) hstart after c hc
    have hcall := closed_carries_nothing hbefore c.input
    rwa [trace_step step _ _ c hc] at hcall

/-! ## Isolation -/

/-- A call that another channel's deliveries may not influence: anything but a delivery on a channel other
than `d`. -/
def concerns (d : String) : IbcOp → Bool
  | .receivePacket _ p => p.destinationChannel = d
  | _ => true

/-- What the deliveries on `d` returned, in order. -/
def repliesOn (d : String) (m : IbcModule) (ops : List IbcOp) : List (Except IbcError IbcReply) :=
  (trace step m ops).filterMap fun c => match c.input with
    | .receivePacket _ p => if p.destinationChannel = d then some c.result else none
    | _ => none

/-- No other channel has the counterparty channel id of `d`. -/
def SoleCounterparty (m : IbcModule) (d : String) : Prop :=
  ∀ e channel, e ≠ d → m.channels[e]? = some channel →
    some channel.counterpartyChannelId ≠ (m.channels[d]?).map (·.counterpartyChannelId)

instance (m : IbcModule) (d : String) : Decidable (SoleCounterparty m d) :=
  decidable_of_iff (∀ entry ∈ m.channels.toList, entry.1 ≠ d →
      some entry.2.counterpartyChannelId ≠ (m.channels[d]?).map (·.counterpartyChannelId)) <| by
    constructor
    · intro h e channel he hc
      exact h (e, channel) (Map.mem_toList.mpr hc) he
    · rintro h ⟨e, channel⟩ hmem he
      exact h e channel he (Map.mem_toList.mp hmem)

/-- Two modules that look the same from channel `d`, whose counterparty id is (or will be) `x`. -/
structure Agree (d : String) (x : Option String) (m m' : IbcModule) : Prop where
  config : m.config = m'.config
  channels : m.channels = m'.channels
  height : m.currentHeight = m'.currentHeight
  expected : m.expectedRecvSequence d = m'.expectedRecvSequence d
  receipts : ∀ source n, x = some source → ((source, n) ∈ m.receivedPackets ↔ (source, n) ∈ m'.receivedPackets)

theorem config_step (m : IbcModule) (op : IbcOp) : (step m op).2.config = m.config := by
  have h := step_effect m op
  generalize (step m op).1 = result, (step m op).2 = after at h ⊢
  cases h <;> rfl

/-- Only `open_channel` and `set_channel_state` touch the channels. -/
theorem channels_frame (m : IbcModule) (op : IbcOp)
    (hopen : ∀ port cport cchannel ordering, op ≠ .openChannel port cport cchannel ordering)
    (hset : ∀ id state, op ≠ .setChannelState id state) : (step m op).2.channels = m.channels := by
  have h := step_effect m op
  generalize (step m op).1 = result, (step m op).2 = after at h ⊢
  cases h with
  | opened => exact absurd rfl (hopen _ _ _ _)
  | moved => exact absurd rfl (hset _ _)
  | _ => rfl

section Agreement
variable {d : String} {x : Option String} {m m' : IbcModule}

theorem checkOnChannel_agree (h : Agree d x m m') (now : Timestamp) {p : IbcPacket} (hp : p.destinationChannel = d)
    {channel : IbcChannel} (hx : x = some channel.counterpartyChannelId) :
    checkOnChannel m now p channel = checkOnChannel m' now p channel := by
  unfold checkOnChannel
  by_cases hb : channel.counterpartyChannelId = p.sourceChannel
  · -- past the binding check, the receipt looked up is one of the channel's own
    have hreceipt : m.receivedPackets.contains (p.sourceChannel, p.sequence) =
        m'.receivedPackets.contains (p.sourceChannel, p.sequence) := by
      rw [Bool.eq_iff_iff, Std.ExtTreeSet.contains_iff_mem, Std.ExtTreeSet.contains_iff_mem]
      exact h.receipts _ _ (hx.trans (congrArg some hb))
    rw [hreceipt, h.height, hp, h.expected]
  · simp [hb]

theorem checkPacket_agree (h : Agree d x m m') (now : Timestamp) {p : IbcPacket} (hp : p.destinationChannel = d)
    (hx : ∀ channel, m.channels[d]? = some channel → x = some channel.counterpartyChannelId) :
    checkPacket m now p = checkPacket m' now p := by
  unfold checkPacket
  rw [← h.config, ← h.channels]
  cases hc : m.channels[p.destinationChannel]? with
  | none => rfl
  | some channel => simp only [checkOnChannel_agree h now hp (hx channel (hp ▸ hc))]

omit [TransferJson] in
theorem recordReceipt_agree (h : Agree d x m m') (p : IbcPacket) (next : U64) :
    Agree d x (recordReceipt m p next) (recordReceipt m' p next) where
  config := h.config
  channels := h.channels
  height := h.height
  expected := by rw [expected_recordReceipt, expected_recordReceipt, h.expected]
  receipts source n hx := by rw [mem_recordReceipt, mem_recordReceipt, h.receipts source n hx]

/-- A delivery on `d` has the same reply, and the modules still agree. -/
theorem receivePacket_agree (h : Agree d x m m') (now : Timestamp) {p : IbcPacket} (hp : p.destinationChannel = d)
    (hx : ∀ channel, m.channels[d]? = some channel → x = some channel.counterpartyChannelId) :
    (receivePacket m now p).1 = (receivePacket m' now p).1 ∧
    Agree d x (receivePacket m now p).2 (receivePacket m' now p).2 := by
  unfold receivePacket
  rw [checkPacket_agree h now hp hx, hp, h.expected]
  split
  · exact ⟨rfl, h⟩
  · cases hn : checkedAdd (latest (m'.expectedRecvSequence d) p.sequence) 1#64 with
    | none => exact ⟨by simp only [hn], by simpa only [hn] using recordReceipt_agree h p _⟩
    | some next => exact ⟨by simp only [hn], by simpa only [hn] using recordReceipt_agree h p _⟩

/-- A delivery on another channel leaves what `d` sees, when that channel has another counterparty id. -/
theorem other_delivery_agree (h : Agree d x m m') (now : Timestamp) {p : IbcPacket} (hp : p.destinationChannel ≠ d)
    (hx : ∀ channel, m.channels[p.destinationChannel]? = some channel → some channel.counterpartyChannelId ≠ x) :
    Agree d x (receivePacket m now p).2 m' := by
  have hrecorded : ∀ next channel t, Acceptable m now p channel t → Agree d x (recordReceipt m p next) m' := by
    intro next channel t hacc
    refine ⟨h.config, h.channels, h.height, ?_, fun source n hsource => ?_⟩
    · rw [expected_recordReceipt, if_neg hp, h.expected]
    · have hne : p.sourceChannel ≠ source := by
        rintro rfl
        exact hx channel hacc.found (hsource ▸ congrArg some hacc.bound.1)
      simp [mem_recordReceipt, Ne.symm hne, h.receipts source n hsource]
  rcases receivePacket_cases m now p with ⟨_, e, hr⟩ | ⟨channel, t, hacc, _, hr⟩ | ⟨channel, t, next, hacc, _, _, hr⟩
  · rwa [hr]
  · rw [hr]
    exact hrecorded _ channel t hacc
  · rw [hr]
    exact hrecorded next channel t hacc

/-- What the next channels are is decided by the configuration and the channels. -/
theorem channels_congr (hconfig : m.config = m'.config) (hchannels : m.channels = m'.channels) (op : IbcOp) :
    (step m op).2.config = (step m' op).2.config ∧ (step m op).2.channels = (step m' op).2.channels := by
  refine ⟨by rw [config_step, config_step, hconfig], ?_⟩
  cases op with
  | openChannel port cport cchannel ordering =>
    simp only [step, openChannel, hconfig, hchannels]
    repeat' split
    all_goals simp [hchannels]
  | setChannelState id state =>
    simp only [step, setChannelState, hconfig, hchannels]
    repeat' split
    all_goals simp [hchannels]
  | _ => rw [channels_frame m _ (by simp) (by simp), channels_frame m' _ (by simp) (by simp), hchannels]

/-- Only deliveries touch the receiving side, and only `set_current_height` the height. -/
theorem inbox_frame (m : IbcModule) (op : IbcOp) (hop : ∀ now p, op ≠ .receivePacket now p) :
    (step m op).2.nextSequenceRecv = m.nextSequenceRecv ∧
    (step m op).2.receivedPackets = m.receivedPackets ∧
    (step m op).2.currentHeight = match op with
      | .setCurrentHeight h => h
      | _ => m.currentHeight := by
  have h := step_effect m op
  generalize (step m op).1 = result, (step m op).2 = after at h ⊢
  cases h with
  | refused fallible =>
    refine ⟨rfl, rfl, ?_⟩
    cases op with
    | setCurrentHeight h => exact absurd rfl (fallible h)
    | _ => rfl
  | overflowed | delivered => exact absurd rfl (hop _ _)
  | _ => exact ⟨rfl, rfl, rfl⟩

/-- Every call that is not a delivery keeps the agreement. -/
theorem other_call_agree (h : Agree d x m m') (op : IbcOp) (hop : ∀ now p, op ≠ .receivePacket now p) :
    Agree d x (step m op).2 (step m' op).2 := by
  obtain ⟨hconfig, hchannels⟩ := channels_congr h.config h.channels op
  obtain ⟨hrecv, hreceived, hheight⟩ := inbox_frame m op hop
  obtain ⟨hrecv', hreceived', hheight'⟩ := inbox_frame m' op hop
  have hexpected := h.expected
  unfold expectedRecvSequence at hexpected
  refine ⟨hconfig, hchannels, ?_, ?_, fun source n hx => ?_⟩
  · rw [hheight, hheight', h.height]
  · rw [expectedRecvSequence, expectedRecvSequence, hrecv, hrecv', hexpected]
  · rw [hreceived, hreceived', h.receipts source n hx]

/-- A run and the same run without the deliveries on other channels: `d` gives the same replies. -/
theorem replies_agree (h : Agree d x m m') (hm : Named m) (ops : List IbcOp)
    (hd : ∀ channel, (final step m ops).channels[d]? = some channel → x = some channel.counterpartyChannelId)
    (hothers : ∀ e channel, e ≠ d → (final step m ops).channels[e]? = some channel →
      some channel.counterpartyChannelId ≠ x) :
    repliesOn d m ops = repliesOn d m' (ops.filter (concerns d)) := by
  induction ops generalizing m m' with
  | nil => rfl
  | cons op ops ih =>
    have hrest := fun m'' (h' : Agree d x (step m op).2 m'') => ih h' (named_step m op hm) hd hothers
    -- what the end of the run says about the channels of `m`
    have hnow : ∀ (e : String) (channel : IbcChannel), m.channels[e]? = some channel →
        ∃ later, (final step m (op :: ops)).channels[e]? = some later ∧
          later.counterpartyChannelId = channel.counterpartyChannelId := by
      intro e channel he
      obtain ⟨later, hlater, hfollows⟩ := channel_final hm (op :: ops) he
      exact ⟨later, hlater, by rw [hfollows.1]⟩
    by_cases hdelivery : ∃ now p, op = .receivePacket now p
    · obtain ⟨now, p, rfl⟩ := hdelivery
      by_cases hp : p.destinationChannel = d
      · have hx : ∀ channel, m.channels[d]? = some channel → x = some channel.counterpartyChannelId := by
          intro channel hc
          obtain ⟨later, hlater, hsame⟩ := hnow d channel hc
          rw [hd later hlater, hsame]
        obtain ⟨hreply, hagree⟩ := receivePacket_agree h now hp hx
        have hreplies := hrest _ hagree
        rw [List.filter_cons_of_pos (by simp [concerns, hp])]
        simp only [repliesOn, trace, List.filterMap_cons, hp, if_true, step, hreply] at hreplies ⊢
        rw [hreplies]
      · have hx : ∀ channel, m.channels[p.destinationChannel]? = some channel →
            some channel.counterpartyChannelId ≠ x := by
          intro channel hc
          obtain ⟨later, hlater, hsame⟩ := hnow _ channel hc
          rw [← hsame]
          exact hothers _ later hp hlater
        rw [List.filter_cons_of_neg (by simp [concerns, hp]), ← hrest m' (other_delivery_agree h now hp hx)]
        simp [repliesOn, trace, hp]
    · have hagree := other_call_agree h op fun now p e => hdelivery ⟨now, p, e⟩
      have hreplies := hrest _ hagree
      have hconcerns : concerns d op = true := by
        cases op with
        | receivePacket now p => exact absurd ⟨now, p, rfl⟩ hdelivery
        | _ => rfl
      rw [List.filter_cons_of_pos hconcerns]
      cases op with
      | receivePacket now p => exact absurd ⟨now, p, rfl⟩ hdelivery
      | _ => simpa [repliesOn, trace] using hreplies

end Agreement

/-- The channels a run opens do not depend on its deliveries. -/
theorem channels_filter (d : String) {m m' : IbcModule} (hconfig : m.config = m'.config)
    (hchannels : m.channels = m'.channels) (ops : List IbcOp) :
    (final step m ops).channels = (final step m' (ops.filter (concerns d))).channels := by
  induction ops generalizing m m' with
  | nil => exact hchannels
  | cons op ops ih =>
    rw [List.filter_cons]
    split
    · exact ih (channels_congr hconfig hchannels op).1 (channels_congr hconfig hchannels op).2
    · -- only a delivery is left out, and it keeps both
      cases op with
      | receivePacket now p =>
        exact ih ((config_step m _).trans hconfig) ((channels_frame m _ (by simp) (by simp)).trans hchannels)
      | _ => simp_all [concerns]

/-- Two runs that differ only in their deliveries on other channels: when no other channel has the counterparty
id of `d`, every delivery on `d` gets the same reply in both. -/
theorem isolated_of_sole_counterparty (config : IbcConfig) (ops ops' : List IbcOp) (d : String)
    (hsame : ops.filter (concerns d) = ops'.filter (concerns d))
    (hsole : SoleCounterparty (final step (new config) ops) d) :
    repliesOn d (new config) ops = repliesOn d (new config) ops' := by
  let x := ((final step (new config) ops).channels[d]?).map (·.counterpartyChannelId)
  have hagree : Agree d x (new config) (new config) := ⟨rfl, rfl, rfl, rfl, fun _ _ _ => Iff.rfl⟩
  have hchannels : (final step (new config) ops').channels = (final step (new config) ops).channels := by
    rw [channels_filter d rfl rfl ops', ← hsame, ← channels_filter d rfl rfl ops]
  have hd : ∀ channel, (final step (new config) ops).channels[d]? = some channel →
      x = some channel.counterpartyChannelId := by
    intro channel hc
    simp [x, hc]
  have hothers := fun e channel (he : e ≠ d) => hsole e channel he
  calc repliesOn d (new config) ops
      = repliesOn d (new config) (ops.filter (concerns d)) :=
        replies_agree hagree (named_new config) ops hd hothers
    _ = repliesOn d (new config) (ops'.filter (concerns d)) := by rw [hsame]
    _ = repliesOn d (new config) ops' :=
        (replies_agree hagree (named_new config) ops' (by rwa [hchannels]) (by rwa [hchannels])).symm

end

section Sample
attribute [local instance] plainJson

/-- A channel is closed and opened again to a counterparty channel; before that, `channel-0` receives `received`. -/
def reopened (counterparty : String) (received : List IbcOp) : List IbcOp :=
  [.openChannel "transfer" "transfer" "channel-9" .unordered, .setChannelState "channel-0" .open] ++ received ++
  [.setChannelState "channel-0" .closed, .openChannel "transfer" "transfer" counterparty .unordered,
    .setChannelState "channel-1" .open, .receivePacket 5#64 (samplePacket 1#64 counterparty "channel-1")]

/-- To another counterparty channel, the old channel's packets do not matter. -/
theorem isolated_reopened :
    repliesOn "channel-1" (new .default)
        (reopened "channel-8" [.receivePacket 5#64 (samplePacket 1#64 "channel-9" "channel-0")]) =
      repliesOn "channel-1" (new .default) (reopened "channel-8" []) :=
  isolated_of_sole_counterparty .default _ _ "channel-1" (by decide +kernel) (by decide +kernel)

/-- To the same counterparty channel, a packet of the old channel takes the place of the new channel's. -/
theorem shared_counterparty_interferes :
    (reopened "channel-9" [.receivePacket 5#64 (samplePacket 1#64 "channel-9" "channel-0")]).filter
        (concerns "channel-1") = (reopened "channel-9" []).filter (concerns "channel-1") ∧
    repliesOn "channel-1" (new .default)
        (reopened "channel-9" [.receivePacket 5#64 (samplePacket 1#64 "channel-9" "channel-0")]) =
      [.error .replay] ∧
    accepted "channel-1" (new .default) (reopened "channel-9" []) = [1#64] := by
  decide +kernel

end Sample

end Subhost.IbcModule
