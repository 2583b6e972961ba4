import Subhost.Core.Types
import Subhost.Lib.Run
/-!
# The IBC packet state machine (subhost-ibc/src/lib.rs)

| here | there |
| --- | --- |
| `IbcModule`, `IbcChannel`, `IbcPacket`, `IbcTransfer` | the types of the same names |
| `checkPacket`, `receivePacket` | `receive_packet` (lib.rs:265): every check, then the two writes |
| `Acceptable` | what `checkPacket` lets through, as one structure |
| `TransferJson` | `serde_json` on `IbcTransfer`: an arbitrary pair of functions |
| `now` | `subhost_core::unix_timestamp()`, an argument of every call that reads it |

One counter numbers the packets sent over *all* channels, one counter a channel numbers the packets it
expects, and receipts are kept under the *counterparty's* channel id. Which guarantees survive that
is the subject of the modules that import this one.
-/
namespace Subhost
open Uint Bincode Run

/-- `MAX_PACKET_BYTES` (lib.rs:15). -/
def maxPacketBytes : Nat := 128 * 1024
/-- `DEFAULT_TIMEOUT_BLOCKS` (lib.rs:17). -/
def defaultTimeoutBlocks : BlockHeight := 1000#64
/-- `DEFAULT_TIMEOUT_SECONDS` (lib.rs:19). -/
def defaultTimeoutSeconds : Timestamp := 600#64

/-- `s.trim().is_empty()`. -/
def isBlank (s : String) : Bool := s.toList.all isWhitespace

/-- `IbcConfig` (lib.rs:22). -/
structure IbcConfig where
  enabled : Bool
  chainId : String
  connectionId : String
  clientId : String
  counterpartyChainId : String
deriving DecidableEq

/-- `IbcConfig::default`. -/
def IbcConfig.default : IbcConfig :=
  ⟨true, "subhost-1", "connection-0", "07-tendermint-0", "cosmoshub-4"⟩

/-- `ChannelState` (lib.rs:60). -/
inductive ChannelState where
  | init
  | tryOpen
  | open
  | closed
deriving DecidableEq, Repr

/-- `ChannelOrdering` (lib.rs:68). -/
inductive ChannelOrdering where
  | unordered
  | ordered
deriving DecidableEq, Repr

/-- `IbcChannel` (lib.rs:43). -/
structure IbcChannel where
  channelId : String
  portId : String
  state : ChannelState
  ordering : ChannelOrdering
  counterpartyChannelId : String
  counterpartyPortId : String
deriving DecidableEq

/-- `IbcChannel::is_open` (lib.rs:54). -/
def IbcChannel.isOpen (c : IbcChannel) : Bool := c.state = .open

/-- `IbcPacket` (lib.rs:74). -/
structure IbcPacket where
  sequence : U64
  sourcePort : String
  sourceChannel : String
  destinationPort : String
  destinationChannel : String
  data : Bytes
  timeoutHeight : BlockHeight
  timeoutTimestamp : Timestamp
deriving DecidableEq

/-- `IbcTransfer` (lib.rs:88). -/
structure IbcTransfer where
  sender : Address
  receiver : String
  token : String
  amount : Amount
  sourceChannel : String
deriving DecidableEq

/-- `IbcError` (lib.rs:420). -/
inductive IbcError where
  | disabled
  | channelNotFound (id : String)
  | channelNotOpen (id : String) (state : ChannelState)
  | invalidChannelTransition (source target : ChannelState)
  | invalidChannel (message : String)
  | invalidPacket (message : String)
  | invalidTransfer (message : String)
  | packetTooLarge (provided max : Nat)
  | packetTimedOut
  | packetNotExpired
  | replay
  | unknownPacket (sequence : U64)
  | invalidSequence (expected got : U64)
  | sequenceOverflow
  | serialization (message : String)
deriving DecidableEq

/-- The derived `Debug` of `ChannelState`. -/
def ChannelState.debug : ChannelState → String
  | init => "Init"
  | tryOpen => "TryOpen"
  | .open => "Open"
  | closed => "Closed"

/-- `impl Display for IbcError`. -/
def IbcError.display : IbcError → String
  | disabled => "IBC is disabled"
  | channelNotFound id => "channel " ++ id ++ " not found"
  | channelNotOpen id s => "channel " ++ id ++ " is not open (state " ++ s.debug ++ ")"
  | invalidChannelTransition s t => "invalid channel transition from " ++ s.debug ++ " to " ++ t.debug
  | invalidChannel m => "invalid channel: " ++ m
  | invalidPacket m => "invalid packet: " ++ m
  | invalidTransfer m => "invalid transfer: " ++ m
  | packetTooLarge p m =>
    "packet is " ++ toString p ++ " bytes, above the " ++ toString m ++ " byte limit"
  | packetTimedOut => "packet timed out"
  | packetNotExpired => "packet has not expired yet"
  | replay => "packet replay detected"
  | unknownPacket s => "unknown packet sequence: " ++ toString s.toNat
  | invalidSequence e g =>
    "invalid packet sequence: expected " ++ toString e.toNat ++ ", got " ++ toString g.toNat
  | sequenceOverflow => "packet sequence overflow"
  | serialization m => "serialization failed: " ++ m

/-- `serde_json::to_vec` and `serde_json::from_slice` on transfers; an error is its message. -/
class TransferJson where
  toVec : IbcTransfer → Except String Bytes
  fromSlice : Bytes → Except String IbcTransfer

/-- What is assumed of `serde_json` where a transfer crosses from one module to another: it decodes what
it encodes, and it encodes nothing as the empty string. -/
class LawfulTransferJson [TransferJson] : Prop where
  decode_encode : ∀ t bs, TransferJson.toVec t = .ok bs → TransferJson.fromSlice bs = .ok t
  encode_ne_nil : ∀ t, TransferJson.toVec t ≠ .ok []

section Plain

def toCodePoints (s : String) : List U32 := s.toList.map fun c => BitVec.ofNat 32 c.toNat

def ofCodePoints (l : List U32) : String := String.ofList (l.map fun n => Char.ofNat n.toNat)

theorem ofCodePoints_toCodePoints (s : String) : ofCodePoints (toCodePoints s) = s := by
  have hchar : ∀ c : Char, Char.ofNat (c.toNat % 4294967296) = c := by
    intro c
    have hc : c.toNat < 4294967296 := c.val.toNat_lt
    rw [Nat.mod_eq_of_lt hc, Char.ofNat_toNat]
  simp [ofCodePoints, toCodePoints, Function.comp_def, hchar]

/-- The fields of a transfer, its texts as code points. -/
def plainCodec : Codec (Address × List U32 × List U32 × U128 × List U32) :=
  let text := Codec.list Codec.u32 fun _ => List.ne_nil_of_length_pos (by simp)
  Codec.pair (Codec.array addressSize) <| Codec.pair text <| Codec.pair text <| Codec.pair Codec.u128 text

def plainEncode (t : IbcTransfer) : Except String Bytes :=
  let bs := plainCodec.encode
    (t.sender, toCodePoints t.receiver, toCodePoints t.token, t.amount, toCodePoints t.sourceChannel)
  if bs.length < 2 ^ 64 then .ok bs else .error "too large"

def plainDecode (bs : Bytes) : Except String IbcTransfer :=
  match plainCodec.deserialize bs with
  | none => .error "malformed"
  | some (sender, receiver, token, amount, sourceChannel) =>
    .ok ⟨sender, ofCodePoints receiver, ofCodePoints token, amount, ofCodePoints sourceChannel⟩

theorem plainDecode_plainEncode {t : IbcTransfer} {bs : Bytes} (h : plainEncode t = .ok bs) :
    plainDecode bs = .ok t := by
  unfold plainEncode at h
  simp only at h
  split at h
  · rename_i hlen
    cases h
    simp [plainDecode, plainCodec.deserialize_encode _ hlen, ofCodePoints_toCodePoints]
  · cases h

theorem plainEncode_ne_nil (t : IbcTransfer) : plainEncode t ≠ .ok [] := by
  intro h
  unfold plainEncode at h
  simp only at h
  split at h
  · have hlen := congrArg List.length (Except.ok.inj h)
    simp [plainCodec] at hlen
  · cases h

/-- A plain binary format in the place of JSON, for evaluating concrete runs. -/
@[reducible] def plainJson : TransferJson := ⟨plainEncode, plainDecode⟩

theorem plainJson_lawful : @LawfulTransferJson plainJson :=
  @LawfulTransferJson.mk plainJson (fun _ _ => plainDecode_plainEncode) plainEncode_ne_nil

end Plain

/-- `IbcTransfer::validate` (lib.rs:97). -/
def IbcTransfer.validate (t : IbcTransfer) : Except IbcError Unit :=
  if t.amount = 0#128 then .error (.invalidTransfer "amount must be > 0")
  else if isBlank t.receiver then .error (.invalidTransfer "receiver is required")
  else if isBlank t.token then .error (.invalidTransfer "token denomination is required")
  else .ok ()

/-- `IbcModule` (lib.rs:113). -/
structure IbcModule where
  config : IbcConfig
  channels : Map String IbcChannel
  sentPackets : Map U64 IbcPacket
  nextSequenceSend : U64
  nextSequenceRecv : Map String U64
  currentHeight : BlockHeight
  receivedPackets : KeySet (String × U64)
  acknowledgedPackets : KeySet U64

namespace IbcModule

/-- `IbcModule::new` (lib.rs:128). -/
def new (config : IbcConfig) : IbcModule := ⟨config, ∅, ∅, 1#64, ∅, 0#64, ∅, ∅⟩

/-- `IbcModule::expected_recv_sequence` (lib.rs:406). -/
def expectedRecvSequence (m : IbcModule) (channelId : String) : U64 :=
  (m.nextSequenceRecv[channelId]?).getD 1#64

/-- `format!("channel-{}", n)`. -/
def channelName (n : Nat) : String := "channel-" ++ toString n

/-- `IbcModule::open_channel` (lib.rs:156). -/
def openChannel (m : IbcModule) (portId counterpartyPort counterpartyChannel : String)
    (ordering : ChannelOrdering) : Except IbcError String × IbcModule :=
  if !m.config.enabled then (.error .disabled, m)
  else if isBlank portId || isBlank counterpartyPort then
    (.error (.invalidChannel "port IDs are required"), m)
  else if isBlank counterpartyChannel then
    (.error (.invalidChannel "counterparty channel ID is required"), m)
  else
    let channelId := channelName m.channels.size
    (.ok channelId,
      { m with
        channels := m.channels.insert channelId
          ⟨channelId, portId, .init, ordering, counterpartyChannel, counterpartyPort⟩ })

/-- The transitions `set_channel_state` allows (lib.rs:198). -/
def transitionAllowed : ChannelState → ChannelState → Bool
  | .init, .tryOpen | .init, .open => true
  | .tryOpen, .open => true
  | .init, .closed | .tryOpen, .closed | .open, .closed => true
  | _, _ => false

/-- `IbcModule::set_channel_state` (lib.rs:188). -/
def setChannelState (m : IbcModule) (channelId : String) (state : ChannelState) :
    Except IbcError Unit × IbcModule :=
  if !m.config.enabled then (.error .disabled, m)
  else match m.channels[channelId]? with
  | none => (.error (.channelNotFound channelId), m)
  | some channel =>
    if !transitionAllowed channel.state state then
      (.error (.invalidChannelTransition channel.state state), m)
    else (.ok (), { m with channels := m.channels.insert channelId { channel with state } })

/-- Whether a packet is void at a height and a time; a timeout of `0` is no timeout. -/
def expired (height : BlockHeight) (now : Timestamp) (p : IbcPacket) : Bool :=
  (p.timeoutHeight ≠ 0#64 && p.timeoutHeight ≤ height) ||
    (p.timeoutTimestamp ≠ 0#64 && p.timeoutTimestamp ≤ now)

/-- The packet `send_transfer` queues (lib.rs:240). -/
def outgoing (m : IbcModule) (now : Timestamp) (t : IbcTransfer) (channel : IbcChannel) (data : Bytes) :
    IbcPacket where
  sequence := m.nextSequenceSend
  sourcePort := channel.portId
  sourceChannel := t.sourceChannel
  destinationPort := channel.counterpartyPortId
  destinationChannel := channel.counterpartyChannelId
  data := data
  timeoutHeight := saturatingAdd m.currentHeight defaultTimeoutBlocks
  timeoutTimestamp := saturatingAdd now defaultTimeoutSeconds

section
variable [TransferJson]

/-- `IbcModule::send_transfer` (lib.rs:215). -/
def sendTransfer (m : IbcModule) (now : Timestamp) (t : IbcTransfer) : Except IbcError U64 × IbcModule :=
  if !m.config.enabled then (.error .disabled, m)
  else match t.validate with
  | .error e => (.error e, m)
  | .ok () => match m.channels[t.sourceChannel]? with
    | none => (.error (.channelNotFound t.sourceChannel), m)
    | some channel =>
      if !channel.isOpen then (.error (.channelNotOpen t.sourceChannel channel.state), m)
      else match TransferJson.toVec t with
      | .error e => (.error (.serialization e), m)
      | .ok data =>
        if data.length > maxPacketBytes then (.error (.packetTooLarge data.length maxPacketBytes), m)
        else
          match checkedAdd m.nextSequenceSend 1#64 with
          | none => (.error .sequenceOverflow, m)
          | some next => (.ok m.nextSequenceSend,
              { m with
                nextSequenceSend := next
                sentPackets := m.sentPackets.insert m.nextSequenceSend (outgoing m now t channel data) })

/-- The payload checks of `receive_packet` (lib.rs:325-332). -/
def checkPayload (p : IbcPacket) : Except IbcError IbcTransfer :=
  match TransferJson.fromSlice p.data with
  | .error e => .error (.serialization e)
  | .ok transfer => match transfer.validate with
    | .error e => .error e
    | .ok () =>
      if transfer.sourceChannel ≠ p.sourceChannel then
        .error (.invalidPacket "transfer source channel does not match the packet")
      else .ok transfer

/-- The checks of `receive_packet` against the channel it found (lib.rs:284-332). -/
def checkOnChannel (m : IbcModule) (now : Timestamp) (p : IbcPacket) (channel : IbcChannel) :
    Except IbcError IbcTransfer :=
  if !(channel.state = .open || channel.state = .tryOpen) then
    .error (.channelNotOpen p.destinationChannel channel.state)
  else if channel.counterpartyChannelId ≠ p.sourceChannel || channel.counterpartyPortId ≠ p.sourcePort ||
      channel.portId ≠ p.destinationPort then
    .error (.invalidPacket "packet does not match the channel's counterparty binding")
  else if p.timeoutHeight = 0#64 && p.timeoutTimestamp = 0#64 then
    .error (.invalidPacket "at least one timeout must be set")
  -- the height and the time are tested one after the other, for the same error
  else if expired m.currentHeight now p then .error .packetTimedOut
  else if m.receivedPackets.contains (p.sourceChannel, p.sequence) then .error .replay
  else if channel.ordering = .ordered && p.sequence ≠ m.expectedRecvSequence p.destinationChannel then
    .error (.invalidSequence (m.expectedRecvSequence p.destinationChannel) p.sequence)
  else checkPayload p

/-- Every check of `receive_packet`; nothing is written before they have all passed. -/
def checkPacket (m : IbcModule) (now : Timestamp) (p : IbcPacket) : Except IbcError IbcTransfer :=
  if !m.config.enabled then .error .disabled
  else if p.sequence = 0#64 then .error (.invalidPacket "sequence must be >= 1")
  else if p.data.isEmpty then .error (.invalidPacket "payload is empty")
  else if p.data.length > maxPacketBytes then .error (.packetTooLarge p.data.length maxPacketBytes)
  else match m.channels[p.destinationChannel]? with
  | none => .error (.channelNotFound p.destinationChannel)
  | some channel => checkOnChannel m now p channel

/-- `(*next).max(sequence)`. -/
def latest (next sequence : U64) : U64 := if next ≤ sequence then sequence else next

/-- The writes of `receive_packet`: the receipt, and the channel's counter entry (lib.rs:334-336). -/
def recordReceipt (m : IbcModule) (p : IbcPacket) (next : U64) : IbcModule :=
  { m with
    receivedPackets := m.receivedPackets.insert (p.sourceChannel, p.sequence)
    nextSequenceRecv := m.nextSequenceRecv.insert p.destinationChannel next }

/-- `IbcModule::receive_packet` (lib.rs:265). The receipt and the channel's entry are written before the
increment is checked: when it overflows they stay, with the counter as it was. -/
def receivePacket (m : IbcModule) (now : Timestamp) (p : IbcPacket) : Except IbcError IbcTransfer × IbcModule :=
  match checkPacket m now p with
  | .error e => (.error e, m)
  | .ok transfer =>
    let next := m.expectedRecvSequence p.destinationChannel
    match checkedAdd (latest next p.sequence) 1#64 with
    | none => (.error .sequenceOverflow, recordReceipt m p next)
    | some incremented => (.ok transfer, recordReceipt m p incremented)

end

/-- `IbcModule::acknowledge_packet` (lib.rs:349). -/
def acknowledgePacket (m : IbcModule) (sequence : U64) : Except IbcError Unit × IbcModule :=
  if !m.config.enabled then (.error .disabled, m)
  else if (m.sentPackets[sequence]?).isNone then (.error (.unknownPacket sequence), m)
  else if m.acknowledgedPackets.contains sequence then (.error .replay, m)
  else (.ok (), { m with acknowledgedPackets := m.acknowledgedPackets.insert sequence })

/-- `IbcModule::timeout_packet` (lib.rs:364). -/
def timeoutPacket (m : IbcModule) (now : Timestamp) (sequence : U64) : Except IbcError IbcPacket × IbcModule :=
  if !m.config.enabled then (.error .disabled, m)
  else match m.sentPackets[sequence]? with
  | none => (.error (.unknownPacket sequence), m)
  | some packet =>
    if m.acknowledgedPackets.contains sequence then
      (.error (.invalidPacket "an acknowledged packet cannot time out"), m)
    else if !expired m.currentHeight now packet then (.error .packetNotExpired, m)
    else (.ok packet, { m with sentPackets := m.sentPackets.erase sequence })

/-- `IbcModule::set_current_height` (lib.rs:147). -/
def setCurrentHeight (m : IbcModule) (height : BlockHeight) : IbcModule := { m with currentHeight := height }

end IbcModule

/-! ## Runs -/

/-- One call of a module. -/
inductive IbcOp where
  | openChannel (portId counterpartyPort counterpartyChannel : String) (ordering : ChannelOrdering)
  | setChannelState (channelId : String) (state : ChannelState)
  | sendTransfer (now : Timestamp) (t : IbcTransfer)
  | receivePacket (now : Timestamp) (p : IbcPacket)
  | acknowledgePacket (sequence : U64)
  | timeoutPacket (now : Timestamp) (sequence : U64)
  | setCurrentHeight (height : BlockHeight)
deriving DecidableEq

/-- What a successful call returns. -/
inductive IbcReply where
  | done
  | channel (id : String)
  | sequence (n : U64)
  | transfer (t : IbcTransfer)
  | packet (p : IbcPacket)
deriving DecidableEq

namespace IbcModule
variable [TransferJson]

def step (m : IbcModule) : IbcOp → Except IbcError IbcReply × IbcModule
  | .openChannel port cport cchannel ordering =>
    ((openChannel m port cport cchannel ordering).1.map .channel, (openChannel m port cport cchannel ordering).2)
  | .setChannelState id state =>
    ((setChannelState m id state).1.map fun _ => .done, (setChannelState m id state).2)
  | .sendTransfer now t => ((sendTransfer m now t).1.map .sequence, (sendTransfer m now t).2)
  | .receivePacket now p => ((receivePacket m now p).1.map .transfer, (receivePacket m now p).2)
  | .acknowledgePacket n => ((acknowledgePacket m n).1.map fun _ => .done, (acknowledgePacket m n).2)
  | .timeoutPacket now n => ((timeoutPacket m now n).1.map .packet, (timeoutPacket m now n).2)
  | .setCurrentHeight h => (.ok .done, setCurrentHeight m h)

abbrev IbcCall := Call IbcModule IbcOp (Except IbcError IbcReply)

/-! ## What each operation does -/

omit [TransferJson] in
theorem openChannel_cases (m : IbcModule) (port cport cchannel : String) (ordering : ChannelOrdering) :
    (∃ e, openChannel m port cport cchannel ordering = (.error e, m)) ∨
    openChannel m port cport cchannel ordering = (.ok (channelName m.channels.size),
      { m with
        channels := m.channels.insert (channelName m.channels.size)
          ⟨channelName m.channels.size, port, .init, ordering, cchannel, cport⟩ }) := by
  unfold openChannel
  repeat' split
  all_goals simp

omit [TransferJson] in
theorem setChannelState_cases (m : IbcModule) (id : String) (state : ChannelState) :
    (∃ e, setChannelState m id state = (.error e, m)) ∨
    (∃ channel, m.channels[id]? = some channel ∧ transitionAllowed channel.state state = true ∧
      setChannelState m id state =
        (.ok (), { m with channels := m.channels.insert id { channel with state } })) := by
  unfold setChannelState
  split
  · simp
  split
  · simp
  · rename_i channel hfound
    by_cases h : transitionAllowed channel.state state = true
    · exact .inr ⟨channel, hfound, h, by simp [h]⟩
    · simp [h]

/-- A transfer is sent under the next sequence, over a channel that is open. -/
theorem sendTransfer_cases (m : IbcModule) (now : Timestamp) (t : IbcTransfer) :
    (∃ e, sendTransfer m now t = (.error e, m)) ∨
    (∃ channel data next, t.validate = .ok () ∧ m.channels[t.sourceChannel]? = some channel ∧
      channel.state = .open ∧ TransferJson.toVec t = .ok data ∧ data.length ≤ maxPacketBytes ∧
      next.toNat = m.nextSequenceSend.toNat + 1 ∧
      sendTransfer m now t = (.ok m.nextSequenceSend,
        { m with
          nextSequenceSend := next
          sentPackets := m.sentPackets.insert m.nextSequenceSend (outgoing m now t channel data) })) := by
  unfold sendTransfer
  repeat' split
  all_goals try exact .inl ⟨_, rfl⟩
  rename_i hvalid _ channel hfound hopen _ data hdata hlen _ next hnext
  refine .inr ⟨channel, data, next, hvalid, hfound, ?_, hdata, by omega, ?_, rfl⟩
  · simpa [IbcChannel.isOpen] using hopen
  · simpa using checkedAdd_eq_some.mp hnext

/-- What a packet must satisfy to pass every check of `receive_packet`, on the channel it is for and
with the transfer it carries. -/
structure Acceptable (m : IbcModule) (now : Timestamp) (p : IbcPacket) (channel : IbcChannel)
    (transfer : IbcTransfer) : Prop where
  enabled : m.config.enabled = true
  sequence_ne : p.sequence ≠ 0#64
  size : p.data ≠ [] ∧ p.data.length ≤ maxPacketBytes
  found : m.channels[p.destinationChannel]? = some channel
  carries : channel.state = .open ∨ channel.state = .tryOpen
  bound : channel.counterpartyChannelId = p.sourceChannel ∧ channel.counterpartyPortId = p.sourcePort ∧
    channel.portId = p.destinationPort
  timed : ¬ (p.timeoutHeight = 0#64 ∧ p.timeoutTimestamp = 0#64)
  live : expired m.currentHeight now p = false
  fresh : (p.sourceChannel, p.sequence) ∉ m.receivedPackets
  inOrder : channel.ordering = .ordered → p.sequence = m.expectedRecvSequence p.destinationChannel
  payload : checkPayload p = .ok transfer

theorem checkOnChannel_eq_ok {m : IbcModule} {now : Timestamp} {p : IbcPacket} {channel : IbcChannel}
    {t : IbcTransfer} :
    checkOnChannel m now p channel = .ok t ↔
      (channel.state = .open ∨ channel.state = .tryOpen) ∧
      (channel.counterpartyChannelId = p.sourceChannel ∧ channel.counterpartyPortId = p.sourcePort ∧
        channel.portId = p.destinationPort) ∧
      ¬ (p.timeoutHeight = 0#64 ∧ p.timeoutTimestamp = 0#64) ∧ expired m.currentHeight now p = false ∧
      (p.sourceChannel, p.sequence) ∉ m.receivedPackets ∧
      (channel.ordering = .ordered → p.sequence = m.expectedRecvSequence p.destinationChannel) ∧
      checkPayload p = .ok t := by
  unfold checkOnChannel
  repeat' split
  all_goals simp_all
  all_goals tauto

/-- The checks let through exactly the acceptable packets. -/
theorem checkPacket_eq_ok {m : IbcModule} {now : Timestamp} {p : IbcPacket} {t : IbcTransfer} :
    checkPacket m now p = .ok t ↔ ∃ channel, Acceptable m now p channel t := by
  constructor
  · intro h
    unfold checkPacket at h
    split at h
    · cases h
    · rename_i henabled
      repeat' split at h
      all_goals try cases h
      rename_i hseq hempty hlen _ channel hfound
      obtain ⟨hcarries, hbound, htimed, hlive, hfresh, horder, hpayload⟩ := checkOnChannel_eq_ok.mp h
      exact ⟨channel, by simpa using henabled, hseq, ⟨by simpa using hempty, by omega⟩, hfound, hcarries, hbound,
        htimed, hlive, hfresh, horder, hpayload⟩
  · rintro ⟨channel, h⟩
    have hon := checkOnChannel_eq_ok.mpr
      ⟨h.carries, h.bound, h.timed, h.live, h.fresh, h.inOrder, h.payload⟩
    simp [checkPacket, h.enabled, h.sequence_ne, h.size.1, Nat.not_lt.mpr h.size.2, h.found, hon]

omit [TransferJson] in
theorem latest_toNat (a b : U64) : (latest a b).toNat = max a.toNat b.toNat := by
  unfold latest
  by_cases h : a ≤ b
  · rw [if_pos h, Nat.max_eq_right (BitVec.le_def.mp h)]
  · rw [if_neg h, Nat.max_eq_left (Nat.le_of_lt (BitVec.not_le.mp h))]

omit [TransferJson] in
theorem mem_recordReceipt {m : IbcModule} {p : IbcPacket} {next : U64} {key : String × U64} :
    key ∈ (recordReceipt m p next).receivedPackets ↔
      key = (p.sourceChannel, p.sequence) ∨ key ∈ m.receivedPackets := by
  rw [recordReceipt, Std.ExtTreeSet.mem_insert, Map.compare_eq_iff, eq_comm]

/-- The counter of the packet's channel has no successor. -/
def AtEnd (m : IbcModule) (p : IbcPacket) : Prop :=
  2 ^ 64 ≤ max (m.expectedRecvSequence p.destinationChannel).toNat p.sequence.toNat + 1

instance (m : IbcModule) (p : IbcPacket) : Decidable (AtEnd m p) := inferInstanceAs (Decidable (_ ≤ _))

/-- A packet is refused without a trace, recorded and refused, or recorded and delivered. -/
theorem receivePacket_cases (m : IbcModule) (now : Timestamp) (p : IbcPacket) :
    ((¬ ∃ channel t, Acceptable m now p channel t) ∧ ∃ e, receivePacket m now p = (.error e, m)) ∨
    (∃ channel t, Acceptable m now p channel t ∧ AtEnd m p ∧
      receivePacket m now p =
        (.error .sequenceOverflow, recordReceipt m p (m.expectedRecvSequence p.destinationChannel))) ∨
    (∃ channel t next, Acceptable m now p channel t ∧ ¬ AtEnd m p ∧
      next.toNat = max (m.expectedRecvSequence p.destinationChannel).toNat p.sequence.toNat + 1 ∧
      receivePacket m now p = (.ok t, recordReceipt m p next)) := by
  unfold receivePacket
  cases hc : checkPacket m now p with
  | error e =>
    refine .inl ⟨?_, e, rfl⟩
    rintro ⟨channel, t, h⟩
    rw [checkPacket_eq_ok.mpr ⟨channel, h⟩] at hc
    cases hc
  | ok t =>
    obtain ⟨channel, h⟩ := checkPacket_eq_ok.mp hc
    refine .inr ?_
    unfold AtEnd
    rw [← latest_toNat]
    cases hn : checkedAdd (latest (m.expectedRecvSequence p.destinationChannel) p.sequence) 1#64 with
    | none => exact .inl ⟨channel, t, h, by simpa using checkedAdd_eq_none.mp hn, by simp [hn]⟩
    | some next =>
      have hnext : next.toNat = _ + 1 := checkedAdd_eq_some.mp hn
      exact .inr ⟨channel, t, next, h, by have := next.isLt; omega, hnext, by simp [hn]⟩

omit [TransferJson] in
theorem acknowledgePacket_cases (m : IbcModule) (n : U64) :
    (∃ e, acknowledgePacket m n = (.error e, m)) ∨
    (∃ p, m.sentPackets[n]? = some p ∧ n ∉ m.acknowledgedPackets ∧
      acknowledgePacket m n = (.ok (), { m with acknowledgedPackets := m.acknowledgedPackets.insert n })) := by
  unfold acknowledgePacket
  cases hp : m.sentPackets[n]? with
  | none =>
    left
    split <;> exact ⟨_, rfl⟩
  | some p =>
    repeat' split
    all_goals try exact .inl ⟨_, rfl⟩
    rename_i hack
    exact .inr ⟨p, rfl, by simpa using hack, rfl⟩

omit [TransferJson] in
theorem timeoutPacket_cases (m : IbcModule) (now : Timestamp) (n : U64) :
    (∃ e, timeoutPacket m now n = (.error e, m)) ∨
    (∃ p, m.sentPackets[n]? = some p ∧ n ∉ m.acknowledgedPackets ∧
      timeoutPacket m now n = (.ok p, { m with sentPackets := m.sentPackets.erase n })) := by
  unfold timeoutPacket
  repeat' split
  all_goals try exact .inl ⟨_, rfl⟩
  rename_i _ p hp hack _
  exact .inr ⟨p, hp, by simpa using hack, rfl⟩

/-- Everything a call can do, with what it returns. -/
inductive StepEffect (m : IbcModule) : IbcOp → Except IbcError IbcReply → IbcModule → Prop where
  | refused {op : IbcOp} {e : IbcError} (fallible : ∀ h, op ≠ .setCurrentHeight h)
      (unacceptable : ∀ now p, op = .receivePacket now p → ¬ ∃ channel t, Acceptable m now p channel t) :
      StepEffect m op (.error e) m
  | opened {port cport cchannel : String} {ordering : ChannelOrdering} :
      StepEffect m (.openChannel port cport cchannel ordering) (.ok (.channel (channelName m.channels.size)))
        { m with
          channels := m.channels.insert (channelName m.channels.size)
            ⟨channelName m.channels.size, port, .init, ordering, cchannel, cport⟩ }
  | moved {id : String} {state : ChannelState} {channel : IbcChannel} (found : m.channels[id]? = some channel)
      (allowed : transitionAllowed channel.state state = true) :
      StepEffect m (.setChannelState id state) (.ok .done)
        { m with channels := m.channels.insert id { channel with state } }
  | sent {now : Timestamp} {t : IbcTransfer} {channel : IbcChannel} {data : Bytes} {next : U64}
      (valid : t.validate = .ok ()) (found : m.channels[t.sourceChannel]? = some channel)
      (isOpen : channel.state = .open) (encoded : TransferJson.toVec t = .ok data)
      (size : data.length ≤ maxPacketBytes) (succ : next.toNat = m.nextSequenceSend.toNat + 1) :
      StepEffect m (.sendTransfer now t) (.ok (.sequence m.nextSequenceSend))
        { m with
          nextSequenceSend := next
          sentPackets := m.sentPackets.insert m.nextSequenceSend (outgoing m now t channel data) }
  | overflowed {now : Timestamp} {p : IbcPacket} {channel : IbcChannel} {t : IbcTransfer}
      (acceptable : Acceptable m now p channel t) (atEnd : AtEnd m p) :
      StepEffect m (.receivePacket now p) (.error .sequenceOverflow)
        (recordReceipt m p (m.expectedRecvSequence p.destinationChannel))
  | delivered {now : Timestamp} {p : IbcPacket} {channel : IbcChannel} {t : IbcTransfer} {next : U64}
      (acceptable : Acceptable m now p channel t) (room : ¬ AtEnd m p)
      (succ : next.toNat = max (m.expectedRecvSequence p.destinationChannel).toNat p.sequence.toNat + 1) :
      StepEffect m (.receivePacket now p) (.ok (.transfer t)) (recordReceipt m p next)
  | acknowledged {n : U64} {p : IbcPacket} (stored : m.sentPackets[n]? = some p)
      (unresolved : n ∉ m.acknowledgedPackets) :
      StepEffect m (.acknowledgePacket n) (.ok .done)
        { m with acknowledgedPackets := m.acknowledgedPackets.insert n }
  | timedOut {now : Timestamp} {n : U64} {p : IbcPacket} (stored : m.sentPackets[n]? = some p)
      (unresolved : n ∉ m.acknowledgedPackets) :
      StepEffect m (.timeoutPacket now n) (.ok (.packet p)) { m with sentPackets := m.sentPackets.erase n }
  | height {h : BlockHeight} : StepEffect m (.setCurrentHeight h) (.ok .done) (setCurrentHeight m h)

theorem step_effect (m : IbcModule) (op : IbcOp) : StepEffect m op (step m op).1 (step m op).2 := by
  cases op with
  | openChannel port cport cchannel ordering =>
    rcases openChannel_cases m port cport cchannel ordering with ⟨e, h⟩ | h <;> rw [step, h]
    · exact .refused nofun nofun
    · exact .opened
  | setChannelState id state =>
    rcases setChannelState_cases m id state with ⟨e, h⟩ | ⟨channel, hfound, hallowed, h⟩ <;> rw [step, h]
    · exact .refused nofun nofun
    · exact .moved hfound hallowed
  | sendTransfer now t =>
    rcases sendTransfer_cases m now t with
      ⟨e, h⟩ | ⟨channel, data, next, hvalid, hfound, hopen, hdata, hlen, hnext, h⟩ <;> rw [step, h]
    · exact .refused nofun nofun
    · exact .sent hvalid hfound hopen hdata hlen hnext
  | receivePacket now p =>
    rcases receivePacket_cases m now p with
      ⟨hno, e, h⟩ | ⟨channel, t, hacc, hend, h⟩ | ⟨channel, t, next, hacc, hend, hnext, h⟩ <;> rw [step, h]
    · exact .refused nofun (by rintro now p ⟨⟩; exact hno)
    · exact .overflowed hacc hend
    · exact .delivered hacc hend hnext
  | acknowledgePacket n =>
    rcases acknowledgePacket_cases m n with ⟨e, h⟩ | ⟨p, hstored, hack, h⟩ <;> rw [step, h]
    · exact .refused nofun nofun
    · exact .acknowledged hstored hack
  | timeoutPacket now n =>
    rcases timeoutPacket_cases m now n with ⟨e, h⟩ | ⟨p, hstored, hack, h⟩ <;> rw [step, h]
    · exact .refused nofun nofun
    · exact .timedOut hstored hack
  | setCurrentHeight h => exact .height

end IbcModule

end Subhost
