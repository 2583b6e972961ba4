import Subhost.Lib.Run
import Subhost.Network.Message
import Mathlib.Data.Finset.Image
/-!
# The network manager (subhost-network/src/lib.rs:129-332)

| here | there |
| --- | --- |
| `Channel`                         | `mpsc::channel(CHANNEL_CAPACITY)` |
| `NetworkManager.handleEvent`      | `NetworkManager::handle_event` (lib.rs:284) |
| `NetworkManager.handleGossip`     | `NetworkManager::handle_gossip` (lib.rs:315) |
| `NetworkNode.step`                | one round of the loop of `run` (lib.rs:251), and the application |

The manager keeps a set of connected peers. The swarm keeps connections, of which a peer may have several, and reports
each that opens and each that closes; `NetworkNode` has both sides, so that they can be compared along a run. Of the
other events only gossip has an effect on what is modelled here: listening addresses are logged, and what mDNS
discovers goes into the routing table of libp2p.
-/
namespace Subhost
open Bincode Run

/-! ## Channels -/

/-- `CHANNEL_CAPACITY` (lib.rs:31). -/
def channelCapacity : Nat := 1000

/-- The inbound channel: what the application has not taken yet, oldest first. -/
structure Channel where
  messages : List NetworkMessage
  fits : messages.length ≤ channelCapacity

namespace Channel

theorem fits_concat (messages : List NetworkMessage) (message : NetworkMessage)
    (h : messages.length < channelCapacity) : (messages ++ [message]).length ≤ channelCapacity := by
  rw [List.length_append]
  exact h

theorem fits_tail (message : NetworkMessage) (rest : List NetworkMessage)
    (h : (message :: rest).length ≤ channelCapacity) : rest.length ≤ channelCapacity :=
  Nat.le_of_succ_le h

def empty : Channel := ⟨[], Nat.zero_le channelCapacity⟩

/-- `Sender::try_send`: a full channel takes nothing. -/
def trySend (channel : Channel) (message : NetworkMessage) : Option Channel :=
  match channel with
  | ⟨messages, _⟩ =>
    if h : messages.length < channelCapacity then some ⟨messages ++ [message], fits_concat messages message h⟩ else none

/-- `Receiver::try_recv`. -/
def tryRecv (channel : Channel) : Option NetworkMessage × Channel :=
  match channel with
  | ⟨[], fits⟩ => (none, ⟨[], fits⟩)
  | ⟨message :: rest, fits⟩ => (some message, ⟨rest, fits_tail message rest fits⟩)

theorem trySend_eq_some {channel next : Channel} {message : NetworkMessage} (h : channel.trySend message = some next) :
    next.messages = channel.messages ++ [message] := by
  rw [trySend] at h
  split at h
  · rw [← Option.some.inj h]
  · cases h

theorem tryRecv_subset (channel : Channel) : ∀ message ∈ channel.tryRecv.2.messages, message ∈ channel.messages := by
  match channel with
  | ⟨[], _⟩ => exact fun _ h => h
  | ⟨message :: rest, _⟩ => exact fun _ h => List.mem_cons_of_mem message h

end Channel

/-! ## The manager -/

section
variable {PeerId : Type}

/-- `SwarmEvent`, with the identifier of the connection where there is one. `other` is an event without effect. -/
inductive SwarmEvent (PeerId : Type) where
  | connectionEstablished (peer : PeerId) (connection : Nat)
  | connectionClosed (peer : PeerId) (connection : Nat)
  | gossip (data : Bytes)
  | other
deriving DecidableEq

/-- `NetworkManager` (lib.rs:138). -/
structure NetworkManager (PeerId : Type) where
  connectedPeers : Finset PeerId
  inbound : Channel

namespace NetworkManager

/-- `NetworkManager::connected_peer_count` (lib.rs:230). -/
def connectedPeerCount (manager : NetworkManager PeerId) : Nat := manager.connectedPeers.card

/-- `NetworkManager::handle_gossip` (lib.rs:315). -/
def handleGossip (manager : NetworkManager PeerId) (data : Bytes) : NetworkManager PeerId :=
  match NetworkMessage.fromSlice data with
  | none => manager
  | some message =>
    match message.validate with
    | .error _ => manager
    | .ok () =>
      match manager.inbound.trySend message with
      | none => manager
      | some inbound => { manager with inbound }

/-- What gossip leaves: the manager itself, or one valid message more. -/
theorem handleGossip_cases (manager : NetworkManager PeerId) (data : Bytes) :
    manager.handleGossip data = manager ∨
      ∃ message inbound, message.validate = .ok () ∧ inbound.messages = manager.inbound.messages ++ [message] ∧
        manager.handleGossip data = { manager with inbound } := by
  unfold handleGossip
  split
  · exact .inl rfl
  · split
    · exact .inl rfl
    · rename_i hvalid
      split
      · exact .inl rfl
      · rename_i hsend
        exact .inr ⟨_, _, hvalid, Channel.trySend_eq_some hsend, rfl⟩

@[simp]
theorem connectedPeers_handleGossip (manager : NetworkManager PeerId) (data : Bytes) :
    (manager.handleGossip data).connectedPeers = manager.connectedPeers := by
  obtain hsame | ⟨_, _, _, _, hnext⟩ := manager.handleGossip_cases data
  · rw [hsame]
  · rw [hnext]

end NetworkManager

/-! ## The loop -/

variable [DecidableEq PeerId]

/-- `NetworkManager::handle_event` (lib.rs:284). -/
def NetworkManager.handleEvent (manager : NetworkManager PeerId) : SwarmEvent PeerId → NetworkManager PeerId
  | .connectionEstablished peer _ => { manager with connectedPeers := insert peer manager.connectedPeers }
  | .connectionClosed peer _ => { manager with connectedPeers := manager.connectedPeers.erase peer }
  | .gossip data => manager.handleGossip data
  | .other => manager

/-- The connections that are open after an event. -/
def SwarmEvent.track (connections : Finset (PeerId × Nat)) : SwarmEvent PeerId → Finset (PeerId × Nat)
  | .connectionEstablished peer connection => insert (peer, connection) connections
  | .connectionClosed peer connection => connections.erase (peer, connection)
  | .gossip _ => connections
  | .other => connections

/-- The manager, and the connections of its swarm. -/
structure NetworkNode (PeerId : Type) where
  manager : NetworkManager PeerId
  connections : Finset (PeerId × Nat)

inductive NetworkInput (PeerId : Type) where
  | event (event : SwarmEvent PeerId)
  /-- The application sends a message. -/
  | outbound (message : NetworkMessage)
  /-- The application takes a message. -/
  | receive

inductive NetworkOutput where
  | handled
  | published (outcome : Except NetworkError Bytes)
  | received (message : Option NetworkMessage)

namespace NetworkNode

/-- `NetworkManager::new` (lib.rs:150). -/
def new : NetworkNode PeerId := ⟨⟨∅, .empty⟩, ∅⟩

def step (node : NetworkNode PeerId) : NetworkInput PeerId → NetworkOutput × NetworkNode PeerId
  | .event event => (.handled, ⟨node.manager.handleEvent event, event.track node.connections⟩)
  | .outbound message => (.published (publish message), node)
  | .receive =>
    (.received node.manager.inbound.tryRecv.1,
      { node with manager := { node.manager with inbound := node.manager.inbound.tryRecv.2 } })

end NetworkNode

namespace NetworkNode

/-- **The application receives valid messages only**, along every run. -/
theorem inbound_valid (inputs : List (NetworkInput PeerId)) :
    ∀ message ∈ (final step new inputs).manager.inbound.messages, message.validate = .ok () := by
  refine final_invariant step (fun node => ∀ message ∈ node.manager.inbound.messages, message.validate = .ok ())
    ?_ ?_ inputs
  · intro node input hinv
    match input with
    | .event (.connectionEstablished _ _) => exact hinv
    | .event (.connectionClosed _ _) => exact hinv
    | .event .other => exact hinv
    | .event (.gossip data) =>
      obtain hsame | ⟨message, inbound, hvalid, hmessages, hnext⟩ := node.manager.handleGossip_cases data
      · simpa only [step, NetworkManager.handleEvent, hsame] using hinv
      · simp only [step, NetworkManager.handleEvent, hnext, hmessages, List.forall_mem_append, List.forall_mem_singleton]
        exact ⟨hinv, hvalid⟩
    | .outbound _ => exact hinv
    | .receive => exact fun message hmessage => hinv message (node.manager.inbound.tryRecv_subset message hmessage)
  · intro message hmessage
    cases hmessage

end NetworkNode

/-! ## Peers -/

namespace NetworkNode

/-- The peers with an open connection. -/
def openPeers (node : NetworkNode PeerId) : Finset PeerId := node.connections.image Prod.fst

theorem mem_openPeers {node : NetworkNode PeerId} {peer : PeerId} :
    peer ∈ node.openPeers ↔ ∃ connection, (peer, connection) ∈ node.connections := by
  simp [openPeers]

/-- The manager's set is right. -/
def PeersMatch (node : NetworkNode PeerId) : Prop := node.manager.connectedPeers = node.openPeers

/-- What libp2p can deliver: a connection that opens is new, and one that closes is open. -/
def CanDeliver (node : NetworkNode PeerId) : NetworkInput PeerId → Prop
  | .event (.connectionEstablished peer connection) => (peer, connection) ∉ node.connections
  | .event (.connectionClosed peer connection) => (peer, connection) ∈ node.connections
  | _ => True

def Deliverable (inputs : List (NetworkInput PeerId)) : Prop :=
  ∀ c ∈ trace step new inputs, c.before.CanDeliver c.input

/-- After every event the manager's set is right. -/
def Tracks (inputs : List (NetworkInput PeerId)) : Prop := ∀ c ∈ trace step new inputs, c.after.PeersMatch

/-- If a connection closes, its peer has no other. -/
def ClosesLast (node : NetworkNode PeerId) : NetworkInput PeerId → Prop
  | .event (.connectionClosed peer connection) => ∀ other, (peer, other) ∈ node.connections → other = connection
  | _ => True

theorem peersMatch_closed {node : NetworkNode PeerId} (h : node.PeersMatch) (peer : PeerId) (connection : Nat) :
    (node.step (.event (.connectionClosed peer connection))).2.PeersMatch ↔
      ∀ other, (peer, other) ∈ node.connections → other = connection := by
  have hset : (node.step (.event (.connectionClosed peer connection))).2.PeersMatch ↔
      node.openPeers.erase peer = (node.connections.erase (peer, connection)).image Prod.fst := by
    rw [← h]
    rfl
  rw [hset]
  constructor
  · intro heq other hother
    by_contra hne
    -- the other connection keeps the peer among the open ones, and it was taken out
    have hopen : peer ∈ (node.connections.erase (peer, connection)).image Prod.fst :=
      Finset.mem_image.mpr ⟨(peer, other), Finset.mem_erase.mpr ⟨by simpa using hne, hother⟩, rfl⟩
    rw [← heq] at hopen
    exact Finset.notMem_erase peer _ hopen
  · intro hlast
    ext q
    simp only [Finset.mem_erase, mem_openPeers, Finset.mem_image, Prod.exists, ne_eq, Prod.mk.injEq]
    constructor
    · rintro ⟨hq, i, hi⟩
      exact ⟨q, i, ⟨fun hsame => hq hsame.1, hi⟩, rfl⟩
    · rintro ⟨q', i, ⟨hne, hi⟩, rfl⟩
      refine ⟨?_, i, hi⟩
      rintro rfl
      exact hne ⟨rfl, hlast i hi⟩

/-- One round keeps the set right exactly if a close is the last of its peer. -/
theorem peersMatch_step {node : NetworkNode PeerId} (h : node.PeersMatch) (input : NetworkInput PeerId) :
    (node.step input).2.PeersMatch ↔ node.ClosesLast input := by
  match input with
  | .event (.connectionEstablished peer connection) =>
    refine iff_of_true ?_ trivial
    change insert peer node.manager.connectedPeers = (insert (peer, connection) node.connections).image Prod.fst
    rw [Finset.image_insert, h]
    rfl
  | .event (.connectionClosed peer connection) => exact peersMatch_closed h peer connection
  | .event (.gossip data) =>
    refine iff_of_true ?_ trivial
    exact (node.manager.connectedPeers_handleGossip data).trans h
  | .event .other => exact iff_of_true h trivial
  | .outbound _ => exact iff_of_true h trivial
  | .receive => exact iff_of_true h trivial

/-- **The set of peers is right along a run if and only if every close is the last of its peer.** -/
theorem tracks_iff (inputs : List (NetworkInput PeerId)) :
    Tracks inputs ↔ ∀ c ∈ trace step new inputs, c.before.ClosesLast c.input :=
  forall_after_iff step (fun _ => True) PeersMatch (fun c => c.before.ClosesLast c.input) (fun _ _ _ _ => trivial)
    (fun _ input _ _ hmatch => peersMatch_step hmatch input) trivial rfl

/-- Two peers connect, and one of them goes. -/
def onePerPeer : List (NetworkInput Nat) :=
  [.event (.connectionEstablished 7 0), .event (.connectionEstablished 9 1), .event (.connectionClosed 7 0)]

theorem tracks_iff_onePerPeer : Deliverable onePerPeer ∧ Tracks onePerPeer := by
  refine ⟨?_, (tracks_iff onePerPeer).mpr ?_⟩
  · simp [Deliverable, onePerPeer, trace, step, new, CanDeliver, SwarmEvent.track]
  · simp [onePerPeer, trace, step, new, ClosesLast, SwarmEvent.track]

/-- A peer connects twice, as when both sides dial, and one of the connections closes. -/
def dialledTwice : List (NetworkInput Nat) :=
  [.event (.connectionEstablished 7 0), .event (.connectionEstablished 7 1), .event (.connectionClosed 7 1)]

/-- The manager then has no peer, though one is connected. -/
theorem peer_forgotten :
    Deliverable dialledTwice ∧ ¬ Tracks dialledTwice ∧
      (final step new dialledTwice).openPeers = {7} ∧
      (final step new dialledTwice).manager.connectedPeerCount = 0 := by
  refine ⟨?_, ?_, by decide, by decide⟩
  · simp [Deliverable, dialledTwice, trace, step, new, CanDeliver, SwarmEvent.track]
  · intro htracks
    have hlast : PeersMatch (final step new dialledTwice) := htracks _ (last_mem_trace step new (dialledTwice.take 2) _)
    exact absurd (congrArg Finset.card hlast) (by decide)

theorem connectedPeers_subset_step {node : NetworkNode PeerId} (h : node.manager.connectedPeers ⊆ node.openPeers)
    (input : NetworkInput PeerId) : (node.step input).2.manager.connectedPeers ⊆ (node.step input).2.openPeers := by
  match input with
  | .event (.connectionEstablished peer connection) =>
    change insert peer node.manager.connectedPeers ⊆ (insert (peer, connection) node.connections).image Prod.fst
    rw [Finset.image_insert]
    exact Finset.insert_subset_insert peer h
  | .event (.connectionClosed peer connection) =>
    intro q hq
    obtain ⟨hne, hq⟩ := Finset.mem_erase.mp hq
    obtain ⟨i, hi⟩ := mem_openPeers.mp (h hq)
    -- only connections of the peer itself were closed
    refine mem_openPeers.mpr ⟨i, Finset.mem_erase.mpr ⟨?_, hi⟩⟩
    exact fun hsame => hne (Prod.mk.inj hsame).1
  | .event (.gossip data) =>
    rw [step, NetworkManager.handleEvent]
    exact (node.manager.connectedPeers_handleGossip data).trans_subset h
  | .event .other => exact h
  | .outbound _ => exact h
  | .receive => exact h

/-- The set is never too large: a peer in it has a connection. -/
theorem connectedPeers_subset (inputs : List (NetworkInput PeerId)) :
    (final step new inputs).manager.connectedPeers ⊆ (final step new inputs).openPeers :=
  final_invariant step (fun node => node.manager.connectedPeers ⊆ node.openPeers)
    (fun _ input h => connectedPeers_subset_step h input) (Finset.empty_subset _) inputs

end NetworkNode

end

end Subhost
