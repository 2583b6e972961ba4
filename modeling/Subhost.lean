import Subhost.Lib.Uint
import Subhost.Lib.Bincode
import Subhost.Lib.Map
import Subhost.Core.Types
import Subhost.Lib.Pairing
import Subhost.Crypto.Bls
import Subhost.Crypto.Aggregate
import Subhost.Lib.Run
import Subhost.Consensus.Registry
import Subhost.Consensus.HotStuff
import Subhost.Consensus.Agreement
import Subhost.Core.Encoding
import Subhost.Lib.Buckets
import Subhost.Consensus.Dag
import Subhost.Consensus.Commits
import Subhost.Consensus.History
import Subhost.Consensus.Identity
import Subhost.Consensus.Convergence
import Subhost.Consensus.Staking
import Subhost.Consensus.Delegations
import Subhost.Consensus.Slashing
import Subhost.Consensus.Forgery
import Subhost.Consensus.RogueKey
import Subhost.Consensus.Views
import Subhost.Faucet.Cooldown
import Subhost.Lib.Nested
import Subhost.Mempool.Pool
import Subhost.Mempool.Rollback
import Subhost.State.Model
import Subhost.State.Snapshot
import Subhost.State.Execute
import Subhost.Storage.Chain
import Subhost.Storage.Store
import Subhost.Rpc.Producer
import Subhost.State.Runs
import Subhost.Rpc.Ledger
import Subhost.Rpc.Steps
import Subhost.Rpc.Runs
import Subhost.Rpc.Submit
import Subhost.Rpc.Request
import Subhost.Lib.Radix
import Subhost.Rpc.Quantity
import Subhost.Rpc.BlockTag
import Subhost.Rpc.Identifiers
import Subhost.Rpc.Clients
import Subhost.Faucet.Drip
import Subhost.Faucet.Keys
import Subhost.Faucet.Sweep
import Subhost.Ibc.Module
import Subhost.Ibc.Packets
import Subhost.Ibc.Channels
import Subhost.Lib.Sequence
import Subhost.Ibc.Arrival
import Subhost.Ibc.Relay
import Subhost.Mempool.Runs
import Subhost.Mempool.Ready
import Subhost.Lib.Offers
import Subhost.Mempool.Confluence
import Subhost.Mempool.Order
import Subhost.Mempool.Admission
import Subhost.Node.Bootstrap
import Subhost.Node.Crash
import Subhost.Storage.Canonical
import Subhost.Storage.Binding
import Subhost.Rpc.Lookup
import Subhost.Node.Enumeration
import Subhost.Node.Allocations
import Subhost.Rpc.Ephemeral
import Subhost.Rpc.FailedWrite
import Subhost.Rpc.Publish
import Subhost.Storage.Receipts
import Subhost.Storage.Reload
import Subhost.Rpc.Resave
import Subhost.Storage.Files
import Subhost.Rpc.Accepted
import Subhost.Lib.JsonText
import Subhost.Network.Message
import Subhost.Network.Manager
import Subhost.Lib.Program
import Subhost.Lib.JsonPrint
import Subhost.Lib.Serde
import Subhost.Rpc.Wire
import Subhost.Rpc.Server
import Subhost.Rpc.ReplySize
import Subhost.Explorer.Snapshot
import Subhost.Wallet.File
import Subhost.Wallet.Folder
import Subhost.Rpc.Amid
import Subhost.Rpc.Account
import Subhost.Explorer.Transfer
import Subhost.Cli.Send
import Subhost.Cli.Query
import Subhost.Lib.JsonCut
import Subhost.Node.Genesis
import Subhost.Cli.Init
