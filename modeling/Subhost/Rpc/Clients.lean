import Subhost.Rpc.Quantity
/-!
# What the clients sign and send (subhost-cli/src/main.rs:527-557, subhost-faucet/src/lib.rs:268-309,
explorer/src/main.rs:216-246)

The command line, the faucet and the explorer each build a transfer, sign its payload and describe it to
the node in a JSON object of their own making: lower-case hexadecimal quantities, `data` as `0x`, key and
signature as fixed-width hexadecimal text. The node reads this object with the strict parsers of
`eth_sendTransaction`. `clients_agree`: what it reads is the transaction that was signed, for every value
of every field.

The signing key is a foreign primitive: any public key and any function from payloads to signatures.
-/
namespace Subhost
open Uint Bincode

/-! ## The clients -/

/-- `TRANSFER_GAS_LIMIT`, the same in all three. -/
def transferGasLimit : Gas := 21000

/-- `SigningKey` of ed25519-dalek. -/
structure SigningKey where
  publicKey : Vector UInt8 32
  sign : Bytes → Vector UInt8 64

/-- The unsigned transfer (main.rs:527, lib.rs:273, explorer main.rs:219). -/
def unsignedTransfer (sender recipient : Address) (value gasPrice : Amount) (nonce : Nonce) (chainId : ChainId) :
    Transaction :=
  ⟨.transfer, nonce, sender, some recipient, value, gasPrice, transferGasLimit, [], chainId, .empty⟩

/-- The parameters of `eth_sendTransaction`, up to the text of the gas price. -/
def sendParams (tx : Transaction) (recipient : Address) (gasPrice : String) (publicKey : Vector UInt8 32)
    (signature : Vector UInt8 64) : Json :=
  .array [.object [
    ("from", .string (displayBytes tx.fromAddr.toList)),
    ("to", .string (displayBytes recipient.toList)),
    ("value", .string (hexText tx.value.toNat)),
    ("nonce", .string (hexText tx.nonce.toNat)),
    ("gasPrice", .string gasPrice),
    ("gas", .string (hexText tx.gasLimit.toNat)),
    ("chainId", .string (hexText tx.chainId.toNat)),
    ("data", .string "0x"),
    ("publicKey", .string (displayBytes publicKey.toList)),
    ("signature", .string (displayBytes signature.toList))]]

/-- `TxCommands::Send` (subhost-cli/src/main.rs:527-557). -/
def cliSend (key : SigningKey) (sender recipient : Address) (amount gasPrice : Amount) (nonce : Nonce)
    (chainId : ChainId) : Json :=
  let unsigned := unsignedTransfer sender recipient amount gasPrice nonce chainId
  sendParams unsigned recipient (hexText gasPrice.toNat) key.publicKey (key.sign unsigned.signingPayload)

/-- `FaucetSigner::sign` (subhost-faucet/src/lib.rs:167). -/
def SigningKey.signTransaction (key : SigningKey) (tx : Transaction) : TransactionSignature :=
  .fromEd25519 (key.sign tx.signingPayload)

/-- `FaucetState::submit_transfer` (subhost-faucet/src/lib.rs:268-309): the signature goes through the
transaction's two halves and back. -/
def submitTransfer (key : SigningKey) (sender recipient : Address) (dripAmount : Amount) (nonce : Nonce)
    (chainId : ChainId) : Json :=
  let unsigned := unsignedTransfer sender recipient dripAmount 1 nonce chainId
  sendParams unsigned recipient (hexText unsigned.gasPrice.toNat) key.publicKey (key.signTransaction unsigned).toEd25519

/-- The explorer's transfer (explorer/src/main.rs:216-246): the gas price is a literal. -/
def explorerTransfer (key : SigningKey) (sender recipient : Address) (amount : Amount) (nonce : Nonce)
    (chainId : ChainId) : Json :=
  let unsigned := unsignedTransfer sender recipient amount 1 nonce chainId
  sendParams unsigned recipient "0x1" key.publicKey (key.sign unsigned.signingPayload)

/-! ## What the node reads -/

/-- The node reads the request as this transaction, key and signature. -/
def ReadAs (params : Json) (chainId : ChainId) (tx : Transaction) (publicKey : Vector UInt8 32)
    (signature : Vector UInt8 64) : Prop :=
  ∃ request, paramsOne params = .ok request ∧ transactionFromParams request chainId = .ok tx ∧
    fixedHex 32 (request.get "publicKey") = .ok publicKey ∧ fixedHex 64 (request.get "signature") = .ok signature

theorem readAs_sendParams (sender recipient : Address) (value gasPrice : Amount) (nonce : Nonce) (chainId : ChainId)
    (publicKey : Vector UInt8 32) (signature : Vector UInt8 64) :
    ReadAs (sendParams (unsignedTransfer sender recipient value gasPrice nonce chainId) recipient
        (hexText gasPrice.toNat) publicKey signature) chainId
      (unsignedTransfer sender recipient value gasPrice nonce chainId) publicKey signature := by
  refine ⟨_, rfl, ?_, fixedHex_display publicKey, fixedHex_display signature⟩
  have hdata : hexData (some (.string "0x")) = .ok [] := by decide +kernel
  simp [transactionFromParams, Json.get, List.lookup_cons, Json.asStr, unsignedTransfer, parseAddress_display, hexQuantity,
    hexAmount, hexNumber_hexText, hdata, bind, Except.bind, pure, Except.pure, Except.map]

/-- **Clients and node agree on the transaction that is signed.** For all addresses, values, gas prices,
nonces and keys, and the node's chain id: the object that the command line, the faucet and the explorer send
is read as exactly the unsigned transaction whose payload they signed, with their public key and their
signature. -/
theorem clients_agree (key : SigningKey) (sender recipient : Address) (value gasPrice : Amount) (nonce : Nonce)
    (chainId : ChainId) :
    ReadAs (cliSend key sender recipient value gasPrice nonce chainId) chainId
      (unsignedTransfer sender recipient value gasPrice nonce chainId) key.publicKey
      (key.sign (unsignedTransfer sender recipient value gasPrice nonce chainId).signingPayload) ∧
    ReadAs (submitTransfer key sender recipient value nonce chainId) chainId
      (unsignedTransfer sender recipient value 1 nonce chainId) key.publicKey
      (key.sign (unsignedTransfer sender recipient value 1 nonce chainId).signingPayload) ∧
    ReadAs (explorerTransfer key sender recipient value nonce chainId) chainId
      (unsignedTransfer sender recipient value 1 nonce chainId) key.publicKey
      (key.sign (unsignedTransfer sender recipient value 1 nonce chainId).signingPayload) := by
  have hfaucet : (key.signTransaction (unsignedTransfer sender recipient value 1 nonce chainId)).toEd25519 =
      key.sign (unsignedTransfer sender recipient value 1 nonce chainId).signingPayload :=
    TransactionSignature.toEd25519_fromEd25519 _
  have hone : hexText (1 : Amount).toNat = "0x1" := by decide +kernel
  refine ⟨readAs_sendParams sender recipient value gasPrice nonce chainId _ _, ?_, ?_⟩
  · unfold submitTransfer
    dsimp only
    rw [hfaucet]
    exact readAs_sendParams sender recipient value 1 nonce chainId _ _
  · unfold explorerTransfer
    rw [← hone]
    exact readAs_sendParams sender recipient value 1 nonce chainId _ _

end Subhost
