import Subhost.Lib.Serde
import Subhost.Rpc.ReplySize
import Subhost.Rpc.Clients
/-!
# Wallet files (subhost-wallet/src/lib.rs)

| here | there |
| --- | --- |
| `Wallet`, `KdfParams`, `Wallet.format`  | the same, with the derived `Serialize` and `Deserialize` |
| `encryptPrivateKey`, `decryptPrivateKey` | the same (lib.rs:233, :255) |
| `Wallet.fromSecret`, `fromPrivateKey`   | the same (lib.rs:122, :112) |
| `Wallet.toJson`                         | what `save` writes (lib.rs:144) |
| `Wallet.readText`                       | `read` (lib.rs:161) behind the file system |
| `Wallet.load`                           | the same (lib.rs:173) |

The secret key is encrypted under a key that scrypt derives from the password, and the file is pretty-printed JSON.
scrypt, AES-256-GCM and the ed25519 keys are foreign primitives, with the laws that are used: the standard cost is
accepted, and decrypting inverts encrypting. Salt and nonce are random bytes and come as arguments.

`readText_fromSecret`, `load_fromSecret`: what `from_secret` makes and `save` writes is read back, and opens. `load_ok`:
whatever stands in a file, if it opens, the key is that of the address it claims.
-/
namespace Subhost
open Uint Bincode JsonText

/-! ## Primitives -/

/-- scrypt: the parameters that `Params::new` accepts, and the key of 32 bytes. -/
class Scrypt where
  accepts : UInt8 → U32 → U32 → Bool
  derive : Bytes → Bytes → UInt8 → U32 → U32 → Vector UInt8 32
  standard : accepts 15 8 1 = true

/-- AES-256-GCM: a tag of 16 bytes is appended, and checked. -/
class Aes256Gcm where
  encrypt : Vector UInt8 32 → Bytes → Bytes → Bytes
  decrypt : Vector UInt8 32 → Bytes → Bytes → Option Bytes
  length_encrypt : ∀ key nonce plaintext, (encrypt key nonce plaintext).length = plaintext.length + 16
  decrypt_encrypt : ∀ key nonce plaintext, decrypt key nonce (encrypt key nonce plaintext) = some plaintext

/-- `SigningKey::from_bytes` of ed25519-dalek. -/
class SecretKeys where
  signingKey : Vector UInt8 32 → SigningKey

/-! ## The wallet -/

/-- `WalletError` (lib.rs:283), up to the texts of serde_json. -/
inductive WalletError where
  | keyDerivationFailed
  | weakKdfParameters
  | encryptionFailed
  | decryptionFailed
  | io (message : String)
  | serialization
  | invalidPrivateKey
  | addressMismatch
  | weakPassword
  | unsupportedVersion (version : U32)
  | fileTooLarge
deriving DecidableEq

/-- `WALLET_VERSION` (lib.rs:23). -/
def walletVersion : U32 := 1

/-- `MAX_WALLET_FILE_BYTES` (lib.rs:25). -/
def maxWalletFileBytes : Nat := 1024 * 1024

/-- `MIN_PASSWORD_CHARS` (lib.rs:27). -/
def minPasswordChars : Nat := 8

/-- `KdfParams` (lib.rs:56). -/
structure KdfParams where
  logN : UInt8
  r : U32
  p : U32
deriving DecidableEq

/-- `KdfParams::default` (lib.rs:62). -/
def KdfParams.default : KdfParams := ⟨15, 8, 1⟩

/-- `EncryptedKey` (lib.rs:81). -/
structure EncryptedKey where
  ciphertext : Bytes
  salt : Bytes
  nonce : Bytes
  kdf : KdfParams
deriving DecidableEq

/-- `Wallet` (lib.rs:90). -/
structure Wallet where
  address : String
  encryptedKey : Bytes
  salt : Bytes
  nonce : Bytes
  version : U32
  kdf : KdfParams
deriving DecidableEq

/-- A secret seed of ed25519. -/
abbrev Secret := Vector UInt8 32

/-- `validate_password` (lib.rs:207). -/
def validatePassword (password : String) : Except WalletError Unit :=
  if password.toList.length < minPasswordChars then .error .weakPassword else .ok ()

theorem validatePassword_ok_iff {password : String} :
    validatePassword password = .ok () ↔ minPasswordChars ≤ password.toList.length := by
  unfold validatePassword
  split <;> simp <;> omega

/-! ## The document -/

def KdfParams.format : Format KdfParams :=
  Members.format
    (.required "log_n" .byte (.required "r" (.unsigned 32) (.required "p" (.unsigned 32) .none (by decide)) (by decide))
      (by decide))
    (fun k => (k.logN, k.r, k.p, ())) (fun m => ⟨m.1, m.2.1, m.2.2.1⟩) fun _ => rfl

namespace Wallet

/-- The derived `Serialize` and `Deserialize`; `kdf` has `#[serde(default)]`. -/
def format : Format Wallet :=
  Members.format
    (.required "address" .text (.required "encrypted_key" (.list .byte) (.required "salt" (.list .byte)
      (.required "nonce" (.list .byte) (.required "version" (.unsigned 32)
        (.defaulted "kdf" KdfParams.format .default .none (by decide)) (by decide)) (by decide)) (by decide)) (by decide))
      (by decide))
    (fun w => (w.address, w.encryptedKey, w.salt, w.nonce, w.version, w.kdf, ()))
    (fun m => ⟨m.1, m.2.1, m.2.2.1, m.2.2.2.1, m.2.2.2.2.1, m.2.2.2.2.2.1⟩) fun _ => rfl

/-- What `save` writes: `serde_json::to_string_pretty` (lib.rs:144). -/
def toJson (w : Wallet) : Bytes := utf8 (format.toText .pretty w)

/-- `Wallet::read` (lib.rs:161) on the content of the file. -/
def readText (content : Bytes) : Except WalletError Wallet :=
  if maxWalletFileBytes < content.length then .error .fileTooLarge
  else
    match content.toByteArray.utf8Decode? with
    | none => .error (.io "stream did not contain valid UTF-8")
    | some chars =>
      match format.ofText hexValue chars.toList with
      | none => .error .serialization
      | some w => if w.version ≠ walletVersion then .error (.unsupportedVersion w.version) else .ok w

/-- `Wallet::matches` (lib.rs:202). -/
def matchesAddress (w : Wallet) (address : Address) : Bool :=
  toAsciiLowercase w.address = toAsciiLowercase (displayBytes address.toList)

theorem length_displayBytes (bytes : Bytes) : (displayBytes bytes).toList.length = 2 * bytes.length + 2 := by
  simp [displayBytes, hexEncode, List.length_flatMap]
  omega

theorem length_utf8_le (text : List Char) : (utf8 text).length ≤ 4 * text.length := by
  induction text with
  | nil => exact Nat.le_refl 0
  | cons c text ih =>
    have := c.utf8Size_le_four
    rw [length_utf8_cons, List.length_cons]
    omega

/-- The wallets that are made here stay far below the limit. -/
theorem length_toJson_le {w : Wallet} (haddress : w.address.toList.length ≤ 42) (hkey : w.encryptedKey.length ≤ 48)
    (hsalt : w.salt.length ≤ 32) (hnonce : w.nonce.length ≤ 12) : w.toJson.length ≤ maxWalletFileBytes := by
  -- a byte of a list takes a line of its own, of at most nine characters
  have hlist : ∀ data : Bytes, extent .pretty 1 ((Format.list .byte).write data) ≤ 9 * data.length + 5 := by
    intro data
    have hbytes := extent_list_le .byte (@extent_byte_le .pretty (1 + 1)) data
    have hline : (Layout.pretty.line (1 + 1)).length = 5 ∧ (Layout.pretty.line 1).length = 3 := by decide
    rw [hline.1, hline.2] at hbytes
    omega
  have hquoted := length_quoted_le w.address.toList
  have hdigits : ∀ n : U32, (Nat.toDigits 10 n.toNat).length ≤ 10 := fun n =>
    (Nat.length_toDigits_le_iff (by decide) (by decide)).mpr (by have := n.isLt; omega)
  have hlogN := @extent_byte_le .pretty (1 + 1) w.kdf.logN
  have hkeys : ∀ key ∈ ["address", "encrypted_key", "salt", "nonce", "version", "kdf", "log_n", "r", "p"],
      (quoted key.toList).length ≤ 15 := by decide +kernel
  have hspace : Layout.pretty.gap.length = 1 ∧ (Layout.pretty.line 0).length = 1 ∧ (Layout.pretty.line 1).length = 3 ∧
      (Layout.pretty.line (1 + 1)).length = 5 := by decide
  have hextent : extent .pretty 0 (format.write w) ≤ 2000 := by
    have hsecret := hlist w.encryptedKey
    have hsalted := hlist w.salt
    have hnonced := hlist w.nonce
    simp only [List.forall_mem_cons, List.not_mem_nil, false_imp_iff, implies_true, and_true] at hkeys
    simp only [format, Members.format, KdfParams.format, Members.required, Members.defaulted, Members.member, Members.none,
      List.map_cons, List.map_nil, List.zip_cons_cons, List.zip_nil_left, extent, extentMembers, Format.text,
      Format.unsigned, Nat.zero_add, hspace]
    have := hdigits w.version
    have := hdigits w.kdf.r
    have := hdigits w.kdf.p
    omega
  calc w.toJson.length
    _ ≤ 4 * (format.toText .pretty w).length := length_utf8_le _
    _ ≤ 4 * 2000 := Nat.mul_le_mul_left 4 ((length_write_le _ 0).trans hextent)
    _ ≤ maxWalletFileBytes := by decide

/-- What `save` writes is what `read` reads. -/
theorem readText_toJson {w : Wallet} (hversion : w.version = walletVersion) (hsize : w.toJson.length ≤ maxWalletFileBytes) :
    readText w.toJson = .ok w := by
  have hdecode : w.toJson.toByteArray.utf8Decode? = some (format.toText .pretty w).toArray := List.utf8Decode?_utf8Encode
  rw [readText, if_neg (Nat.not_lt.mpr hsize), hdecode]
  dsimp only
  rw [format.ofText_toText Json.readsHex_hexValue]
  exact if_neg (not_not.mpr hversion)

end Wallet

/-! ## Keys -/

section
variable [Blake3] [Scrypt] [Aes256Gcm] [SecretKeys]

/-- `derive_address` (lib.rs:214). -/
def deriveAddress (secret : Secret) : Address := .fromPublicKey (SecretKeys.signingKey secret).publicKey.toList

/-- `derive_encryption_key` (lib.rs:221), with `KdfParams::validate` (lib.rs:70). -/
def deriveEncryptionKey (password : String) (salt : Bytes) (kdf : KdfParams) : Except WalletError (Vector UInt8 32) :=
  if kdf.logN < 14 then .error .weakKdfParameters
  else if Scrypt.accepts kdf.logN kdf.r kdf.p = false then .error .keyDerivationFailed
  else .ok (Scrypt.derive (utf8 password.toList) salt kdf.logN kdf.r kdf.p)

/-- `encrypt_private_key` (lib.rs:233), with the random salt and nonce. -/
def encryptPrivateKey (secret : Secret) (password : String) (kdf : KdfParams) (salt : Vector UInt8 32)
    (nonce : Vector UInt8 12) : Except WalletError EncryptedKey :=
  match deriveEncryptionKey password salt.toList kdf with
  | .error e => .error e
  | .ok key => .ok ⟨Aes256Gcm.encrypt key nonce.toList secret.toList, salt.toList, nonce.toList, kdf⟩

/-- `decrypt_private_key` (lib.rs:255). -/
def decryptPrivateKey (encrypted : EncryptedKey) (password : String) : Except WalletError Secret :=
  if encrypted.salt.length ≠ 32 ∨ encrypted.nonce.length ≠ 12 then .error .decryptionFailed
  else
    match deriveEncryptionKey password encrypted.salt encrypted.kdf with
    | .error e => .error e
    | .ok key =>
      ((Aes256Gcm.decrypt key encrypted.nonce encrypted.ciphertext).bind (toArray? 32)).elim
        (.error .decryptionFailed) .ok

namespace Wallet

/-- `Wallet::from_secret` (lib.rs:122). -/
def fromSecret (secret : Secret) (password : String) (salt : Vector UInt8 32) (nonce : Vector UInt8 12) :
    Except WalletError Wallet :=
  match validatePassword password with
  | .error e => .error e
  | .ok () =>
    match encryptPrivateKey secret password .default salt nonce with
    | .error e => .error e
    | .ok encrypted =>
      .ok ⟨displayBytes (deriveAddress secret).toList, encrypted.ciphertext, encrypted.salt, encrypted.nonce,
        walletVersion, encrypted.kdf⟩

omit [Blake3] [Scrypt] [Aes256Gcm] [SecretKeys] in
/-- `str::trim_start_matches("0x")`: as often as it stands there. -/
def trimStart0x : List Char → List Char
  | '0' :: 'x' :: rest => trimStart0x rest
  | cs => cs

/-- `Wallet::from_private_key` (lib.rs:112). -/
def fromPrivateKey (privateKeyHex password : String) (salt : Vector UInt8 32) (nonce : Vector UInt8 12) :
    Except WalletError Wallet :=
  match (hexDecode (trimStart0x (trim privateKeyHex).toList)).bind (toArray? 32) with
  | none => .error .invalidPrivateKey
  | some secret => fromSecret secret password salt nonce

/-- `Wallet::load` (lib.rs:173), given what `read` makes of the file. -/
def load (file : Except WalletError Wallet) (password : String) : Except WalletError (Wallet × Secret) :=
  match validatePassword password with
  | .error e => .error e
  | .ok () =>
    match file with
    | .error e => .error e
    | .ok w =>
      match decryptPrivateKey ⟨w.encryptedKey, w.salt, w.nonce, w.kdf⟩ password with
      | .error e => .error e
      | .ok secret =>
        if w.address ≠ displayBytes (deriveAddress secret).toList then .error .addressMismatch else .ok (w, secret)

/-! ## A saved wallet opens -/

omit [Blake3] [Aes256Gcm] [SecretKeys] in
theorem deriveEncryptionKey_default (password : String) (salt : Bytes) :
    deriveEncryptionKey password salt .default = .ok (Scrypt.derive (utf8 password.toList) salt 15 8 1) := by
  have haccepts : Scrypt.accepts KdfParams.default.logN KdfParams.default.r KdfParams.default.p = true := Scrypt.standard
  rw [deriveEncryptionKey, if_neg (by decide), haccepts, if_neg nofun]
  rfl

/-- `from_secret` in full: a password that is long enough is all it takes. -/
theorem fromSecret_ok_iff {secret : Secret} {password : String} {salt : Vector UInt8 32} {nonce : Vector UInt8 12} {w : Wallet} :
    fromSecret secret password salt nonce = .ok w ↔ minPasswordChars ≤ password.toList.length ∧
      w = ⟨displayBytes (deriveAddress secret).toList,
        Aes256Gcm.encrypt (Scrypt.derive (utf8 password.toList) salt.toList 15 8 1) nonce.toList secret.toList,
        salt.toList, nonce.toList, walletVersion, .default⟩ := by
  unfold fromSecret encryptPrivateKey
  rw [deriveEncryptionKey_default, ← validatePassword_ok_iff]
  cases validatePassword password with
  | error e => exact iff_of_false nofun fun h => nomatch h.1
  | ok u =>
    simp only [Except.ok.injEq, true_and]
    exact eq_comm

/-- What `from_secret` makes can be saved and read. -/
theorem readText_fromSecret {secret : Secret} {password : String} {salt : Vector UInt8 32} {nonce : Vector UInt8 12}
    {w : Wallet} (h : fromSecret secret password salt nonce = .ok w) :
    w.version = walletVersion ∧ readText w.toJson = .ok w := by
  obtain ⟨-, hw⟩ := fromSecret_ok_iff.mp h
  have hversion : w.version = walletVersion := by rw [hw]
  refine ⟨hversion, readText_toJson hversion (length_toJson_le ?_ ?_ ?_ ?_)⟩
  · rw [hw, length_displayBytes, Vector.length_toList]
    exact Nat.le_refl 42
  · rw [hw]
    simp [Aes256Gcm.length_encrypt]
  · simp [hw]
  · simp [hw]

/-- **A wallet opens with its password.** -/
theorem load_fromSecret {secret : Secret} {password : String} {salt : Vector UInt8 32} {nonce : Vector UInt8 12}
    {w : Wallet} (h : fromSecret secret password salt nonce = .ok w) : load (.ok w) password = .ok (w, secret) := by
  obtain ⟨hlong, hw⟩ := fromSecret_ok_iff.mp h
  have hdecrypt : decryptPrivateKey ⟨w.encryptedKey, w.salt, w.nonce, w.kdf⟩ password = .ok secret := by
    have harray : toArray? 32 secret.toList = some secret := toArray?_eq_some_iff.mpr rfl
    rw [hw, decryptPrivateKey, if_neg (by simp), deriveEncryptionKey_default]
    dsimp only
    rw [Aes256Gcm.decrypt_encrypt, Option.bind_some, harray]
    rfl
  rw [load, validatePassword_ok_iff.mpr hlong]
  dsimp only
  rw [hdecrypt]
  exact if_neg (by simp [hw])

omit [Blake3] [Aes256Gcm] [SecretKeys] in
theorem deriveEncryptionKey_ok {password : String} {salt : Bytes} {kdf : KdfParams} {key : Vector UInt8 32}
    (h : deriveEncryptionKey password salt kdf = .ok key) : 14 ≤ kdf.logN := by
  unfold deriveEncryptionKey at h
  split_ifs at h with hweak
  exact UInt8.not_lt.mp hweak

omit [Blake3] [SecretKeys] in
theorem decryptPrivateKey_ok {encrypted : EncryptedKey} {password : String} {secret : Secret}
    (h : decryptPrivateKey encrypted password = .ok secret) : 14 ≤ encrypted.kdf.logN := by
  unfold decryptPrivateKey at h
  split_ifs at h
  cases hkey : deriveEncryptionKey password encrypted.salt encrypted.kdf with
  | error e => simp [hkey] at h
  | ok key => exact deriveEncryptionKey_ok hkey

/-- **Whatever a file holds**, if it opens, then the key is that of the address it claims, and the password was checked
at no less than the least cost. -/
theorem load_ok {file : Except WalletError Wallet} {password : String} {w : Wallet} {secret : Secret}
    (h : load file password = .ok (w, secret)) :
    minPasswordChars ≤ password.toList.length ∧ file = .ok w ∧ 14 ≤ w.kdf.logN ∧
      w.address = displayBytes (deriveAddress secret).toList := by
  unfold load at h
  cases hpassword : validatePassword password with
  | error e => simp [hpassword] at h
  | ok u =>
    cases file with
    | error e => simp [hpassword] at h
    | ok found =>
      simp only [hpassword] at h
      cases hdecrypt : decryptPrivateKey ⟨found.encryptedKey, found.salt, found.nonce, found.kdf⟩ password with
      | error e => simp [hdecrypt] at h
      | ok key =>
        simp only [hdecrypt] at h
        split_ifs at h with haddress
        cases h
        exact ⟨validatePassword_ok_iff.mp hpassword, rfl, decryptPrivateKey_ok hdecrypt, not_not.mp haddress⟩

end Wallet
end
end Subhost
