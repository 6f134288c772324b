import PgCrypto.Cipher.Block

/-! # Secret boxes, sealed boxes and detached signatures

Each function checks the lengths of its arguments, calls the library, and joins or
slices envelopes by fixed offsets. The library is a parameter over the records it
exchanges; its laws say how the records are serialized and that opening inverts
sealing and verification accepts what was signed.
-/
namespace PgCrypto.Modern
open Cipher

def secretboxNonceBytes : ℕ := 24
def secretboxMacBytes : ℕ := 16
def boxPublicKeyBytes : ℕ := 32
def boxSealBytes : ℕ := 48
def signBytes : ℕ := 64

/-- A secret box: the MAC and the ciphertext. -/
structure SecretBox where
  mac : Block 16
  data : Bytes
  deriving DecidableEq

/-- A sealed box, with the public key it was sealed by. -/
structure SealedBox where
  ephemeralPublicKey : Block 32
  mac : Block 16
  data : Bytes
  deriving DecidableEq

structure BoxKeyPair where
  publicKey : Block 32
  secretKey : Block 32
  deriving DecidableEq

structure SigningKeyPair where
  publicKey : Block 32
  secretKey : Block 64
  deriving DecidableEq

structure SignedMessage where
  signature : Block 64
  message : Bytes
  deriving DecidableEq

/-- The library's operations, with the derivations its keys come from. -/
structure Dryoc where
  Rng : Type
  generateNonce : Rng → Block 24 × Rng
  encryptToVecbox : Bytes → Block 24 → Block 32 → SecretBox
  secretBoxToVec : SecretBox → Bytes
  secretBoxFromBytes : Bytes → Except String SecretBox
  decryptToVec : SecretBox → Block 24 → Block 32 → Except String Bytes
  sealToVecbox : Bytes → Block 32 → Rng → Except String (SealedBox × Rng)
  sealedBoxToBytes : SealedBox → Bytes
  unsealToVec : SealedBox → BoxKeyPair → Except String Bytes
  secretKeyToPublicKey : Block 64 → Block 32
  signWithDefaults : SigningKeyPair → Bytes → Except String SignedMessage
  signedMessageToVec : SignedMessage → Bytes
  signedMessageFromBytes : Bytes → Except String SignedMessage
  verify : SignedMessage → Block 32 → Except String Unit
  keyPairFromSecretKey : Block 32 → BoxKeyPair
  signingKeyPairFromSeed : Block 32 → SigningKeyPair

def Dryoc.keyPair (D : Dryoc) (pair : BoxKeyPair) : Prop :=
  ∃ secretKey, pair = D.keyPairFromSecretKey secretKey

def Dryoc.signingKey (D : Dryoc) (secretKey : Block 64) : Prop :=
  ∃ seed, secretKey = (D.signingKeyPairFromSeed seed).secretKey

/-- Records are serialized in the order of their fields and read back so; opening
inverts sealing, and a signature by a signing key verifies under its public key. -/
structure Dryoc.Laws (D : Dryoc) : Prop where
  secretBoxToVec_eq : ∀ box, D.secretBoxToVec box = box.mac.bytes ++ box.data
  secretBoxFromBytes_eq : ∀ bytes, 16 ≤ bytes.length →
    D.secretBoxFromBytes bytes = .ok ⟨Block.fixed 16 bytes, bytes.drop 16⟩
  decrypt_encrypt : ∀ data nonce key,
    D.decryptToVec (D.encryptToVecbox data nonce key) nonce key = .ok data
  sealedBoxToBytes_eq : ∀ box,
    D.sealedBoxToBytes box = box.ephemeralPublicKey.bytes ++ box.mac.bytes ++ box.data
  unseal_seal : ∀ pair data rng, D.keyPair pair → ∃ box rng',
    D.sealToVecbox data pair.publicKey rng = .ok (box, rng') ∧ D.unsealToVec box pair = .ok data
  signedMessageToVec_eq : ∀ signed, D.signedMessageToVec signed = signed.signature.bytes ++ signed.message
  signedMessageFromBytes_eq : ∀ bytes, 64 ≤ bytes.length →
    D.signedMessageFromBytes bytes = .ok ⟨Block.fixed 64 bytes, bytes.drop 64⟩
  verify_sign : ∀ secretKey data, D.signingKey secretKey → ∃ signature,
    D.signWithDefaults ⟨D.secretKeyToPublicKey secretKey, secretKey⟩ data = .ok ⟨signature, data⟩ ∧
      D.verify ⟨signature, data⟩ (D.secretKeyToPublicKey secretKey) = .ok ()

def exactArray (N : ℕ) (bytes : Bytes) (what : String) : Outcome (Block N) :=
  if h : bytes.length = N then .ok ⟨bytes, h⟩
  else raise (what ++ " must be exactly " ++ toString N ++ " bytes")

variable (D : Dryoc)

def secretbox (data key : Bytes) (rng : D.Rng) : Outcome (Bytes × D.Rng) := do
  let key ← exactArray 32 key "secretbox key"
  let (nonce, rng) := D.generateNonce rng
  let encrypted := D.encryptToVecbox data nonce key
  .ok (nonce.bytes ++ D.secretBoxToVec encrypted, rng)

def secretboxOpen (data key : Bytes) : Outcome Bytes :=
  if data.length < secretboxNonceBytes + secretboxMacBytes then
    raise "secretbox envelope is too short"
  else do
    let key ← exactArray 32 key "secretbox key"
    let nonceBytes ← sliceTo data secretboxNonceBytes
    let nonce ← exactArray 24 nonceBytes "secretbox nonce"
    let boxBytes ← sliceFrom data secretboxNonceBytes
    let box ← orRaise "invalid secretbox envelope" (D.secretBoxFromBytes boxBytes)
    orRaise "secretbox authentication failed" (D.decryptToVec box nonce key)

def boxSeal (data recipientPublicKey : Bytes) (rng : D.Rng) : Outcome (Bytes × D.Rng) := do
  let publicKey ← exactArray 32 recipientPublicKey "X25519 public key"
  let (box, rng) ← orRaise "sealed-box encryption failed" (D.sealToVecbox data publicKey rng)
  .ok (D.sealedBoxToBytes box, rng)

def boxSealOpen (data recipientPublicKey recipientSecretKey : Bytes) : Outcome Bytes :=
  if data.length < boxSealBytes then raise "sealed box is too short"
  else do
    let publicKey ← exactArray 32 recipientPublicKey "X25519 public key"
    let secretKey ← exactArray 32 recipientSecretKey "X25519 secret key"
    let keypair : BoxKeyPair := ⟨publicKey, secretKey⟩
    let ephemeralBytes ← sliceTo data boxPublicKeyBytes
    let ephemeralPublicKey ← exactArray 32 ephemeralBytes "sealed-box ephemeral public key"
    let macBytes ← slice data boxPublicKeyBytes boxSealBytes
    let mac ← exactArray 16 macBytes "sealed-box MAC"
    let ciphertext ← sliceFrom data boxSealBytes
    orRaise "sealed-box authentication failed"
      (D.unsealToVec ⟨ephemeralPublicKey, mac, ciphertext⟩ keypair)

def ed25519Sign (data secretKey : Bytes) : Outcome Bytes := do
  let secretKey ← exactArray 64 secretKey "Ed25519 secret key"
  let publicKey := D.secretKeyToPublicKey secretKey
  let keypair : SigningKeyPair := ⟨publicKey, secretKey⟩
  let signed ← orRaise "Ed25519 signing failed" (D.signWithDefaults keypair data)
  sliceTo (D.signedMessageToVec signed) signBytes

def ed25519Verify (data signature publicKey : Bytes) : Outcome Bool := do
  let signature ← exactArray 64 signature "Ed25519 signature"
  let publicKey ← exactArray 32 publicKey "Ed25519 public key"
  let signed := signature.bytes ++ data
  .ok (match D.signedMessageFromBytes signed >>= fun message => D.verify message publicKey with
    | .ok _ => true
    | .error _ => false)

end PgCrypto.Modern
