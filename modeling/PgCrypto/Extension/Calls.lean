import PgCrypto.Armor.Model
import PgCrypto.Hash.Digest
import PgCrypto.Modern.Aead
import PgCrypto.Modern.Derive
import PgCrypto.Password.Crypt
import PgCrypto.Pgp.PublicKey
import PgCrypto.Random.Bytes
import PgCrypto.Raw.Cipher

/-! # The functions of the extension

The modules of the extension come together as one set of SQL functions. A call names a
function and its arguments, and a session holds what the functions keep between calls,
which is the state of the random generators. A failed call leaves the generators in some
state, so a run may go on from any session after it. The clock and the source of salts
are found anew by each call.
-/
namespace PgCrypto.Extension
open Cipher

structure Libraries where
  ciphers : Raw.Ciphers
  hashes : Hash.Hashes
  generator : Random.Generator
  pwhash : Password.Pwhash
  dryoc : Modern.Dryoc
  aead : Modern.Aead
  argon2 : Modern.Argon2
  scalarmult : Block 32 → Block 32 → Except String (Block 32)
  hkdf : Modern.Hkdf
  armor : Armor.Library
  sequoia : Pgp.Sequoia

/-- What a call finds outside of the session. -/
structure Surroundings (L : Libraries) where
  now : Pgp.Time
  salts : L.pwhash.Rng

structure Session (L : Libraries) where
  generator : L.generator.Rng
  dryoc : L.dryoc.Rng
  aead : L.aead.Rng
  argon2 : L.argon2.Rng
  sequoia : L.sequoia.Rng

inductive Value where
  | bytea (bytes : Bytes)
  | text (text : String)
  | boolean (flag : Bool)
  | uuid (id : Block 16)
  | headers (rows : List (String × String))

/-- The calls, module by module. Overloads are told apart as in the source. -/
inductive Call where
  | digestBytea (data : Bytes) (algorithm : String)
  | digestText (data algorithm : String)
  | hmacBytea (data key : Bytes) (algorithm : String)
  | hmacText (data key algorithm : String)
  | blake2b (data : Bytes)
  | sha3_256 (data : Bytes)
  | sha3_512 (data : Bytes)
  | fipsMode
  | genRandomBytes (length : Int32)
  | randomBytes (length : Int32)
  | genRandomUuid
  | encrypt (data key : Bytes) (cipherType : String)
  | decrypt (data key : Bytes) (cipherType : String)
  | encryptIv (data key iv : Bytes) (cipherType : String)
  | decryptIv (data key iv : Bytes) (cipherType : String)
  | crypt (password salt : String)
  | genSalt (algorithm : String) (rounds : Int32)
  | argon2idHash (password : String)
  | argon2idVerify (password encodedHash : String)
  | xchacha20poly1305Encrypt (data key associatedData : Bytes)
  | xchacha20poly1305Decrypt (data key associatedData : Bytes)
  | secretbox (data key : Bytes)
  | secretboxOpen (data key : Bytes)
  | boxSeal (data recipientPublicKey : Bytes)
  | boxSealOpen (data recipientPublicKey recipientSecretKey : Bytes)
  | ed25519Sign (data secretKey : Bytes)
  | ed25519Verify (data signature publicKey : Bytes)
  | x25519 (secretKey publicKey : Bytes)
  | hkdfSha256 (keyMaterial salt info : Bytes) (length : Int32)
  | hkdfSha512 (keyMaterial salt info : Bytes) (length : Int32)
  | armor (data : Bytes)
  | armorWithHeaders (data : Bytes) (keys values : Armor.TextArray)
  | dearmor (data : String)
  | pgpArmorHeaders (data : String)
  | pgpSymEncrypt (data : Pgp.PgText) (password options : String)
  | pgpSymEncryptBytea (data : Bytes) (password options : String)
  | pgpSymDecrypt (data : Bytes) (password options : String)
  | pgpSymDecryptBytea (data : Bytes) (password options : String)
  | pgpPubEncrypt (data : Pgp.PgText) (publicKey : Bytes) (options : String)
  | pgpPubEncryptBytea (data publicKey : Bytes) (options : String)
  | pgpPubDecrypt (data secretKey : Bytes) (password options : String)
  | pgpPubDecryptBytea (data secretKey : Bytes) (password options : String)
  | pgpKeyId (data : Bytes)

section Calls
variable (L : Libraries) (s : Session L)

def returning {α : Type} (value : α → Value) (x : Outcome α) : Outcome (Value × Session L) := do
  let a ← x
  .ok (value a, s)

def drawing {α ρ : Type} (value : α → Value) (next : ρ → Session L) (x : Outcome (α × ρ)) :
    Outcome (Value × Session L) := do
  let result ← x
  .ok (value result.1, next result.2)

def Call.run (around : Surroundings L) : Call → Outcome (Value × Session L)
  | .digestBytea data algorithm => returning L s .bytea (Hash.digestBytea L.hashes data algorithm)
  | .digestText data algorithm => returning L s .bytea (Hash.digestText L.hashes data algorithm)
  | .hmacBytea data key algorithm => returning L s .bytea (Hash.hmacBytea L.hashes data key algorithm)
  | .hmacText data key algorithm => returning L s .bytea (Hash.hmacText L.hashes data key algorithm)
  | .blake2b data => returning L s .bytea (Hash.blake2b L.hashes data)
  | .sha3_256 data => returning L s .bytea (Hash.sha3_256 L.hashes data)
  | .sha3_512 data => returning L s .bytea (Hash.sha3_512 L.hashes data)
  | .fipsMode => returning L s .boolean (.ok Hash.fipsMode)
  | .genRandomBytes length => drawing L .bytea (fun rng => { s with generator := rng })
      (Random.genRandomBytes L.generator length s.generator)
  | .randomBytes length => drawing L .bytea (fun rng => { s with generator := rng })
      (Random.randomBytes L.generator length s.generator)
  | .genRandomUuid => drawing L .uuid (fun rng => { s with generator := rng })
      (.ok (Random.genRandomUuid L.generator s.generator))
  | .encrypt data key cipherType => returning L s .bytea (Raw.encrypt L.ciphers data key cipherType)
  | .decrypt data key cipherType => returning L s .bytea (Raw.decrypt L.ciphers data key cipherType)
  | .encryptIv data key iv cipherType =>
      returning L s .bytea (Raw.encryptIv L.ciphers data key iv cipherType)
  | .decryptIv data key iv cipherType =>
      returning L s .bytea (Raw.decryptIv L.ciphers data key iv cipherType)
  | .crypt password salt => returning L s .text (Password.crypt L.pwhash password salt)
  | .genSalt algorithm rounds => returning L s .text (Password.genSalt L.pwhash around.salts algorithm rounds)
  | .argon2idHash password => drawing L .text (fun rng => { s with argon2 := rng })
      (Modern.argon2idHash L.argon2 password s.argon2)
  | .argon2idVerify password encodedHash =>
      returning L s .boolean (.ok (Modern.argon2idVerify L.argon2 password encodedHash))
  | .xchacha20poly1305Encrypt data key associatedData => drawing L .bytea (fun rng => { s with aead := rng })
      (Modern.xchacha20poly1305Encrypt L.aead data key associatedData s.aead)
  | .xchacha20poly1305Decrypt data key associatedData =>
      returning L s .bytea (Modern.xchacha20poly1305Decrypt L.aead data key associatedData)
  | .secretbox data key => drawing L .bytea (fun rng => { s with dryoc := rng })
      (Modern.secretbox L.dryoc data key s.dryoc)
  | .secretboxOpen data key => returning L s .bytea (Modern.secretboxOpen L.dryoc data key)
  | .boxSeal data publicKey => drawing L .bytea (fun rng => { s with dryoc := rng })
      (Modern.boxSeal L.dryoc data publicKey s.dryoc)
  | .boxSealOpen data publicKey secretKey =>
      returning L s .bytea (Modern.boxSealOpen L.dryoc data publicKey secretKey)
  | .ed25519Sign data secretKey => returning L s .bytea (Modern.ed25519Sign L.dryoc data secretKey)
  | .ed25519Verify data signature publicKey =>
      returning L s .boolean (Modern.ed25519Verify L.dryoc data signature publicKey)
  | .x25519 secretKey publicKey => returning L s .bytea (Modern.x25519 L.scalarmult secretKey publicKey)
  | .hkdfSha256 keyMaterial salt info length =>
      returning L s .bytea (Modern.hkdfSha256 L.hkdf keyMaterial salt info length)
  | .hkdfSha512 keyMaterial salt info length =>
      returning L s .bytea (Modern.hkdfSha512 L.hkdf keyMaterial salt info length)
  | .armor data => returning L s .text (Armor.armor L.armor data)
  | .armorWithHeaders data keys values =>
      returning L s .text (Armor.armorWithHeaders L.armor data keys values)
  | .dearmor data => returning L s .bytea (Armor.dearmor L.armor data)
  | .pgpArmorHeaders data => returning L s .headers (Armor.pgpArmorHeaders L.armor data)
  | .pgpSymEncrypt data password options => drawing L .bytea (fun rng => { s with sequoia := rng })
      (Pgp.pgpSymEncrypt L.sequoia data password options s.sequoia)
  | .pgpSymEncryptBytea data password options => drawing L .bytea (fun rng => { s with sequoia := rng })
      (Pgp.pgpSymEncryptBytea L.sequoia data password options s.sequoia)
  | .pgpSymDecrypt data password options =>
      returning L s .text (Pgp.pgpSymDecrypt L.sequoia data password options)
  | .pgpSymDecryptBytea data password options =>
      returning L s .bytea (Pgp.pgpSymDecryptBytea L.sequoia data password options)
  | .pgpPubEncrypt data publicKey options => drawing L .bytea (fun rng => { s with sequoia := rng })
      (Pgp.pgpPubEncrypt L.sequoia data publicKey options around.now s.sequoia)
  | .pgpPubEncryptBytea data publicKey options => drawing L .bytea (fun rng => { s with sequoia := rng })
      (Pgp.pgpPubEncryptBytea L.sequoia data publicKey options around.now s.sequoia)
  | .pgpPubDecrypt data secretKey password options =>
      returning L s .text (Pgp.pgpPubDecrypt L.sequoia data secretKey password options)
  | .pgpPubDecryptBytea data secretKey password options =>
      returning L s .bytea (Pgp.pgpPubDecryptBytea L.sequoia data secretKey password options)
  | .pgpKeyId data => returning L s .text (Pgp.pgpKeyId L.sequoia data around.now)

end Calls

/-- One call somewhere in time, with what it gave. -/
inductive Step (L : Libraries) : Session L → Call × Outcome Value → Session L → Prop
  | returned {s s' : Session L} {call : Call} {around : Surroundings L} {value : Value}
      (h : call.run L s around = .ok (value, s')) : Step L s (call, .ok value) s'
  | failed {s : Session L} {call : Call} {around : Surroundings L} {failure : Failure}
      (h : call.run L s around = .error failure) (s' : Session L) : Step L s (call, .error failure) s'

inductive Runs (L : Libraries) : Session L → List (Call × Outcome Value) → Session L → Prop
  | nil (s : Session L) : Runs L s [] s
  | cons {s t u : Session L} {entry : Call × Outcome Value} {log : List (Call × Outcome Value)}
      (h : Step L s entry t) (hlog : Runs L t log u) : Runs L s (entry :: log) u

end PgCrypto.Extension
