import PgCrypto.Base.Str
import PgCrypto.Cipher.Padding

/-! # The raw cipher functions

Encryption and decryption dispatch on algorithm, mode and padding through separate
tables. The block ciphers are a parameter: for each key they give a permutation of the
block. Modes and paddings are those of the cipher library.
-/
namespace PgCrypto.Raw
open Str Cipher

inductive Algorithm where
  | aes
  | blowfish
  deriving DecidableEq, Repr

inductive Mode where
  | cbc
  | cfb
  | ecb
  deriving DecidableEq, Repr

inductive Padding where
  | pkcs
  | none
  deriving DecidableEq, Repr

/-- The block ciphers, keyed. Blowfish takes keys of 4 to 56 bytes. The text is that of the
panic on so many bytes that are not padded and no multiple of the block size. -/
structure Ciphers where
  aes128 : Block 16 → Equiv.Perm (Block 16)
  aes192 : Block 24 → Equiv.Perm (Block 16)
  aes256 : Block 32 → Equiv.Perm (Block 16)
  blowfish : {key : Bytes // 4 ≤ key.length ∧ key.length ≤ 56} → Equiv.Perm (Block 8)
  unalignedText : ℕ → ℕ → String

variable {α : Type} {n : ℕ}

def rawError (message : String) : Outcome α := raise ("raw cipher error: " ++ message)

def orRawError (message : String) : Option α → Outcome α
  | some a => .ok a
  | none => rawError message

section CipherType

def parsePadding (right : String) : Outcome Padding :=
  match right with
  | "pad:pkcs" => .ok .pkcs
  | "pad:none" => .ok .none
  | _ => rawError "padding must be pad:pkcs or pad:none"

def parseCipherMode (cipherMode : String) : Outcome (Algorithm × Mode) :=
  match cipherMode with
  | "aes" | "aes-cbc" | "rijndael" | "rijndael-cbc" => .ok (.aes, .cbc)
  | "aes-cfb" | "rijndael-cfb" => .ok (.aes, .cfb)
  | "aes-ecb" | "rijndael-ecb" => .ok (.aes, .ecb)
  | "bf" | "bf-cbc" | "blowfish" | "blowfish-cbc" => .ok (.blowfish, .cbc)
  | "bf-cfb" | "blowfish-cfb" => .ok (.blowfish, .cfb)
  | "bf-ecb" | "blowfish-ecb" => .ok (.blowfish, .ecb)
  | _ => rawError "cipher must be aes or bf with cbc, cfb, or ecb mode"

def parseType (cipherType : String) : Outcome (Algorithm × Mode × Padding) := do
  let normalized := toAsciiLowercase cipherType
  let (cipherMode, padding) ← match splitOnce normalized '/' with
    | none => .ok (normalized, .pkcs)
    | some (left, right) => do
      let padding ← parsePadding right
      .ok (left, padding)
  let (algorithm, mode) ← parseCipherMode cipherMode
  .ok (algorithm, mode, padding)

end CipherType

section Keys

/-- The input cut or filled up with zeros to `N` bytes. -/
def fixed (N : ℕ) (input : Bytes) : Block N := Block.fixed N input

inductive AesKey where
  | aes128 (key : Block 16)
  | aes192 (key : Block 24)
  | aes256 (key : Block 32)
  deriving DecidableEq

def aesKey (input : Bytes) : Outcome AesKey :=
  if input.length ≤ 16 then .ok (.aes128 (fixed 16 input))
  else if input.length ≤ 24 then .ok (.aes192 (fixed 24 input))
  else if input.length ≤ 32 then .ok (.aes256 (fixed 32 input))
  else rawError "AES key must not exceed 32 bytes"

/-- The loop that repeats a short key. -/
def extendKey (original : Bytes) (h : original ≠ []) (output : Bytes) : Bytes :=
  if output.length < 4 then extendKey original h (output ++ original) else output
termination_by 4 - output.length
decreasing_by
  have hpos := List.length_pos_iff.mpr h
  rw [List.length_append]
  omega

def blowfishKey (key : Bytes) : Bytes :=
  let output := key.take (min key.length 56)
  if h : output ≠ [] ∧ output.length < 4 then extendKey output h.1 output else output

/-- Construction from a key slice. -/
def newBlowfish (C : Ciphers) (key : Bytes) : Option (Equiv.Perm (Block 8)) :=
  if h : 4 ≤ key.length ∧ key.length ≤ 56 then some (C.blowfish ⟨key, h⟩) else none

end Keys

/-- The library panics on data that a padding refuses. -/
def encryptPaddedVec (C : Ciphers) (mode : BlockMode (Block n)) (scheme : PaddingScheme)
    (data : Bytes) : Outcome Bytes :=
  match encryptPadded mode scheme data with
  | some out => .ok out
  | none => abort (C.unalignedText data.length n)

section Aes

/-- The table of `encrypt_aes_with!`, for one keyed cipher. -/
def encryptAesWith (C : Ciphers) (cipher : Equiv.Perm (Block 16)) (iv : Block 16) (mode : Mode)
    (padding : Padding) (data : Bytes) : Outcome Bytes :=
  match mode with
  | .cbc => match padding with
    | .pkcs => encryptPaddedVec C (cbc cipher iv) .pkcs7 data
    | .none => encryptPaddedVec C (cbc cipher iv) .noPadding data
  | .ecb => match padding with
    | .pkcs => encryptPaddedVec C (ecb cipher) .pkcs7 data
    | .none => encryptPaddedVec C (ecb cipher) .noPadding data
  | .cfb => .ok (cfbEncryptBytes cipher iv data)

/-- The table of `decrypt_aes_with!`. -/
def decryptAesWith (cipher : Equiv.Perm (Block 16)) (iv : Block 16) (mode : Mode) (padding : Padding)
    (data : Bytes) : Outcome Bytes :=
  match mode with
  | .cbc => match padding with
    | .pkcs => orRawError "invalid ciphertext or padding" (decryptPadded (cbc cipher iv) .pkcs7 data)
    | .none => orRawError "ciphertext is not block aligned" (decryptPadded (cbc cipher iv) .noPadding data)
  | .ecb => match padding with
    | .pkcs => orRawError "invalid ciphertext or padding" (decryptPadded (ecb cipher) .pkcs7 data)
    | .none => orRawError "ciphertext is not block aligned" (decryptPadded (ecb cipher) .noPadding data)
  | .cfb => .ok (cfbDecryptBytes cipher iv data)

def encryptAes (C : Ciphers) (data key iv : Bytes) (mode : Mode) (padding : Padding) : Outcome Bytes := do
  let iv := fixed 16 iv
  match ← aesKey key with
  | .aes128 key => encryptAesWith C (C.aes128 key) iv mode padding data
  | .aes192 key => encryptAesWith C (C.aes192 key) iv mode padding data
  | .aes256 key => encryptAesWith C (C.aes256 key) iv mode padding data

def decryptAes (C : Ciphers) (data key iv : Bytes) (mode : Mode) (padding : Padding) : Outcome Bytes := do
  let iv := fixed 16 iv
  match ← aesKey key with
  | .aes128 key => decryptAesWith (C.aes128 key) iv mode padding data
  | .aes192 key => decryptAesWith (C.aes192 key) iv mode padding data
  | .aes256 key => decryptAesWith (C.aes256 key) iv mode padding data

end Aes

section Blowfish

def encryptBlowfish (C : Ciphers) (data key iv : Bytes) (mode : Mode) (padding : Padding) :
    Outcome Bytes := do
  let key := blowfishKey key
  let iv := fixed 8 iv
  match mode with
  | .cbc => match padding with
    | .pkcs => do
      let cipher ← orRawError "invalid Blowfish key" (newBlowfish C key)
      encryptPaddedVec C (cbc cipher iv) .pkcs7 data
    | .none => do
      let cipher ← orRawError "invalid Blowfish key" (newBlowfish C key)
      encryptPaddedVec C (cbc cipher iv) .noPadding data
  | .ecb => match padding with
    | .pkcs => do
      let cipher ← orRawError "invalid Blowfish key" (newBlowfish C key)
      encryptPaddedVec C (ecb cipher) .pkcs7 data
    | .none => do
      let cipher ← orRawError "invalid Blowfish key" (newBlowfish C key)
      encryptPaddedVec C (ecb cipher) .noPadding data
  | .cfb => do
    let cipher ← orRawError "invalid Blowfish key" (newBlowfish C key)
    .ok (cfbEncryptBytes cipher iv data)

def decryptBlowfish (C : Ciphers) (data key iv : Bytes) (mode : Mode) (padding : Padding) :
    Outcome Bytes := do
  let key := blowfishKey key
  let iv := fixed 8 iv
  match mode with
  | .cbc => match padding with
    | .pkcs => do
      let cipher ← orRawError "invalid Blowfish key" (newBlowfish C key)
      orRawError "invalid ciphertext or padding" (decryptPadded (cbc cipher iv) .pkcs7 data)
    | .none => do
      let cipher ← orRawError "invalid Blowfish key" (newBlowfish C key)
      orRawError "ciphertext is not block aligned" (decryptPadded (cbc cipher iv) .noPadding data)
  | .ecb => match padding with
    | .pkcs => do
      let cipher ← orRawError "invalid Blowfish key" (newBlowfish C key)
      orRawError "invalid ciphertext or padding" (decryptPadded (ecb cipher) .pkcs7 data)
    | .none => do
      let cipher ← orRawError "invalid Blowfish key" (newBlowfish C key)
      orRawError "ciphertext is not block aligned" (decryptPadded (ecb cipher) .noPadding data)
  | .cfb => do
    let cipher ← orRawError "invalid Blowfish key" (newBlowfish C key)
    .ok (cfbDecryptBytes cipher iv data)

end Blowfish

def transform (C : Ciphers) (data key iv : Bytes) (cipherType : String) (decrypting : Bool) :
    Outcome Bytes := do
  let (algorithm, mode, padding) ← parseType cipherType
  match algorithm, decrypting with
  | .aes, false => encryptAes C data key iv mode padding
  | .aes, true => decryptAes C data key iv mode padding
  | .blowfish, false => encryptBlowfish C data key iv mode padding
  | .blowfish, true => decryptBlowfish C data key iv mode padding

def encrypt (C : Ciphers) (data key : Bytes) (cipherType : String) : Outcome Bytes :=
  transform C data key [] cipherType false

def decrypt (C : Ciphers) (data key : Bytes) (cipherType : String) : Outcome Bytes :=
  transform C data key [] cipherType true

def encryptIv (C : Ciphers) (data key iv : Bytes) (cipherType : String) : Outcome Bytes :=
  transform C data key iv cipherType false

def decryptIv (C : Ciphers) (data key iv : Bytes) (cipherType : String) : Outcome Bytes :=
  transform C data key iv cipherType true

end PgCrypto.Raw
