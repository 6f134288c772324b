import Mathlib.Logic.Equiv.Basic
import PgCrypto.Raw.Cipher

/-! # Raw encryption and decryption are inverse partial functions

Each entry of the encryption table and the entry of the decryption table for the same
mode and padding undo each other, so the two dispatches do, for every key that gives
a cipher. The length of a ciphertext only depends on the type and the length of the
data.
-/
namespace PgCrypto.Raw
open Str Cipher

/-- Each call undoes the other wherever it returns. -/
def PartialInverse (enc dec : Bytes → Outcome Bytes) : Prop :=
  ∀ data out, enc data = .ok out ↔ dec out = .ok data

def blockSize : Algorithm → ℕ
  | .aes => 16
  | .blowfish => 8

def scheme : Padding → PaddingScheme
  | .pkcs => .pkcs7
  | .none => .noPadding

section Runs
variable {C : Ciphers} {n : ℕ} (cipher : Equiv.Perm (Block n)) (iv : Block n)

@[simp] theorem orRawError_eq_ok {α : Type} {message : String} {x : Option α} {a : α} :
    orRawError message x = .ok a ↔ x = some a := by
  cases x with
  | none => simp [orRawError, rawError]
  | some b => simp [orRawError]

@[simp] theorem encryptPaddedVec_eq_ok {mode : BlockMode (Block n)} {scheme : PaddingScheme}
    {data out : Bytes} :
    encryptPaddedVec C mode scheme data = .ok out ↔ encryptPadded mode scheme data = some out := by
  unfold encryptPaddedVec
  cases encryptPadded mode scheme data with
  | none => simp
  | some b => simp

/-- The block mode of a mode; CFB has none. -/
def blockMode : Mode → Option (BlockMode (Block n))
  | .cbc => some (cbc cipher iv)
  | .ecb => some (ecb cipher)
  | .cfb => none

variable (C) in
/-- One encryption, for any block length. -/
def encryptWith (mode : Mode) (padding : Padding) (data : Bytes) : Outcome Bytes :=
  match blockMode cipher iv mode with
  | some run => encryptPaddedVec C run (scheme padding) data
  | none => .ok (cfbEncryptBytes cipher iv data)

def decryptWith (mode : Mode) (padding : Padding) (data : Bytes) : Outcome Bytes :=
  match blockMode cipher iv mode with
  | some run => orRawError (match padding with
      | .pkcs => "invalid ciphertext or padding"
      | .none => "ciphertext is not block aligned") (decryptPadded run (scheme padding) data)
  | none => .ok (cfbDecryptBytes cipher iv data)

theorem encryptWith_inverse (hn : 0 < n) (hn' : n < 256) (mode : Mode) (padding : Padding) :
    PartialInverse (encryptWith C cipher iv mode padding) (decryptWith cipher iv mode padding) := by
  intro data out
  unfold encryptWith decryptWith
  cases blockMode cipher iv mode with
  | some run =>
    dsimp only
    rw [encryptPaddedVec_eq_ok, orRawError_eq_ok]
    exact encryptPadded_eq_some_iff hn hn' run (scheme padding)
  | none =>
    simp only [Except.ok.injEq]
    constructor
    · rintro rfl
      exact cfbDecryptBytes_cfbEncryptBytes cipher iv hn data
    · rintro rfl
      exact cfbEncryptBytes_cfbDecryptBytes cipher iv hn out

/-- The length of a ciphertext: CFB adds nothing, the block modes what the padding adds. -/
def outputLength (n : ℕ) : Mode → Padding → ℕ → ℕ
  | .cfb, _, length => length
  | _, .none, length => length
  | _, .pkcs, length => (length / n + 1) * n

theorem length_encryptWith (hn : 0 < n) {mode : Mode} {padding : Padding} {data out : Bytes}
    (h : encryptWith C cipher iv mode padding data = .ok out) :
    out.length = outputLength n mode padding data.length := by
  have hpadded : ∀ run : BlockMode (Block n), encryptPaddedVec C run (scheme padding) data = .ok out →
      out.length = paddedLength n (scheme padding) data.length := by
    intro run hrun
    exact length_encryptPadded hn (encryptPaddedVec_eq_ok.mp hrun)
  cases mode with
  | cbc =>
    rw [hpadded (cbc cipher iv) h]
    cases padding <;> rfl
  | ecb =>
    rw [hpadded (ecb cipher) h]
    cases padding <;> rfl
  | cfb =>
    cases h
    exact length_cfbEncryptBytes cipher iv hn data

end Runs

section Tables

/-- The hand-written tables select the same run in both directions. -/
theorem encryptAesWith_eq (C : Ciphers) (cipher : Equiv.Perm (Block 16)) (iv : Block 16) (mode : Mode)
    (padding : Padding) (data : Bytes) :
    encryptAesWith C cipher iv mode padding data = encryptWith C cipher iv mode padding data := by
  cases mode <;> cases padding <;> rfl

theorem decryptAesWith_eq (cipher : Equiv.Perm (Block 16)) (iv : Block 16) (mode : Mode)
    (padding : Padding) (data : Bytes) :
    decryptAesWith cipher iv mode padding data = decryptWith cipher iv mode padding data := by
  cases mode <;> cases padding <;> rfl

theorem encryptBlowfish_eq (C : Ciphers) (data key iv : Bytes) (mode : Mode) (padding : Padding) :
    encryptBlowfish C data key iv mode padding =
      orRawError "invalid Blowfish key" (newBlowfish C (blowfishKey key)) >>= fun cipher =>
        encryptWith C cipher (fixed 8 iv) mode padding data := by
  cases mode <;> cases padding <;> rfl

theorem decryptBlowfish_eq (C : Ciphers) (data key iv : Bytes) (mode : Mode) (padding : Padding) :
    decryptBlowfish C data key iv mode padding =
      orRawError "invalid Blowfish key" (newBlowfish C (blowfishKey key)) >>= fun cipher =>
        decryptWith cipher (fixed 8 iv) mode padding data := by
  cases mode <;> cases padding <;> rfl

/-- The cipher a normalized AES key gives. -/
def AesKey.cipher (C : Ciphers) : AesKey → Equiv.Perm (Block 16)
  | .aes128 key => C.aes128 key
  | .aes192 key => C.aes192 key
  | .aes256 key => C.aes256 key

theorem encryptAes_eq (C : Ciphers) (data key iv : Bytes) (mode : Mode) (padding : Padding) :
    encryptAes C data key iv mode padding =
      aesKey key >>= fun normalized =>
        encryptWith C (normalized.cipher C) (fixed 16 iv) mode padding data := by
  unfold encryptAes
  apply bind_congr
  intro normalized
  cases normalized <;> exact encryptAesWith_eq C _ _ mode padding data

theorem decryptAes_eq (C : Ciphers) (data key iv : Bytes) (mode : Mode) (padding : Padding) :
    decryptAes C data key iv mode padding =
      aesKey key >>= fun normalized => decryptWith (normalized.cipher C) (fixed 16 iv) mode padding data := by
  unfold decryptAes
  apply bind_congr
  intro normalized
  cases normalized <;> exact decryptAesWith_eq _ _ mode padding data

end Tables

/-- Two directions that prepare one value first undo each other if they do for each value. -/
theorem PartialInverse.bind {α : Type} {enc dec : α → Bytes → Outcome Bytes} (x : Outcome α)
    (h : ∀ a, PartialInverse (enc a) (dec a)) :
    PartialInverse (fun data => x >>= fun a => enc a data) (fun out => x >>= fun a => dec a out) := by
  intro data out
  cases x with
  | error e => simp
  | ok a => exact h a data out

theorem transform_inverse (C : Ciphers) (key iv : Bytes) (cipherType : String) :
    PartialInverse (fun data => transform C data key iv cipherType false)
      (fun out => transform C out key iv cipherType true) := by
  refine PartialInverse.bind (parseType cipherType) ?_
  rintro ⟨algorithm, mode, padding⟩
  cases algorithm with
  | aes =>
    simp only [encryptAes_eq, decryptAes_eq]
    apply PartialInverse.bind (aesKey key)
    intro normalized
    exact encryptWith_inverse (normalized.cipher C) (fixed 16 iv) (by decide) (by decide) mode padding
  | blowfish =>
    simp only [encryptBlowfish_eq, decryptBlowfish_eq]
    apply PartialInverse.bind
    intro cipher
    exact encryptWith_inverse cipher (fixed 8 iv) (by decide) (by decide) mode padding

theorem length_transform {C : Ciphers} {key iv data out : Bytes} {cipherType : String}
    (h : transform C data key iv cipherType false = .ok out) :
    ∃ algorithm mode padding, parseType cipherType = .ok (algorithm, mode, padding) ∧
      out.length = outputLength (blockSize algorithm) mode padding data.length := by
  obtain ⟨⟨algorithm, mode, padding⟩, hparse, hout⟩ := bind_eq_ok.mp h
  refine ⟨algorithm, mode, padding, hparse, ?_⟩
  cases algorithm with
  | aes =>
    simp only [encryptAes_eq] at hout
    obtain ⟨normalized, -, hrun⟩ := bind_eq_ok.mp hout
    exact length_encryptWith _ _ (by decide) hrun
  | blowfish =>
    simp only [encryptBlowfish_eq] at hout
    obtain ⟨cipher, -, hrun⟩ := bind_eq_ok.mp hout
    exact length_encryptWith _ _ (by decide) hrun

/-- The functions without an IV use the zero IV, of whatever length. -/
theorem transform_zero_iv (C : Ciphers) (data key : Bytes) (zeros : ℕ) (cipherType : String)
    (decrypting : Bool) : transform C data key (List.replicate zeros 0) cipherType decrypting =
      transform C data key [] cipherType decrypting := by
  have h16 : fixed 16 (List.replicate zeros 0) = fixed 16 [] := Block.fixed_replicate 16 zeros
  have h8 : fixed 8 (List.replicate zeros 0) = fixed 8 [] := Block.fixed_replicate 8 zeros
  simp only [transform, encryptAes, decryptAes, encryptBlowfish, decryptBlowfish, h16, h8]

/-- Raw encryption and decryption undo each other wherever they return, for every data,
key, IV and type, and the ciphertext has the length of the type's mode and padding;
the functions without an IV are those with an all-zero IV of any length. -/
theorem raw_inverse (C : Ciphers) (key : Bytes) (cipherType : String) :
    (∀ iv data out, encryptIv C data key iv cipherType = .ok out ↔
      decryptIv C out key iv cipherType = .ok data) ∧
    (∀ iv data out, encryptIv C data key iv cipherType = .ok out →
      ∃ algorithm mode padding, parseType cipherType = .ok (algorithm, mode, padding) ∧
        out.length = outputLength (blockSize algorithm) mode padding data.length) ∧
    (∀ data zeros, encrypt C data key cipherType =
        encryptIv C data key (List.replicate zeros 0) cipherType ∧
      decrypt C data key cipherType = decryptIv C data key (List.replicate zeros 0) cipherType) ∧
    (∀ data out, encrypt C data key cipherType = .ok out ↔ decrypt C out key cipherType = .ok data) ∧
    (∀ data out, encrypt C data key cipherType = .ok out →
      ∃ algorithm mode padding, parseType cipherType = .ok (algorithm, mode, padding) ∧
        out.length = outputLength (blockSize algorithm) mode padding data.length) := by
  refine ⟨?_, ?_, ?_, ?_, ?_⟩
  · intro iv data out
    exact transform_inverse C key iv cipherType data out
  · intro iv data out h
    exact length_transform h
  · intro data zeros
    exact ⟨(transform_zero_iv C data key zeros cipherType false).symm,
      (transform_zero_iv C data key zeros cipherType true).symm⟩
  · intro data out
    exact transform_inverse C key [] cipherType data out
  · intro data out h
    exact length_transform h

section KnownAnswer

/-- The AES-128 block of the smoke test. -/
def aesPlain : Block 16 := fixed 16 [0x00, 0x11, 0x22, 0x33, 0x44, 0x55, 0x66, 0x77, 0x88, 0x99, 0xaa,
  0xbb, 0xcc, 0xdd, 0xee, 0xff]
def aesOut : Block 16 := fixed 16 [0x69, 0xc4, 0xe0, 0xd8, 0x6a, 0x7b, 0x04, 0x30, 0xd8, 0xcd, 0xb7,
  0x80, 0x70, 0xb4, 0xc5, 0x5a]
def aesTestKey : Block 16 := fixed 16 [0, 1, 2, 3, 4, 5, 6, 7, 8, 9, 10, 11, 12, 13, 14, 15]

/-- Ciphers that agree with AES-128 on that block under that key. -/
def knownAnswer : Ciphers where
  aes128 key := if key = aesTestKey then Equiv.swap aesPlain aesOut else Equiv.refl _
  aes192 _ := Equiv.refl _
  aes256 _ := Equiv.refl _
  blowfish _ := Equiv.refl _
  unalignedText length _ := "NoPadding is used with a " ++ toString length ++ "-byte message"

theorem raw_inverse_knownAnswer :
    encrypt knownAnswer aesPlain.bytes aesTestKey.bytes "aes-ecb/pad:none" = .ok aesOut.bytes ∧
      decrypt knownAnswer aesOut.bytes aesTestKey.bytes "aes-ecb/pad:none" = .ok aesPlain.bytes := by
  have henc : encrypt knownAnswer aesPlain.bytes aesTestKey.bytes "aes-ecb/pad:none" =
      .ok aesOut.bytes := by rfl
  obtain ⟨-, -, -, hinv, -⟩ := raw_inverse knownAnswer aesTestKey.bytes "aes-ecb/pad:none"
  exact ⟨henc, (hinv _ _).mp henc⟩

end KnownAnswer

end PgCrypto.Raw
