import PgCrypto.Raw.Inverse
import PgCrypto.Raw.Keys

/-! # How the raw ciphers fail

A call parses its type, normalizes its key and runs the mode. Each step that refuses its
input raises a raw cipher error, except one: the encryption of unaligned data without
padding, which the library answers with a panic. This happens for every type of that
kind as soon as the key is accepted.
-/
namespace PgCrypto.Raw
open Str Cipher
variable {α β : Type} {n : ℕ}

section RawErrors

/-- The call returns or raises a raw cipher error. -/
def OnlyRawErrors (x : Outcome α) : Prop :=
  ∀ failure, x = .error failure → ∃ message, failure = .error ("raw cipher error: " ++ message)

theorem onlyRawErrors_ok (a : α) : OnlyRawErrors (.ok a : Outcome α) := by
  intro failure h
  cases h

theorem onlyRawErrors_rawError (message : String) : OnlyRawErrors (rawError message : Outcome α) := by
  intro failure h
  cases h
  exact ⟨message, rfl⟩

theorem onlyRawErrors_orRawError (message : String) (x : Option α) :
    OnlyRawErrors (orRawError message x) := by
  cases x with
  | none => exact onlyRawErrors_rawError message
  | some a => exact onlyRawErrors_ok a

theorem OnlyRawErrors.bind {x : Outcome α} {f : α → Outcome β} (hx : OnlyRawErrors x)
    (hf : ∀ a, x = .ok a → OnlyRawErrors (f a)) : OnlyRawErrors (x >>= f) := by
  intro failure h
  rcases bind_eq_error.mp h with h | ⟨a, ha, h⟩
  · exact hx failure h
  · exact hf a ha failure h

theorem not_onlyRawErrors_abort (message : String) : ¬ OnlyRawErrors (abort message : Outcome α) := by
  intro h
  obtain ⟨_, hfailure⟩ := h _ rfl
  cases hfailure

theorem parsePadding_onlyRawErrors (right : String) : OnlyRawErrors (parsePadding right) := by
  unfold parsePadding
  split
  · exact onlyRawErrors_ok _
  · exact onlyRawErrors_ok _
  · exact onlyRawErrors_rawError _

theorem parseCipherMode_onlyRawErrors (cipherMode : String) :
    OnlyRawErrors (parseCipherMode cipherMode) := by
  unfold parseCipherMode
  split <;> first | exact onlyRawErrors_ok _ | exact onlyRawErrors_rawError _

theorem parseType_onlyRawErrors (cipherType : String) : OnlyRawErrors (parseType cipherType) := by
  have hmode : ∀ cipherMode (padding : Padding), OnlyRawErrors (parseCipherMode cipherMode >>= fun parsed =>
      .ok (parsed.1, parsed.2, padding)) := by
    intro cipherMode padding
    refine (parseCipherMode_onlyRawErrors cipherMode).bind ?_
    intro parsed _
    exact onlyRawErrors_ok _
  unfold parseType
  dsimp only
  split
  · exact hmode _ _
  · refine (parsePadding_onlyRawErrors _).bind ?_
    intro padding _
    exact hmode _ _

end RawErrors

section Keyed
variable {C : Ciphers}

/-- The cipher of a key, once the key is normalized. -/
def keyedCipher (C : Ciphers) :
    (algorithm : Algorithm) → Bytes → Outcome (Equiv.Perm (Block (blockSize algorithm)))
  | .aes, key => aesKey key >>= fun normalized => .ok (normalized.cipher C)
  | .blowfish, key => orRawError "invalid Blowfish key" (newBlowfish C (blowfishKey key))

def KeyAccepted : Algorithm → Bytes → Prop
  | .aes, key => key.length ≤ 32
  | .blowfish, key => key ≠ []

theorem aesKey_onlyRawErrors (key : Bytes) : OnlyRawErrors (aesKey key) := by
  unfold aesKey
  split
  · exact onlyRawErrors_ok _
  · split
    · exact onlyRawErrors_ok _
    · split
      · exact onlyRawErrors_ok _
      · exact onlyRawErrors_rawError _

theorem keyedCipher_onlyRawErrors (C : Ciphers) (algorithm : Algorithm) (key : Bytes) :
    OnlyRawErrors (keyedCipher C algorithm key) := by
  cases algorithm with
  | aes =>
    refine (aesKey_onlyRawErrors key).bind ?_
    intro normalized _
    exact onlyRawErrors_ok _
  | blowfish => exact onlyRawErrors_orRawError _ _

theorem exists_keyedCipher_iff {algorithm : Algorithm} {key : Bytes} :
    (∃ cipher, keyedCipher C algorithm key = .ok cipher) ↔ KeyAccepted algorithm key := by
  cases algorithm with
  | aes =>
    constructor
    · rintro ⟨cipher, h⟩
      obtain ⟨normalized, hkey, -⟩ := bind_eq_ok.mp h
      change key.length ≤ 32
      by_contra hlong
      simp [aesKey, show ¬ key.length ≤ 16 by omega, show ¬ key.length ≤ 24 by omega, hlong, rawError] at hkey
    · intro h
      obtain ⟨normalized, hkey, -⟩ := aesKey_bytes h
      exact ⟨normalized.cipher C, bind_eq_ok.mpr ⟨normalized, hkey, rfl⟩⟩
  | blowfish =>
    constructor
    · rintro ⟨cipher, h⟩ rfl
      cases h
    · intro h
      exact ⟨_, orRawError_eq_ok.mpr (dif_pos (length_blowfishKey h))⟩

/-- One run in either direction. -/
def runWith (C : Ciphers) (cipher : Equiv.Perm (Block n)) (iv : Block n) (mode : Mode) (padding : Padding)
    (decrypting : Bool) (data : Bytes) : Outcome Bytes :=
  if decrypting then decryptWith cipher iv mode padding data else encryptWith C cipher iv mode padding data

/-- A call is the parsed type, the keyed cipher and one run of it. -/
theorem transform_eq (C : Ciphers) (data key iv : Bytes) (cipherType : String) (decrypting : Bool) :
    transform C data key iv cipherType decrypting =
      parseType cipherType >>= fun parsed => keyedCipher C parsed.1 key >>= fun cipher =>
        runWith C cipher (fixed (blockSize parsed.1) iv) parsed.2.1 parsed.2.2 decrypting data := by
  unfold transform
  apply bind_congr
  rintro ⟨algorithm, mode, padding⟩
  cases algorithm with
  | aes =>
    cases decrypting with
    | false =>
      simp only [encryptAes_eq, keyedCipher]
      cases aesKey key <;> rfl
    | true =>
      simp only [decryptAes_eq, keyedCipher]
      cases aesKey key <;> rfl
  | blowfish =>
    cases decrypting with
    | false => exact encryptBlowfish_eq C data key iv mode padding
    | true => exact decryptBlowfish_eq C data key iv mode padding

end Keyed

section Runs
variable {C : Ciphers} {cipher : Equiv.Perm (Block n)} {iv : Block n} {mode : Mode} {padding : Padding}
  {data : Bytes}

/-- The data a run accepts. CFB takes all data; the block modes encrypt what the padding
takes, and decrypt aligned data that has the padding at its end. -/
def DataAccepted (cipher : Equiv.Perm (Block n)) (iv : Block n) (mode : Mode) (padding : Padding)
    (decrypting : Bool) (data : Bytes) : Prop :=
  match blockMode cipher iv mode, decrypting with
  | none, _ => True
  | some _, false => padding = .none → n ∣ data.length
  | some run, true => n ∣ data.length ∧ (padding = .pkcs → data ≠ [] ∧
      EndsInPadding n (join (run.decrypt (blocks n (data.length / n) data))))

theorem blockMode_eq_none_iff : blockMode cipher iv mode = none ↔ mode = .cfb := by
  cases mode with
  | cbc => simp [blockMode]
  | cfb => simp [blockMode]
  | ecb => simp [blockMode]

theorem scheme_eq_noPadding_iff : scheme padding = .noPadding ↔ padding = .none := by
  cases padding with
  | pkcs => simp [scheme]
  | none => simp [scheme]

theorem scheme_eq_pkcs7_iff : scheme padding = .pkcs7 ↔ padding = .pkcs := by
  cases padding with
  | pkcs => simp [scheme]
  | none => simp [scheme]

/-- Empty data has no padding at its end. -/
theorem endsInPadding_decrypt_ne_nil {run : BlockMode (Block n)}
    (h : EndsInPadding n (join (run.decrypt (blocks n (data.length / n) data)))) : data ≠ [] := by
  rintro rfl
  have hnil : run.decrypt (blocks n (([] : Bytes).length / n) []) = [] := by
    have hblocks : blocks n (([] : Bytes).length / n) [] = run.encrypt [] := by
      have hlength := run.length_encrypt []
      rw [List.length_nil, Nat.zero_div]
      exact (List.length_eq_zero_iff.mp hlength).symm
    rw [hblocks, run.decrypt_encrypt]
  obtain ⟨rest, count, hpos, -, heq⟩ := h
  rw [hnil, join_nil] at heq
  have hlength := congrArg List.length heq
  rw [List.length_append, List.length_replicate, List.length_nil] at hlength
  omega

theorem exists_runWith_iff (hn : 0 < n) (hn' : n < 256) {decrypting : Bool} :
    (∃ out, runWith C cipher iv mode padding decrypting data = .ok out) ↔
      DataAccepted cipher iv mode padding decrypting data := by
  unfold DataAccepted
  cases hmode : blockMode cipher iv mode with
  | none => cases decrypting <;> simp [runWith, encryptWith, decryptWith, hmode]
  | some run =>
    cases decrypting with
    | false =>
      simp only [runWith, encryptWith, hmode, Bool.false_eq_true, if_false, encryptPaddedVec_eq_ok,
        exists_encryptPadded_iff, scheme_eq_noPadding_iff]
    | true =>
      simp only [runWith, decryptWith, hmode, if_true, orRawError_eq_ok,
        exists_decryptPadded_iff hn hn', scheme_eq_pkcs7_iff]
      refine and_congr_right fun _ => forall_congr' fun _ => ?_
      exact ⟨fun h => ⟨endsInPadding_decrypt_ne_nil h, h⟩, fun h => h.2⟩

/-- The one failure of a run that is no raw cipher error. -/
theorem runWith_onlyRawErrors_iff {decrypting : Bool} :
    OnlyRawErrors (runWith C cipher iv mode padding decrypting data) ↔
      ¬ (decrypting = false ∧ mode ≠ .cfb ∧ padding = .none ∧ ¬ n ∣ data.length) := by
  cases hmode : blockMode cipher iv mode with
  | none =>
    have hcfb := blockMode_eq_none_iff.mp hmode
    have hok : OnlyRawErrors (runWith C cipher iv mode padding decrypting data) := by
      cases decrypting <;> simp only [runWith, encryptWith, decryptWith, hmode] <;> exact onlyRawErrors_ok _
    refine iff_of_true hok ?_
    rintro ⟨-, hne, -⟩
    exact hne hcfb
  | some run =>
    have hcfb : mode ≠ .cfb := by
      intro hcfb
      rw [blockMode_eq_none_iff.mpr hcfb] at hmode
      cases hmode
    cases decrypting with
    | true =>
      have hraw : OnlyRawErrors (runWith C cipher iv mode padding true data) := by
        simp only [runWith, decryptWith, hmode, if_true]
        exact onlyRawErrors_orRawError _ _
      simp [hraw]
    | false =>
      have hiff : (∃ out, encryptPadded run (scheme padding) data = some out) ↔
          (scheme padding = .noPadding → n ∣ data.length) := exists_encryptPadded_iff
      rw [scheme_eq_noPadding_iff] at hiff
      rw [runWith, if_neg (by decide), encryptWith, hmode]
      dsimp only
      rw [encryptPaddedVec]
      cases hrun : encryptPadded run (scheme padding) data with
      | some out =>
        rw [hrun] at hiff
        have haligned := hiff.mp ⟨out, rfl⟩
        refine iff_of_true (onlyRawErrors_ok out) ?_
        rintro ⟨-, -, hnone, hunaligned⟩
        exact hunaligned (haligned hnone)
      | none =>
        rw [hrun] at hiff
        have hunaligned : ¬ (padding = .none → n ∣ data.length) := by
          intro h
          obtain ⟨out, hout⟩ := hiff.mpr h
          cases hout
        rw [Classical.not_imp] at hunaligned
        refine iff_of_false (not_onlyRawErrors_abort _) ?_
        intro h
        exact h ⟨rfl, hcfb, hunaligned.1, hunaligned.2⟩

end Runs

section Calls
variable {C : Ciphers} {data key iv : Bytes} {cipherType : String} {decrypting : Bool}

/-- The inputs on which a call returns: the type parses, the key is accepted, and so is
the data by the mode and padding of the type. -/
def Returns (C : Ciphers) (data key iv : Bytes) (cipherType : String) (decrypting : Bool) : Prop :=
  ∃ algorithm mode padding, parseType cipherType = .ok (algorithm, mode, padding) ∧
    KeyAccepted algorithm key ∧ ∀ cipher, keyedCipher C algorithm key = .ok cipher →
      DataAccepted cipher (fixed (blockSize algorithm) iv) mode padding decrypting data

/-- An encryption in a block mode without padding, with a key that is accepted and data
that is not aligned. -/
def UnalignedEncryption (data key : Bytes) (cipherType : String) (decrypting : Bool) : Prop :=
  decrypting = false ∧ ∃ algorithm mode, parseType cipherType = .ok (algorithm, mode, .none) ∧
    mode ≠ .cfb ∧ KeyAccepted algorithm key ∧ ¬ blockSize algorithm ∣ data.length

/-- The call returns on the inputs it should, and otherwise raises a raw cipher error. -/
structure FailsCleanly (C : Ciphers) (data key iv : Bytes) (cipherType : String) (decrypting : Bool) :
    Prop where
  returns_iff : (∃ out, transform C data key iv cipherType decrypting = .ok out) ↔
    Returns C data key iv cipherType decrypting
  onlyRawErrors : OnlyRawErrors (transform C data key iv cipherType decrypting)

theorem blockSize_pos (algorithm : Algorithm) : 0 < blockSize algorithm := by
  cases algorithm with
  | aes => decide
  | blowfish => decide

theorem blockSize_lt (algorithm : Algorithm) : blockSize algorithm < 256 := by
  cases algorithm with
  | aes => decide
  | blowfish => decide

theorem exists_transform_iff : (∃ out, transform C data key iv cipherType decrypting = .ok out) ↔
    Returns C data key iv cipherType decrypting := by
  rw [transform_eq]
  constructor
  · rintro ⟨out, h⟩
    obtain ⟨⟨algorithm, mode, padding⟩, hparse, h⟩ := bind_eq_ok.mp h
    obtain ⟨cipher, hcipher, hrun⟩ := bind_eq_ok.mp h
    refine ⟨algorithm, mode, padding, hparse, exists_keyedCipher_iff.mp ⟨cipher, hcipher⟩, ?_⟩
    intro other hother
    rw [hcipher] at hother
    cases hother
    exact (exists_runWith_iff (blockSize_pos algorithm) (blockSize_lt algorithm)).mp ⟨out, hrun⟩
  · rintro ⟨algorithm, mode, padding, hparse, hkey, hdata⟩
    obtain ⟨cipher, hcipher⟩ := (exists_keyedCipher_iff (C := C)).mpr hkey
    obtain ⟨out, hrun⟩ := (exists_runWith_iff (blockSize_pos algorithm) (blockSize_lt algorithm)).mpr
      (hdata cipher hcipher)
    exact ⟨out, bind_eq_ok.mpr ⟨_, hparse, bind_eq_ok.mpr ⟨cipher, hcipher, hrun⟩⟩⟩

theorem transform_onlyRawErrors_iff : OnlyRawErrors (transform C data key iv cipherType decrypting) ↔
    ¬ UnalignedEncryption data key cipherType decrypting := by
  rw [transform_eq]
  constructor
  · rintro h ⟨hdir, algorithm, mode, hparse, hmode, hkey, hunaligned⟩
    obtain ⟨cipher, hcipher⟩ := (exists_keyedCipher_iff (C := C)).mpr hkey
    rw [hparse, ok_bind, hcipher, ok_bind] at h
    exact runWith_onlyRawErrors_iff.mp h ⟨hdir, hmode, rfl, hunaligned⟩
  · intro h
    refine (parseType_onlyRawErrors cipherType).bind ?_
    rintro ⟨algorithm, mode, padding⟩ hparse
    refine (keyedCipher_onlyRawErrors C algorithm key).bind ?_
    intro cipher hcipher
    rw [runWith_onlyRawErrors_iff]
    rintro ⟨hdir, hmode, rfl, hunaligned⟩
    exact h ⟨hdir, algorithm, mode, hparse, hmode, exists_keyedCipher_iff.mp ⟨cipher, hcipher⟩, hunaligned⟩

end Calls

/-- A call returns exactly on the inputs it should and fails otherwise with a raw cipher
error, exactly when it is no encryption of unaligned data without padding. -/
theorem transform_failsCleanly_iff (C : Ciphers) (data key iv : Bytes) (cipherType : String)
    (decrypting : Bool) : FailsCleanly C data key iv cipherType decrypting ↔
      ¬ UnalignedEncryption data key cipherType decrypting := by
  constructor
  · intro h
    exact transform_onlyRawErrors_iff.mp h.onlyRawErrors
  · intro h
    exact ⟨exists_transform_iff, transform_onlyRawErrors_iff.mpr h⟩

/-- One byte under AES in CBC mode without padding. -/
theorem transform_unaligned_panics :
    transform knownAnswer [1] aesTestKey.bytes [] "aes-cbc/pad:none" false =
        abort (knownAnswer.unalignedText 1 16) ∧
      ¬ ∀ data key iv cipherType decrypting, FailsCleanly knownAnswer data key iv cipherType decrypting := by
  have hpanic : transform knownAnswer [1] aesTestKey.bytes [] "aes-cbc/pad:none" false =
      abort (knownAnswer.unalignedText 1 16) := by rfl
  refine ⟨hpanic, ?_⟩
  intro h
  have hraw := (h [1] aesTestKey.bytes [] "aes-cbc/pad:none" false).onlyRawErrors
  rw [hpanic] at hraw
  exact not_onlyRawErrors_abort _ hraw

end PgCrypto.Raw
