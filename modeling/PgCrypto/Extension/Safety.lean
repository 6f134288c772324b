import PgCrypto.Extension.Calls
import PgCrypto.Password.Salts
import PgCrypto.Armor.Reference
import PgCrypto.Pgp.Availability
import PgCrypto.Pgp.Safety
import PgCrypto.Raw.Failure

/-! # Which calls can panic

The source has slices, conversions, loops over indices and branches declared unreachable
in all of its modules. Each is guarded by a check in front of it, so that a failing call
raises an error. There are two exceptions: a raw encryption of unaligned data without
padding reaches an assertion of the cipher library, and a library that panics while it
reads a salt, a certificate, a message or an armored text takes the call with it. Of the
other libraries this needs that a signed message has its signature in front, and the
formats of the password hashes.
-/
namespace PgCrypto.Extension
open Cipher

section Raw
open Raw
variable {C : Ciphers} {data key iv : Bytes} {cipherType : String} {decrypting : Bool}

theorem OnlyRawErrors.noPanic {α : Type} {x : Outcome α} (h : OnlyRawErrors x) : NoPanic x := by
  intro message hx
  obtain ⟨reason, hreason⟩ := h _ hx
  cases hreason

theorem transform_of_unaligned (C : Ciphers) (iv : Bytes)
    (h : UnalignedEncryption data key cipherType decrypting) :
    Panics (transform C data key iv cipherType decrypting) := by
  obtain ⟨rfl, algorithm, mode, hparse, hmode, hkey, hunaligned⟩ := h
  obtain ⟨cipher, hcipher⟩ := (exists_keyedCipher_iff (C := C)).mpr hkey
  rw [transform_eq, hparse, ok_bind, hcipher, ok_bind, runWith, if_neg (by decide), encryptWith]
  dsimp only
  cases hblock : blockMode cipher (fixed (blockSize algorithm) iv) mode with
  | none => exact absurd (blockMode_eq_none_iff.mp hblock) hmode
  | some run =>
    have hnone : encryptPadded run (scheme .none) data = none := by
      cases hrun : encryptPadded run (scheme .none) data with
      | none => rfl
      | some out => exact absurd (exists_encryptPadded_iff.mp ⟨out, hrun⟩ rfl) hunaligned
    dsimp only
    rw [encryptPaddedVec, hnone]
    exact ⟨_, rfl⟩

theorem transform_panics_iff : Panics (transform C data key iv cipherType decrypting) ↔
    UnalignedEncryption data key cipherType decrypting := by
  refine ⟨?_, transform_of_unaligned C iv⟩
  intro h
  by_contra hnot
  exact noPanic_iff.mp (OnlyRawErrors.noPanic (transform_onlyRawErrors_iff.mpr hnot)) h

theorem not_unaligned_decrypting : ¬ UnalignedEncryption data key cipherType true := by
  rintro ⟨h, -⟩
  cases h

end Raw

section Hashes
open Hash
variable {H : Hashes}

theorem digestBytes_noPanic (data : Bytes) (algorithm : String) : NoPanic (digestBytes H data algorithm) := by
  unfold digestBytes
  split <;> first | exact noPanic_ok _ | exact noPanic_raise _

theorem calculate_noPanic (digest : Digest) (data key : Bytes) : NoPanic (calculate H digest data key) := by
  unfold calculate
  split
  · exact noPanic_ok _
  · exact noPanic_raise _

theorem hmacBytes_noPanic (data key : Bytes) (algorithm : String) :
    NoPanic (hmacBytes H data key algorithm) := by
  unfold hmacBytes
  split <;> first | exact calculate_noPanic _ _ _ | exact noPanic_raise _

end Hashes

section Modern
open Modern

theorem argon2idHash_noPanic {P : Argon2} (password : String) (rng : P.Rng) :
    NoPanic (argon2idHash P password rng) := by
  refine (noPanic_orRaise _ _).bind ?_
  intro hashed _
  refine (noPanic_orRaise _ _).bind ?_
  intro encoded _
  exact noPanic_ok _

theorem x25519_noPanic (scalarmult : Block 32 → Block 32 → Except String (Block 32))
    (secretKey publicKey : Bytes) : NoPanic (x25519 scalarmult secretKey publicKey) := by
  refine (noPanic_exactArray _ _ _).bind ?_
  intro secret _
  refine (noPanic_exactArray _ _ _).bind ?_
  intro point _
  refine (noPanic_orRaise _ _).bind ?_
  intro shared _
  exact noPanic_ok _

end Modern

section Armor
open Armor
variable {L : Library}

theorem mapM_noPanic {α β : Type} {f : α → Outcome β} (h : ∀ a, NoPanic (f a)) (xs : List α) :
    NoPanic (xs.mapM f) := by
  induction xs with
  | nil => exact noPanic_ok _
  | cons x xs ih =>
    rw [List.mapM_cons]
    refine (h x).bind ?_
    intro y _
    refine ih.bind ?_
    intro ys _
    exact noPanic_ok _

theorem checkHeader_noPanic (header : String × String) : NoPanic (checkHeader header) := by
  unfold checkHeader
  repeat' split
  all_goals first | exact noPanic_ok _ | exact noPanic_raise _

theorem checkedHeaders_noPanic (keys values : TextArray) : NoPanic (checkedHeaders keys values) := by
  have hnull : ∀ message element, NoPanic (nonNull message element) := by
    intro message element
    cases element with
    | none => exact noPanic_raise _
    | some s => exact noPanic_ok _
  refine (mapM_noPanic (hnull _) _).bind ?_
  intro keyArray _
  refine (mapM_noPanic (hnull _) _).bind ?_
  intro valueArray _
  split
  · exact noPanic_raise _
  · split
    · exact noPanic_raise _
    · exact mapM_noPanic checkHeader_noPanic _

theorem encodeArmor_noPanic (data : Bytes) (headers : List (String × String)) :
    NoPanic (encodeArmor L data headers) := by
  refine (noPanic_orRaise _ _).bind ?_
  intro writer _
  refine (noPanic_orRaise _ _).bind ?_
  intro writer' _
  refine (noPanic_orRaise _ _).bind ?_
  intro output _
  exact noPanic_orRaise _ _

theorem armorWithHeaders_noPanic (data : Bytes) (keys values : TextArray) :
    NoPanic (armorWithHeaders L data keys values) := by
  refine (checkedHeaders_noPanic keys values).bind ?_
  intro headers _
  exact encodeArmor_noPanic data headers

end Armor

section Pgp
open Pgp
variable {S : Sequoia}

theorem parseDecryptOption_noPanic (parsed : DecryptOptions) (item : String) :
    NoPanic (parseDecryptOption parsed item) := by
  unfold parseDecryptOption
  split
  · exact noPanic_raise _
  · split
    case h_1 => exact (parseBooleanOption_noPanic _ _).bind (fun flag _ => noPanic_ok _)
    case h_2 => exact (parseBooleanOption_noPanic _ _).bind (fun flag _ => noPanic_ok _)
    case h_13 => exact noPanic_raise _
    all_goals exact noPanic_ok _

theorem parseDecryptOptions_noPanic (o : String) : NoPanic (parseDecryptOptions o) :=
  NoPanic.foldlM parseDecryptOption_noPanic _ _

theorem decryptedText_noPanic (data : Bytes) (format : UInt8) (options : DecryptOptions) :
    NoPanic (decryptedText data format options) := by
  have hdecode : NoPanic (if options.convertCrlf then crlfDecode data else .ok data : Outcome Bytes) := by
    split
    · rw [crlfDecode_eq]
      exact noPanic_ok _
    · exact noPanic_ok _
  unfold decryptedText
  split
  · exact noPanic_raise _
  · refine hdecode.bind ?_
    intro plain _
    split
    · exact noPanic_raise _
    · exact noPanic_orRaise _ _

/-- The library panics on the message, before or after the session key is found. -/
def ReadPanics (S : Sequoia) (data : Bytes)
    (search : EncryptedMessage → Except String (Option SymmetricAlgorithm × SessionKey)) : Prop :=
  Panics (S.builderFromBytes data) ∨ ∃ builder, S.builderFromBytes data = .ok builder ∧
    (Panics (S.withPolicy builder) ∨ ∃ e, S.withPolicy builder = .ok e ∧
      ∃ algorithm key, search e = .ok (algorithm, key) ∧ Panics (e.contents algorithm key).body)

theorem symDecrypt_panics_iff {data : Bytes} {password : String} :
    Panics (symDecrypt S data password) ↔
      ReadPanics S data (fun e => passwordHelperDecrypt S password e.accepts e.skesks) := by
  simp only [symDecrypt, ReadPanics, panics_bind_iff, panics_orUnwind_iff, orUnwind_eq_ok, orRaise_eq_ok,
    not_panics_orRaise, not_panics_ok, false_or, or_false, and_false, exists_false, Prod.exists]

theorem pubEncrypt_panics_iff {data publicKey : Bytes} {o : String} {text : Bool} {now : Time}
    {rng : S.Rng} : Panics (pubEncrypt S data publicKey o text now rng) ↔
      (∃ P, parseOptions o text = .ok P) ∧ Panics (S.certFromBytes publicKey) := by
  refine panics_bind_right (parseOptions_noPanic o text) ?_
  intro P
  refine (panics_bind_left ?_).trans panics_orUnwind_iff
  intro cert
  split
  · exact noPanic_raise _
  · refine (noPanic_orRaise _ _).bind ?_
    intro message _
    exact noPanic_orRaise _ _

theorem pushPair_noPanic (password : String) (pairs : List KeyPair) (key : Key) :
    NoPanic (pushPair S password pairs key) := by
  refine (noPanic_orRaise _ _).bind ?_
  intro unlocked _
  split
  · exact noPanic_ok _
  · exact noPanic_ok _

/-- The library panics on the secret key, or on the message once there are pairs to open it. -/
def PubReadPanics (S : Sequoia) (data secretKey : Bytes) (password : String) : Prop :=
  Panics (S.certFromBytes secretKey) ∨ ∃ cert, S.certFromBytes secretKey = .ok cert ∧
    (∀ key ∈ cert.secretKeys, Unlocks S password key) ∧
    cert.secretKeys.filterMap (pairOf S password) ≠ [] ∧
    ReadPanics S data (keyHelperDecrypt S (cert.secretKeys.filterMap (pairOf S password)))

theorem pubDecrypt_panics_iff {data secretKey : Bytes} {password : String} :
    Panics (pubDecrypt S data secretKey password) ↔ PubReadPanics S data secretKey password := by
  unfold pubDecrypt PubReadPanics
  rw [panics_bind_iff, panics_orUnwind_iff]
  refine or_congr_right (exists_congr fun cert => and_congr orUnwind_eq_ok ?_)
  rw [panics_bind_iff, or_iff_right (noPanic_iff.mp (NoPanic.foldlM (pushPair_noPanic password) _ _))]
  simp only [foldlM_pushPair_eq_ok, and_assoc, exists_and_left, exists_eq_left]
  refine and_congr_right fun _ => ?_
  split
  · next hempty => simp [List.isEmpty_iff.mp hempty, Panics, raise]
  · next hpairs =>
    rw [List.isEmpty_iff] at hpairs
    simp only [hpairs, ne_eq, not_false_eq_true, true_and, ReadPanics, panics_bind_iff, panics_orUnwind_iff,
      orUnwind_eq_ok, orRaise_eq_ok, not_panics_orRaise, not_panics_ok, false_or, or_false, and_false,
      exists_false, Prod.exists]

theorem decryption_panics_iff {opened : Outcome (Bytes × UInt8)} (o : String) :
    (Panics (do
      let options ← parseDecryptOptions o
      let (data, format) ← opened
      decryptedText data format options) ↔ (∃ R, parseDecryptOptions o = .ok R) ∧ Panics opened) ∧
    (Panics (do
      let _ ← parseDecryptOptions o
      let (data, _) ← opened
      .ok data) ↔ (∃ R, parseDecryptOptions o = .ok R) ∧ Panics opened) := by
  refine ⟨panics_bind_right (parseDecryptOptions_noPanic o) ?_,
    panics_bind_right (parseDecryptOptions_noPanic o) ?_⟩
  · intro options
    exact panics_bind_left (fun result => decryptedText_noPanic _ _ _)
  · intro options
    exact panics_bind_left (fun result => noPanic_ok _)

theorem pgpKeyId_panics_iff {data : Bytes} {now : Time} : Panics (pgpKeyId S data now) ↔
    Panics (S.certFromBytes data) ∨
      (∃ e, S.certFromBytes data = .error (.error e)) ∧ Panics (S.packetPile data) := by
  have hpackets : ∀ packets, NoPanic (keyIdOfPackets packets) := by
    intro packets
    induction packets with
    | nil => exact noPanic_raise _
    | cons packet rest ih => cases packet <;> first | exact noPanic_ok _ | exact ih
  unfold pgpKeyId
  split
  · next cert hcert =>
    rw [hcert]
    split
    · simp
    · simp [Panics]
  · next message hcert => simp [hcert, Panics, abort]
  · next e hcert =>
    rw [panics_bind_left hpackets, panics_orUnwind_iff, hcert]
    simp [Panics]

end Pgp

section Calls
variable {L : Libraries} {s : Session L}

/-- The call is an encryption of unaligned data in a block mode without padding. -/
def Call.Unaligned : Call → Prop
  | .encrypt data key cipherType => Raw.UnalignedEncryption data key cipherType false
  | .encryptIv data key _ cipherType => Raw.UnalignedEncryption data key cipherType false
  | _ => False

/-- The call panics where a library does, on a salt or on data made by others. -/
def Call.LibraryPanics (L : Libraries) : Call → Prop
  | .crypt password salt => Panics (L.pwhash.unixCrypt (Utf8.utf8 password) salt)
  | .dearmor data => Panics (L.armor.readToEnd (L.armor.fromReader (Utf8.utf8 data)))
  | .pgpArmorHeaders data => Panics (L.armor.headers (L.armor.fromReader (Utf8.utf8 data)))
  | .pgpSymDecrypt data password options | .pgpSymDecryptBytea data password options =>
      (∃ R, Pgp.parseDecryptOptions options = .ok R) ∧ ReadPanics L.sequoia data
        (fun e => Pgp.passwordHelperDecrypt L.sequoia password e.accepts e.skesks)
  | .pgpPubEncrypt _ publicKey options =>
      (∃ P, Pgp.parseOptions options true = .ok P) ∧ Panics (L.sequoia.certFromBytes publicKey)
  | .pgpPubEncryptBytea _ publicKey options =>
      (∃ P, Pgp.parseOptions options false = .ok P) ∧ Panics (L.sequoia.certFromBytes publicKey)
  | .pgpPubDecrypt data secretKey password options | .pgpPubDecryptBytea data secretKey password options =>
      (∃ R, Pgp.parseDecryptOptions options = .ok R) ∧ PubReadPanics L.sequoia data secretKey password
  | .pgpKeyId data => Panics (L.sequoia.certFromBytes data) ∨
      (∃ e, L.sequoia.certFromBytes data = .error (.error e)) ∧ Panics (L.sequoia.packetPile data)
  | _ => False

theorem returning_panics_iff {α : Type} {value : α → Value} {x : Outcome α} :
    Panics (returning L s value x) ↔ Panics x := panics_bind_left (fun a => noPanic_ok (value a, s))

theorem drawing_panics_iff {α ρ : Type} {value : α → Value} {next : ρ → Session L}
    {x : Outcome (α × ρ)} : Panics (drawing L value next x) ↔ Panics x :=
  panics_bind_left (fun result => noPanic_ok (value result.1, next result.2))

section Causes
variable {α ρ : Type} {value : α → Value} {next : ρ → Session L} {p : Prop}

theorem returning_never {x : Outcome α} (h : NoPanic x) :
    Panics (returning L s value x) ↔ False ∨ False :=
  iff_of_false (returning_panics_iff.not.mpr (noPanic_iff.mp h)) (by simp)

theorem returning_unaligned {x : Outcome α} (h : Panics x ↔ p) :
    Panics (returning L s value x) ↔ p ∨ False := by rw [returning_panics_iff, h, or_false]

theorem returning_library {x : Outcome α} (h : Panics x ↔ p) :
    Panics (returning L s value x) ↔ False ∨ p := by rw [returning_panics_iff, h, false_or]

theorem drawing_never {x : Outcome (α × ρ)} (h : NoPanic x) :
    Panics (drawing L value next x) ↔ False ∨ False :=
  iff_of_false (drawing_panics_iff.not.mpr (noPanic_iff.mp h)) (by simp)

theorem drawing_library {x : Outcome (α × ρ)} (h : Panics x ↔ p) :
    Panics (drawing L value next x) ↔ False ∨ p := by rw [drawing_panics_iff, h, false_or]

end Causes

/-- One case for each function. -/
theorem run_panics_iff {writes : Password.Setting → Prop}
    {checksum : Password.Setting → Bytes → Password.Word} (hD : L.dryoc.Laws)
    (hP : L.pwhash.Laws writes checksum) (around : Surroundings L) (call : Call) :
    Panics (call.run L s around) ↔ call.Unaligned ∨ call.LibraryPanics L := by
  cases call with
  | digestBytea data algorithm => exact returning_never (digestBytes_noPanic _ _)
  | digestText data algorithm => exact returning_never (digestBytes_noPanic _ _)
  | hmacBytea data key algorithm => exact returning_never (hmacBytes_noPanic _ _ _)
  | hmacText data key algorithm => exact returning_never (hmacBytes_noPanic _ _ _)
  | blake2b data => exact returning_never (digestBytes_noPanic _ _)
  | sha3_256 data => exact returning_never (digestBytes_noPanic _ _)
  | sha3_512 data => exact returning_never (digestBytes_noPanic _ _)
  | fipsMode => exact returning_never (noPanic_ok _)
  | genRandomBytes length =>
    unfold Call.run
    exact drawing_never (Random.genRandomBytes_noPanic L.generator length s.generator)
  | randomBytes length =>
    unfold Call.run
    exact drawing_never (Random.genRandomBytes_noPanic L.generator length s.generator)
  | genRandomUuid =>
    unfold Call.run
    exact drawing_never (noPanic_ok (Random.genRandomUuid L.generator s.generator))
  | encrypt data key cipherType => exact returning_unaligned transform_panics_iff
  | decrypt data key cipherType =>
    exact returning_never (noPanic_iff.mpr (transform_panics_iff.not.mpr not_unaligned_decrypting))
  | encryptIv data key iv cipherType => exact returning_unaligned transform_panics_iff
  | decryptIv data key iv cipherType =>
    exact returning_never (noPanic_iff.mpr (transform_panics_iff.not.mpr not_unaligned_decrypting))
  | crypt password salt => exact returning_library panics_orUnwind_iff
  | genSalt algorithm rounds => exact returning_never (Password.genSalt_noPanic hP _ _ _)
  | argon2idHash password =>
    unfold Call.run
    exact drawing_never (argon2idHash_noPanic password s.argon2)
  | argon2idVerify password encodedHash => exact returning_never (noPanic_ok _)
  | xchacha20poly1305Encrypt data key associatedData =>
    unfold Call.run
    exact drawing_never (Modern.xchacha20poly1305Encrypt_noPanic data key associatedData s.aead)
  | xchacha20poly1305Decrypt data key associatedData =>
    exact returning_never (Modern.xchacha20poly1305Decrypt_noPanic _ _ _)
  | secretbox data key =>
    unfold Call.run
    exact drawing_never (Modern.secretbox_noPanic data key s.dryoc)
  | secretboxOpen data key => exact returning_never (Modern.secretboxOpen_noPanic _ _)
  | boxSeal data publicKey =>
    unfold Call.run
    exact drawing_never (Modern.boxSeal_noPanic data publicKey s.dryoc)
  | boxSealOpen data publicKey secretKey => exact returning_never (Modern.boxSealOpen_noPanic _ _ _)
  | ed25519Sign data secretKey => exact returning_never (Modern.ed25519Sign_noPanic hD _ _)
  | ed25519Verify data signature publicKey => exact returning_never (Modern.ed25519Verify_noPanic _ _ _)
  | x25519 secretKey publicKey => exact returning_never (x25519_noPanic _ _ _)
  | hkdfSha256 keyMaterial salt info length => exact returning_never (Modern.hkdf_noPanic _ _ _)
  | hkdfSha512 keyMaterial salt info length => exact returning_never (Modern.hkdf_noPanic _ _ _)
  | armor data => exact returning_never (encodeArmor_noPanic _ _)
  | armorWithHeaders data keys values => exact returning_never (armorWithHeaders_noPanic _ _ _)
  | dearmor data => exact returning_library panics_orUnwind_iff
  | pgpArmorHeaders data => exact returning_library panics_orUnwind_iff
  | pgpSymEncrypt data password options =>
    unfold Call.run
    exact drawing_never (Pgp.symEncrypt_noPanic _ _ _ _ _)
  | pgpSymEncryptBytea data password options =>
    unfold Call.run
    exact drawing_never (Pgp.symEncrypt_noPanic _ _ _ _ _)
  | pgpSymDecrypt data password options =>
    refine returning_library ?_
    exact (decryption_panics_iff options).1.trans (and_congr_right fun _ => symDecrypt_panics_iff)
  | pgpSymDecryptBytea data password options =>
    refine returning_library ?_
    exact (decryption_panics_iff options).2.trans (and_congr_right fun _ => symDecrypt_panics_iff)
  | pgpPubEncrypt data publicKey options =>
    unfold Call.run
    exact drawing_library pubEncrypt_panics_iff
  | pgpPubEncryptBytea data publicKey options =>
    unfold Call.run
    exact drawing_library pubEncrypt_panics_iff
  | pgpPubDecrypt data secretKey password options =>
    refine returning_library ?_
    exact (decryption_panics_iff options).1.trans (and_congr_right fun _ => pubDecrypt_panics_iff)
  | pgpPubDecryptBytea data secretKey password options =>
    refine returning_library ?_
    exact (decryption_panics_iff options).2.trans (and_congr_right fun _ => pubDecrypt_panics_iff)
  | pgpKeyId data => exact returning_library pgpKeyId_panics_iff

end Calls

/-- In every run, from every session, a call panics exactly when it is an encryption of
unaligned data in a block mode without padding under a key that is accepted, or when a
library panics on the salt or the foreign data that the call has it read. -/
theorem runs_panic_iff (L : Libraries) (writes : Password.Setting → Prop)
    (checksum : Password.Setting → Bytes → Password.Word) (hD : L.dryoc.Laws)
    (hP : L.pwhash.Laws writes checksum) (s t : Session L) (log : List (Call × Outcome Value))
    (h : Runs L s log t) :
    ∀ entry ∈ log, (∃ message, entry.2 = .error (.panic message)) ↔
      entry.1.Unaligned ∨ entry.1.LibraryPanics L := by
  induction h with
  | nil s => simp
  | @cons s t u entry log hstep _ ih =>
    rw [List.forall_mem_cons]
    refine ⟨?_, ih⟩
    cases hstep with
    | @returned _ call around value hrun =>
      have hiff := run_panics_iff (s := s) hD hP around call
      rw [hrun] at hiff
      rw [← hiff]
      simp
    | @failed call around failure hrun _ =>
      have hiff := run_panics_iff (s := s) hD hP around call
      rw [hrun] at hiff
      rw [← hiff]
      simp [Panics]

/-! ## A recorded session

The recorded answers of the libraries, next to each other; the generator reads a tape.
-/
namespace Recorded

def tape (n : ℕ) (rng : Bytes) : Bytes × Bytes := ((Block.fixed n rng).bytes, rng.drop n)

/-- A version 4 UUID has its version and variant in the seventh and ninth byte. -/
def newV4 (rng : Bytes) : Block 16 × Bytes :=
  let bytes := (Block.fixed 16 rng).bytes
  (Block.fixed 16 ((bytes.set 6 (bytes[6]! &&& 0x0f ||| 0x40)).set 8 (bytes[8]! &&& 0x3f ||| 0x80)),
    rng.drop 16)

def peer : Block 32 := Block.fixed 32 (hexBytes
  ["de9edb7d7b7dc1b4d35b61c2ece435373f8343c85b78674dadfc7e146f882b4f"])
def shared : Block 32 := Block.fixed 32 (hexBytes
  ["4a5d9d5ba4ce2de1728e3bf480350f25e07e21c947d19e3376f09b3c1e161742"])

def scalarmult (secret point : Block 32) : Except String (Block 32) :=
  if secret = Modern.Recorded.boxPair.secretKey ∧ point = peer then .ok shared else .error "not recorded"

def libraries : Libraries where
  ciphers := Raw.knownAnswer
  hashes := Hash.Recorded.hashes
  generator := ⟨Bytes, tape, newV4⟩
  pwhash := Password.Recorded.pwhash
  dryoc := Modern.Recorded.dryoc
  aead := Modern.Recorded.aead
  argon2 := Modern.Recorded.argon2
  scalarmult := scalarmult
  hkdf := Modern.hkdfOf Hash.Recorded.hashes
  armor := Armor.reference
  sequoia := Pgp.Recorded.transcript.replay

def session : Session libraries := ⟨[7, 8, 9], (), (), Modern.Recorded.argon2Salt, []⟩
def around : Surroundings libraries := ⟨1700000100, ()⟩

def panicking : Call := .encrypt [1] Raw.aesTestKey.bytes "aes-cbc/pad:none"

/-- A call that fails, one that returns and one that panics. -/
def log : List (Call × Outcome Value) :=
  [(.genRandomBytes 2000, raise "length must be between 1 and 1024"), (.fipsMode, .ok (.boolean false)),
    (panicking, abort (Raw.knownAnswer.unalignedText 1 16))]

theorem runs_log : Runs libraries session log session := by
  have hlength : (Call.genRandomBytes 2000).run libraries session around =
      raise "length must be between 1 and 1024" := by rfl
  have hmode : Call.fipsMode.run libraries session around = .ok (.boolean false, session) := by rfl
  have hpanic : panicking.run libraries session around =
      abort (Raw.knownAnswer.unalignedText 1 16) := by rfl
  exact .cons (.failed hlength session) (.cons (.returned hmode) (.cons (.failed hpanic session) (.nil _)))

end Recorded

theorem runs_panic_iff_recorded :
    Runs Recorded.libraries Recorded.session Recorded.log Recorded.session ∧
      Recorded.panicking.Unaligned := by
  have h := runs_panic_iff Recorded.libraries _ _ Modern.Recorded.dryoc_laws Password.Recorded.pwhash_laws
    _ _ _ Recorded.runs_log (Recorded.panicking, abort (Raw.knownAnswer.unalignedText 1 16))
    (.tail _ (.tail _ (.head _)))
  exact ⟨Recorded.runs_log, (h.mp ⟨_, rfl⟩).resolve_right id⟩

end PgCrypto.Extension
