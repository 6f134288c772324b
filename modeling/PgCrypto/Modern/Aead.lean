import PgCrypto.Base.Utf8
import PgCrypto.Modern.Framing

/-! # Authenticated encryption with associated data, and password hashes

The envelope of XChaCha20-Poly1305 is the library's own: the nonce, the ciphertext and
the tag, in this order, so that the ciphertext is what is left between two parts of fixed
length. The password functions only pass on what the library says.
-/
namespace PgCrypto.Modern
open Cipher

structure AeadEnvelope where
  nonce : Block 24
  ciphertext : Bytes
  tag : Block 16
  deriving DecidableEq

structure Aead where
  Rng : Type
  sealToVec : Bytes → Option Bytes → Block 32 → Rng → Except String (AeadEnvelope × Rng)
  intoVec : AeadEnvelope → Bytes
  fromBytes : Bytes → Except String AeadEnvelope
  openToVec : AeadEnvelope → Option Bytes → Block 32 → Except String Bytes

/-- The envelope cut where its parts meet. -/
def aeadParts (e : Bytes) : AeadEnvelope where
  nonce := Block.fixed 24 e
  ciphertext := (e.drop 24).take (e.length - 40)
  tag := Block.fixed 16 (e.drop (e.length - 16))

/-- The envelope is written in the order of its parts and cut at the same places, an
input without room for nonce and tag is refused, and opening inverts sealing under the
same associated data. -/
structure Aead.Laws (A : Aead) : Prop where
  intoVec_eq : ∀ envelope,
    A.intoVec envelope = envelope.nonce.bytes ++ envelope.ciphertext ++ envelope.tag.bytes
  fromBytes_eq : ∀ bytes, 40 ≤ bytes.length → A.fromBytes bytes = .ok (aeadParts bytes)
  fromBytes_short : ∀ bytes, bytes.length < 40 → ∃ e, A.fromBytes bytes = .error e
  open_seal : ∀ data associatedData key rng, ∃ envelope rng',
    A.sealToVec data associatedData key rng = .ok (envelope, rng') ∧
      A.openToVec envelope associatedData key = .ok data

section Functions
variable (A : Aead)

def xchacha20poly1305Encrypt (data key associatedData : Bytes) (rng : A.Rng) : Outcome (Bytes × A.Rng) := do
  let key ← exactArray 32 key "XChaCha20-Poly1305 key"
  let (envelope, rng) ← orRaise "XChaCha20-Poly1305 encryption failed"
    (A.sealToVec data (some associatedData) key rng)
  .ok (A.intoVec envelope, rng)

def xchacha20poly1305Decrypt (data key associatedData : Bytes) : Outcome Bytes := do
  let key ← exactArray 32 key "XChaCha20-Poly1305 key"
  let envelope ← orRaise "invalid XChaCha20-Poly1305 envelope" (A.fromBytes data)
  orRaise "XChaCha20-Poly1305 authentication failed" (A.openToVec envelope (some associatedData) key)

end Functions

section Parts

theorem aeadParts_join (envelope : AeadEnvelope) :
    aeadParts (envelope.nonce.bytes ++ envelope.ciphertext ++ envelope.tag.bytes) = envelope := by
  obtain ⟨nonce, ciphertext, tag⟩ := envelope
  have hn := nonce.length_eq
  have ht := tag.length_eq
  have hlength : (nonce.bytes ++ ciphertext ++ tag.bytes).length = 24 + ciphertext.length + 16 := by
    rw [List.length_append, List.length_append, hn, ht]
  have hmiddle : ((nonce.bytes ++ ciphertext ++ tag.bytes).drop 24).take
      ((nonce.bytes ++ ciphertext ++ tag.bytes).length - 40) = ciphertext := by
    rw [hlength, List.append_assoc, List.drop_left' hn, List.take_left' (by omega)]
  have htag : (nonce.bytes ++ ciphertext ++ tag.bytes).drop
      ((nonce.bytes ++ ciphertext ++ tag.bytes).length - 16) = tag.bytes := by
    rw [hlength, List.drop_left' (by rw [List.length_append, hn]; omega)]
  have hfixed := Block.fixed_append tag []
  rw [List.append_nil] at hfixed
  rw [aeadParts, hmiddle, htag, List.append_assoc, Block.fixed_append, hfixed]

/-- A long enough input is made up of its parts. -/
theorem join_aeadParts {e : Bytes} (h : 40 ≤ e.length) :
    (aeadParts e).nonce.bytes ++ (aeadParts e).ciphertext ++ (aeadParts e).tag.bytes = e := by
  have htag : (Block.fixed 16 (e.drop (e.length - 16))).bytes = e.drop (e.length - 16) := by
    have hlength : (e.drop (e.length - 16)).length = 16 := by
      rw [List.length_drop]
      omega
    rw [Block.fixed_bytes_of_le (Nat.le_of_eq hlength.symm), List.take_of_length_le (Nat.le_of_eq hlength)]
  have hnonce : (Block.fixed 24 e).bytes = e.take 24 := Block.fixed_bytes_of_le (by omega)
  have hsum : 24 + (e.length - 40) = e.length - 16 := by omega
  simp only [aeadParts, htag, hnonce]
  rw [← List.take_add, hsum, List.take_append_drop]

end Parts

section Calls
variable {A : Aead}

theorem xchacha20poly1305Decrypt_eq_ok_iff (hA : A.Laws) (e d associatedData : Bytes) (key : Block 32) :
    xchacha20poly1305Decrypt A e key.bytes associatedData = .ok d ↔
      40 ≤ e.length ∧ A.openToVec (aeadParts e) (some associatedData) key = .ok d := by
  rw [xchacha20poly1305Decrypt, exactArray_bytes, ok_bind]
  by_cases h : 40 ≤ e.length
  · rw [hA.fromBytes_eq e h, orRaise_ok, ok_bind, orRaise_eq_ok]
    simp [h]
  · obtain ⟨error, herror⟩ := hA.fromBytes_short e (Nat.lt_of_not_le h)
    rw [herror]
    simp [orRaise, raise, h]

theorem xchacha20poly1305Encrypt_eq_ok (hA : A.Laws) (data associatedData : Bytes) (key : Block 32)
    (rng : A.Rng) : ∃ envelope rng', xchacha20poly1305Encrypt A data key.bytes associatedData rng =
        .ok (A.intoVec envelope, rng') ∧
      A.openToVec envelope (some associatedData) key = .ok data := by
  obtain ⟨envelope, rng', hseal, hopen⟩ := hA.open_seal data (some associatedData) key rng
  refine ⟨envelope, rng', ?_, hopen⟩
  rw [xchacha20poly1305Encrypt, exactArray_bytes, ok_bind, hseal, orRaise_ok, ok_bind]

theorem xchacha20poly1305Encrypt_noPanic (data key associatedData : Bytes) (rng : A.Rng) :
    NoPanic (xchacha20poly1305Encrypt A data key associatedData rng) := by
  refine (noPanic_exactArray _ _ _).bind ?_
  intro key _
  refine (noPanic_orRaise _ _).bind ?_
  intro envelope _
  exact noPanic_ok _

theorem xchacha20poly1305Decrypt_noPanic (data key associatedData : Bytes) :
    NoPanic (xchacha20poly1305Decrypt A data key associatedData) := by
  refine (noPanic_exactArray _ _ _).bind ?_
  intro key _
  refine (noPanic_orRaise _ _).bind ?_
  intro envelope _
  exact noPanic_orRaise _ _

theorem xchacha20poly1305Decrypt_encrypt (hA : A.Laws) (data associatedData : Bytes) (key : Block 32)
    (rng : A.Rng) : ∃ out rng', xchacha20poly1305Encrypt A data key.bytes associatedData rng = .ok (out, rng') ∧
      xchacha20poly1305Decrypt A out key.bytes associatedData = .ok data := by
  obtain ⟨envelope, rng', hseal, hopen⟩ := xchacha20poly1305Encrypt_eq_ok hA data associatedData key rng
  refine ⟨_, _, hseal, (xchacha20poly1305Decrypt_eq_ok_iff hA _ _ _ key).mpr ⟨?_, ?_⟩⟩
  · have hn := envelope.nonce.length_eq
    have ht := envelope.tag.length_eq
    rw [hA.intoVec_eq, List.length_append, List.length_append]
    omega
  · rw [hA.intoVec_eq, aeadParts_join]
    exact hopen

end Calls

/-- What an encryption returns opens under the same key and associated data to the data;
decryption returns exactly what the primitive makes of the parts of an input that has room
for nonce and tag; and no two such inputs have the same parts. -/
theorem aeadFraming (A : Aead) (hA : A.Laws) (key : Block 32) (associatedData : Bytes) :
    (∀ data rng, ∃ out rng', xchacha20poly1305Encrypt A data key.bytes associatedData rng = .ok (out, rng') ∧
      xchacha20poly1305Decrypt A out key.bytes associatedData = .ok data) ∧
    (∀ e d, xchacha20poly1305Decrypt A e key.bytes associatedData = .ok d ↔
      40 ≤ e.length ∧ A.openToVec (aeadParts e) (some associatedData) key = .ok d) ∧
    (∀ e e', 40 ≤ e.length → 40 ≤ e'.length → aeadParts e = aeadParts e' → e = e') := by
  refine ⟨?_, ?_, ?_⟩
  · intro data rng
    exact xchacha20poly1305Decrypt_encrypt hA data associatedData key rng
  · intro e d
    exact xchacha20poly1305Decrypt_eq_ok_iff hA e d associatedData key
  · intro e e' h h' heq
    rw [← join_aeadParts h, ← join_aeadParts h', heq]

/-! ## A recorded answer

One envelope under the key, data and associated data of the smoke test. On other data the
library built from it only labels the data.
-/
namespace Recorded

def context : Bytes := hexBytes ["636f6e74657874"]
def envelope : AeadEnvelope where
  nonce := nonce
  ciphertext := hexBytes ["f37fbe1e8d"]
  tag := Block.fixed 16 (hexBytes ["3824337d3e927b23ce69f17f88497522"])

def aead : Aead where
  Rng := Unit
  sealToVec data associatedData k rng :=
    .ok (if data = hello ∧ associatedData = some context ∧ k = key then envelope else ⟨nonce, data, 0⟩, rng)
  intoVec e := e.nonce.bytes ++ e.ciphertext ++ e.tag.bytes
  fromBytes bytes := if 40 ≤ bytes.length then .ok (aeadParts bytes) else .error "too short"
  openToVec e associatedData k :=
    if e = envelope ∧ associatedData = some context ∧ k = key then .ok hello
    else if e.tag = 0 then .ok e.ciphertext else .error "authentication failed"

theorem aead_laws : aead.Laws where
  intoVec_eq _ := rfl
  fromBytes_eq _ h := if_pos h
  fromBytes_short _ h := ⟨_, if_neg (Nat.not_le.mpr h)⟩
  open_seal data associatedData k rng := by
    have htag : envelope.tag ≠ 0 := by decide
    refine ⟨_, rng, rfl, ?_⟩
    by_cases h : data = hello ∧ associatedData = some context ∧ k = key
    · obtain ⟨rfl, rfl, rfl⟩ := h
      simp [aead]
    · have henvelope : (⟨nonce, data, 0⟩ : AeadEnvelope) ≠ envelope := by
        intro he
        exact htag (congrArg AeadEnvelope.tag he).symm
      simp [aead, h, henvelope]

end Recorded

theorem aeadFraming_recorded :
    (∃ out, xchacha20poly1305Encrypt Recorded.aead Recorded.hello Recorded.key.bytes Recorded.context () =
        .ok (out, ()) ∧
      xchacha20poly1305Decrypt Recorded.aead out Recorded.key.bytes Recorded.context = .ok Recorded.hello) ∧
    xchacha20poly1305Decrypt Recorded.aead (hexBytes ["000102030405060708090a0b0c0d0e0f1011121314151617",
      "f37fbe1e8d", "3824337d3e927b23ce69f17f88497522"]) Recorded.key.bytes Recorded.context = .ok Recorded.hello := by
  obtain ⟨hround, hopen, -⟩ := aeadFraming Recorded.aead Recorded.aead_laws Recorded.key Recorded.context
  refine ⟨?_, (hopen _ _).mpr ⟨by decide, by rfl⟩⟩
  obtain ⟨out, rng', hseal, hback⟩ := hround Recorded.hello ()
  exact ⟨out, hseal, hback⟩

/-- The password hashing of the library. -/
structure Argon2 where
  Rng : Type
  PwHash : Type
  hashWithDefaults : Bytes → Rng → Except String (PwHash × Rng)
  toEncodedString : PwHash → Except String String
  fromStringWithDefaults : String → Except String PwHash
  verify : PwHash → Bytes → Except String Unit

/-- An encoded hash is read back, and verifies the password it was made of. -/
structure Argon2.Laws (P : Argon2) : Prop where
  verify_encoded : ∀ password rng hash rng' encoded, P.hashWithDefaults password rng = .ok (hash, rng') →
    P.toEncodedString hash = .ok encoded →
      ∃ parsed, P.fromStringWithDefaults encoded = .ok parsed ∧ P.verify parsed password = .ok ()

section Passwords
open Utf8
variable (P : Argon2)

def argon2idHash (password : String) (rng : P.Rng) : Outcome (String × P.Rng) := do
  let (hash, rng) ← orRaise "Argon2id hashing failed" (P.hashWithDefaults (utf8 password) rng)
  let encoded ← orRaise "Argon2id encoding failed" (P.toEncodedString hash)
  .ok (encoded, rng)

/-- A hash that cannot be read does not verify. -/
def argon2idVerify (password encodedHash : String) : Bool :=
  match P.fromStringWithDefaults encodedHash >>= fun hash => P.verify hash (utf8 password) with
  | .ok _ => true
  | .error _ => false

end Passwords

/-! ## A recorded hash

The password of the smoke test under one drawn salt, with the default parameters.
-/
namespace Recorded
open Utf8

def argon2Password : String := "a long unique password"
def argon2Salt : Bytes := hexBytes ["000102030405060708090a0b0c0d0e0f"]
def argon2Encoded : String :=
  "$argon2id$v=19$m=65536,t=2,p=1$AAECAwQFBgcICQoLDA0ODw$CIaZizLy6NVltj2uDfTo7bNhZmFd1nfjbYteNydRwKE"

def argon2 : Argon2 where
  Rng := Bytes
  PwHash := String
  hashWithDefaults password rng :=
    if password = utf8 argon2Password ∧ rng.take 16 = argon2Salt then .ok (argon2Encoded, rng.drop 16)
    else .error "not recorded"
  toEncodedString hash := .ok hash
  fromStringWithDefaults encoded :=
    if encoded = argon2Encoded then .ok encoded else .error "not recorded"
  verify _ password := if password = utf8 argon2Password then .ok () else .error "invalid password"

theorem hashWithDefaults_eq_ok {password : Bytes} {rng rng' : argon2.Rng} {hash : String}
    (h : argon2.hashWithDefaults password rng = .ok (hash, rng')) :
    password = utf8 argon2Password ∧ hash = argon2Encoded := by
  simp only [argon2] at h
  split at h
  · next hrecorded =>
    cases h
    exact ⟨hrecorded.1, rfl⟩
  · cases h

theorem argon2_laws : argon2.Laws where
  verify_encoded password rng hash rng' encoded hhash hencoded := by
    obtain ⟨rfl, rfl⟩ := hashWithDefaults_eq_ok hhash
    cases hencoded
    exact ⟨argon2Encoded, by simp [argon2], by simp [argon2]⟩

theorem argon2idHash_password :
    argon2idHash argon2 argon2Password argon2Salt = .ok (argon2Encoded, []) := by
  have htake : argon2Salt.take 16 = argon2Salt := by decide
  have hdrop : argon2Salt.drop 16 = [] := by decide
  have hdrawn : argon2.hashWithDefaults (utf8 argon2Password) argon2Salt = .ok (argon2Encoded, []) := by
    simp only [argon2, htake, hdrop, and_self, if_true]
  unfold argon2idHash
  rw [hdrawn]
  rfl

end Recorded

end PgCrypto.Modern
