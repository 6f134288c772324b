import PgCrypto.Extension.Safety
import PgCrypto.Pgp.Armored

/-! # Values that come back in a later call

Most functions come in pairs: what one call returns, a matching call takes apart again.
Between the two calls lie other calls of the run, which move the generators and may fail.
Nothing the extension keeps decides about the second call, so in every run it gives back
what the first one was given. An account takes three calls: a salt is generated, a
password is hashed with it, and attempts are compared with the stored hash.
-/
namespace PgCrypto.Extension
open Cipher Str Utf8

/-- The documented behaviour of the libraries that come in pairs. -/
structure Libraries.Laws (L : Libraries) (writes : Password.Setting → Prop)
    (checksum : Password.Setting → Bytes → Password.Word) : Prop where
  pwhash : L.pwhash.Laws writes checksum
  dryoc : L.dryoc.Laws
  aead : L.aead.Laws
  argon2 : L.argon2.Laws
  armorWriter : L.armor.WriterLaws
  armorReader : L.armor.ReaderLaws
  skesk : L.sequoia.SkeskLaws
  writer : L.sequoia.WriterLaws
  reader : L.sequoia.ReaderLaws
  recipient : L.sequoia.RecipientLaws

/-- The secret certificate opens messages of every time at which there is a recipient. -/
def HoldsRecipients (S : Pgp.Sequoia) (publicKey secretKey : Bytes) (password : String) : Prop :=
  ∀ now cert, S.certFromBytes publicKey = .ok cert → Pgp.recipients cert now ≠ [] →
    Pgp.HoldsRecipient S publicKey secretKey password now

/-- The second call is the counterpart of the first on the value that one returned, and
should give the last value. -/
inductive Opens (L : Libraries) (writes : Password.Setting → Prop) : Call → Value → Call → Value → Prop
  | decrypt (data key out : Bytes) (cipherType : String) :
    Opens L writes (.encrypt data key cipherType) (.bytea out) (.decrypt out key cipherType) (.bytea data)
  | decryptIv (data key iv out : Bytes) (cipherType : String) :
    Opens L writes (.encryptIv data key iv cipherType) (.bytea out) (.decryptIv out key iv cipherType)
      (.bytea data)
  | crypt (z : Password.Setting) (hz : writes z) (password hash : String) :
    Opens L writes (.crypt password (String.ofList z.text)) (.text hash) (.crypt password hash) (.text hash)
  | argon2idVerify (password encodedHash : String) :
    Opens L writes (.argon2idHash password) (.text encodedHash) (.argon2idVerify password encodedHash)
      (.boolean true)
  | secretboxOpen (data key out : Bytes) :
    Opens L writes (.secretbox data key) (.bytea out) (.secretboxOpen out key) (.bytea data)
  | xchacha20poly1305Decrypt (data key associatedData out : Bytes) :
    Opens L writes (.xchacha20poly1305Encrypt data key associatedData) (.bytea out)
      (.xchacha20poly1305Decrypt out key associatedData) (.bytea data)
  | boxSealOpen (pair : Modern.BoxKeyPair) (hpair : L.dryoc.keyPair pair) (data out : Bytes) :
    Opens L writes (.boxSeal data pair.publicKey.bytes) (.bytea out)
      (.boxSealOpen out pair.publicKey.bytes pair.secretKey.bytes) (.bytea data)
  | ed25519Verify (secretKey : Block 64) (hkey : L.dryoc.signingKey secretKey) (data signature : Bytes) :
    Opens L writes (.ed25519Sign data secretKey.bytes) (.bytea signature)
      (.ed25519Verify data signature (L.dryoc.secretKeyToPublicKey secretKey).bytes) (.boolean true)
  | dearmor (data : Bytes) (hdata : data ≠ []) (text : String) :
    Opens L writes (.armor data) (.text text) (.dearmor text) (.bytea data)
  | dearmorWithHeaders (data : Bytes) (hdata : data ≠ []) (keys values : Armor.TextArray) (text : String) :
    Opens L writes (.armorWithHeaders data keys values) (.text text) (.dearmor text) (.bytea data)
  | pgpSymDecrypt (data : Pgp.PgText) (password options : String) (out : Bytes) :
    Opens L writes (.pgpSymEncrypt data password options) (.bytea out)
      (.pgpSymDecrypt out password options) (.text data.val)
  | pgpSymDecryptBytea (data : Bytes) (password options : String) (out : Bytes) :
    Opens L writes (.pgpSymEncryptBytea data password options) (.bytea out)
      (.pgpSymDecryptBytea out password options) (.bytea data)
  | pgpPubDecrypt (publicKey secretKey : Bytes) (password : String)
      (hold : HoldsRecipients L.sequoia publicKey secretKey password) (data : Pgp.PgText) (options : String)
      (out : Bytes) :
    Opens L writes (.pgpPubEncrypt data publicKey options) (.bytea out)
      (.pgpPubDecrypt out secretKey password options) (.text data.val)
  | pgpPubDecryptBytea (publicKey secretKey : Bytes) (password : String)
      (hold : HoldsRecipients L.sequoia publicKey secretKey password) (data : Bytes) (options : String)
      (out : Bytes) :
    Opens L writes (.pgpPubEncryptBytea data publicKey options) (.bytea out)
      (.pgpPubDecryptBytea out secretKey password options) (.bytea data)

section Results
variable {L : Libraries} {s s' : Session L} {α ρ : Type} {value : α → Value} {v : Value}

theorem returning_eq_ok {x : Outcome α} :
    returning L s value x = .ok (v, s') ↔ ∃ a, x = .ok a ∧ value a = v ∧ s = s' := by
  simp [returning]

theorem drawing_eq_ok {next : ρ → Session L} {x : Outcome (α × ρ)} :
    drawing L value next x = .ok (v, s') ↔ ∃ a rng, x = .ok (a, rng) ∧ value a = v ∧ next rng = s' := by
  simp [drawing]

end Results

section Pairs

theorem exactArray_eq_ok {N : ℕ} {bytes : Bytes} {what : String} {b : Block N}
    (h : Modern.exactArray N bytes what = .ok b) : bytes = b.bytes := by
  unfold Modern.exactArray at h
  split at h
  · cases h
    rfl
  · simp at h

theorem secretboxOpen_of_secretbox {D : Modern.Dryoc} (hD : D.Laws) {data key out : Bytes}
    {rng rng' : D.Rng} (h : Modern.secretbox D data key rng = .ok (out, rng')) :
    Modern.secretboxOpen D out key = .ok data := by
  obtain ⟨block, hblock, -⟩ := bind_eq_ok.mp h
  cases exactArray_eq_ok hblock
  obtain ⟨_, _, hseal, hopen⟩ := Modern.secretboxOpen_secretbox hD data block rng
  rw [h] at hseal
  cases hseal
  exact hopen

theorem xchacha20poly1305Decrypt_of_encrypt {A : Modern.Aead} (hA : A.Laws)
    {data key associatedData out : Bytes} {rng rng' : A.Rng}
    (h : Modern.xchacha20poly1305Encrypt A data key associatedData rng = .ok (out, rng')) :
    Modern.xchacha20poly1305Decrypt A out key associatedData = .ok data := by
  obtain ⟨block, hblock, -⟩ := bind_eq_ok.mp h
  cases exactArray_eq_ok hblock
  obtain ⟨_, _, hseal, hopen⟩ := Modern.xchacha20poly1305Decrypt_encrypt hA data associatedData block rng
  rw [h] at hseal
  cases hseal
  exact hopen

theorem boxSealOpen_of_boxSeal {D : Modern.Dryoc} (hD : D.Laws) {pair : Modern.BoxKeyPair}
    (hpair : D.keyPair pair) {data out : Bytes} {rng rng' : D.Rng}
    (h : Modern.boxSeal D data pair.publicKey.bytes rng = .ok (out, rng')) :
    Modern.boxSealOpen D out pair.publicKey.bytes pair.secretKey.bytes = .ok data := by
  obtain ⟨_, _, hseal, hopen⟩ := Modern.boxSealOpen_boxSeal hD hpair data rng
  rw [h] at hseal
  cases hseal
  exact hopen

theorem ed25519Verify_of_sign {D : Modern.Dryoc} (hD : D.Laws) {secretKey : Block 64}
    (hkey : D.signingKey secretKey) {data signature : Bytes}
    (h : Modern.ed25519Sign D data secretKey.bytes = .ok signature) :
    Modern.ed25519Verify D data signature (D.secretKeyToPublicKey secretKey).bytes = .ok true := by
  obtain ⟨_, hsign, hverify⟩ := Modern.ed25519Verify_ed25519Sign hD hkey data
  rw [h] at hsign
  cases hsign
  exact hverify

/-- A stored hash gives every password its own checksum under the setting of the hash. -/
theorem crypt_of_crypt {lib : Password.Pwhash} {writes : Password.Setting → Prop}
    {checksum : Password.Setting → Bytes → Password.Word} (laws : lib.Laws writes checksum)
    {z : Password.Setting} (hz : writes z) {password hash : String}
    (h : Password.crypt lib password (String.ofList z.text) = .ok hash) :
    hash = String.ofList (z.text ++ (checksum z (utf8 password)).chars) ∧
      ∀ attempt, Password.crypt lib attempt hash =
        .ok (String.ofList (z.text ++ (checksum z (utf8 attempt)).chars)) := by
  rw [Password.crypt, laws.unixCrypt_setting z (utf8 password) hz, orUnwind_ok] at h
  cases h
  refine ⟨rfl, ?_⟩
  intro attempt
  rw [Password.crypt, laws.unixCrypt_hash z (utf8 attempt) (utf8 password) hz, orUnwind_ok]

theorem argon2idVerify_of_hash {P : Modern.Argon2} (hP : P.Laws) {password encodedHash : String}
    {rng rng' : P.Rng} (h : Modern.argon2idHash P password rng = .ok (encodedHash, rng')) :
    Modern.argon2idVerify P password encodedHash = true := by
  obtain ⟨⟨hash, rng₁⟩, hhash, h⟩ := bind_eq_ok.mp h
  obtain ⟨encoded, hencoded, h⟩ := bind_eq_ok.mp h
  cases h
  obtain ⟨parsed, hparsed, hverify⟩ := hP.verify_encoded _ _ _ _ _ (orRaise_eq_ok.mp hhash)
    (orRaise_eq_ok.mp hencoded)
  rw [Modern.argon2idVerify, hparsed, ok_bind, hverify]

theorem dearmor_of_encodeArmor {A : Armor.Library} (hW : A.WriterLaws) (hR : A.ReaderLaws) {data : Bytes}
    (hdata : data ≠ []) {headers : List (String × String)}
    (hheaders : ∀ header ∈ headers, Armor.Accepted header) {text : String}
    (h : Armor.encodeArmor A data headers = .ok text) : Armor.dearmor A text = .ok data := by
  have hround := (Armor.dearmor_encodeArmor_iff hW hR data hheaders).mpr hdata
  rwa [h, ok_bind] at hround

/-- An encryption to keys has a recipient, so the secret certificate opens it. -/
theorem HoldsRecipients.holdsRecipient {S : Pgp.Sequoia} (hR : S.RecipientLaws)
    {publicKey secretKey data out : Bytes} {password o : String} {text : Bool} {now : Pgp.Time}
    {rng rng' : S.Rng} (hold : HoldsRecipients S publicKey secretKey password)
    (h : Pgp.pubEncrypt S data publicKey o text now rng = .ok (out, rng')) :
    Pgp.HoldsRecipient S publicKey secretKey password now := by
  obtain ⟨P, cert, -, hcert, -⟩ := Pgp.pubEncrypt_eq_ok.mp h
  exact hold now cert hcert (Pgp.pubEncrypt_recipients hR hcert h)

end Pairs

section Steps
variable {L : Libraries} {writes : Password.Setting → Prop}
  {checksum : Password.Setting → Bytes → Password.Word}

/-- One pair: wherever the first call returned, the second gives the value back in every
session. -/
theorem run_opens (hL : L.Laws writes checksum) {first second : Call} {value expected : Value}
    (h : Opens L writes first value second expected) {s s' : Session L} {around : Surroundings L}
    (hfirst : first.run L s around = .ok (value, s')) (t : Session L) (later : Surroundings L) :
    second.run L t later = .ok (expected, t) := by
  unfold Call.run at hfirst ⊢
  cases h with
  | decrypt data key out cipherType =>
    obtain ⟨_, hout, ⟨⟩, -⟩ := returning_eq_ok.mp hfirst
    exact returning_eq_ok.mpr ⟨data, (Raw.transform_inverse L.ciphers key [] cipherType data out).mp hout,
      rfl, rfl⟩
  | decryptIv data key iv out cipherType =>
    obtain ⟨_, hout, ⟨⟩, -⟩ := returning_eq_ok.mp hfirst
    exact returning_eq_ok.mpr ⟨data, (Raw.transform_inverse L.ciphers key iv cipherType data out).mp hout,
      rfl, rfl⟩
  | crypt z hz password hash =>
    obtain ⟨_, hout, ⟨⟩, -⟩ := returning_eq_ok.mp hfirst
    obtain ⟨hhash, hagain⟩ := crypt_of_crypt hL.pwhash hz hout
    exact returning_eq_ok.mpr ⟨hash, (hagain password).trans (congrArg Except.ok hhash.symm), rfl, rfl⟩
  | argon2idVerify password encodedHash =>
    obtain ⟨_, _, hout, ⟨⟩, -⟩ := drawing_eq_ok.mp hfirst
    exact returning_eq_ok.mpr ⟨true, congrArg Except.ok (argon2idVerify_of_hash hL.argon2 hout), rfl, rfl⟩
  | secretboxOpen data key out =>
    obtain ⟨_, _, hout, ⟨⟩, -⟩ := drawing_eq_ok.mp hfirst
    exact returning_eq_ok.mpr ⟨data, secretboxOpen_of_secretbox hL.dryoc hout, rfl, rfl⟩
  | xchacha20poly1305Decrypt data key associatedData out =>
    obtain ⟨_, _, hout, ⟨⟩, -⟩ := drawing_eq_ok.mp hfirst
    exact returning_eq_ok.mpr ⟨data, xchacha20poly1305Decrypt_of_encrypt hL.aead hout, rfl, rfl⟩
  | boxSealOpen pair hpair data out =>
    obtain ⟨_, _, hout, ⟨⟩, -⟩ := drawing_eq_ok.mp hfirst
    exact returning_eq_ok.mpr ⟨data, boxSealOpen_of_boxSeal hL.dryoc hpair hout, rfl, rfl⟩
  | ed25519Verify secretKey hkey data signature =>
    obtain ⟨_, hout, ⟨⟩, -⟩ := returning_eq_ok.mp hfirst
    exact returning_eq_ok.mpr ⟨true, ed25519Verify_of_sign hL.dryoc hkey hout, rfl, rfl⟩
  | dearmor data hdata text =>
    obtain ⟨_, hout, ⟨⟩, -⟩ := returning_eq_ok.mp hfirst
    have hback := dearmor_of_encodeArmor hL.armorWriter hL.armorReader hdata (by simp) hout
    exact returning_eq_ok.mpr ⟨data, hback, rfl, rfl⟩
  | dearmorWithHeaders data hdata keys values text =>
    obtain ⟨_, hout, ⟨⟩, -⟩ := returning_eq_ok.mp hfirst
    obtain ⟨headers, hheaders, hout⟩ := bind_eq_ok.mp hout
    obtain ⟨_, _, -, -, -, -, haccepted⟩ := Armor.checkedHeaders_eq_ok hheaders
    have hback := dearmor_of_encodeArmor hL.armorWriter hL.armorReader hdata haccepted hout
    exact returning_eq_ok.mpr ⟨data, hback, rfl, rfl⟩
  | pgpSymDecrypt data password options out =>
    obtain ⟨_, _, hout, ⟨⟩, -⟩ := drawing_eq_ok.mp hfirst
    obtain ⟨P, hP, hopen⟩ := Pgp.symDecrypt_symEncrypt hL.skesk hL.writer hL.reader hout
    exact returning_eq_ok.mpr ⟨data.val, Pgp.decrypted_sameOptions hP data hopen, rfl, rfl⟩
  | pgpSymDecryptBytea data password options out =>
    obtain ⟨_, _, hout, ⟨⟩, -⟩ := drawing_eq_ok.mp hfirst
    obtain ⟨P, hP, hopen⟩ := Pgp.symDecrypt_symEncrypt hL.skesk hL.writer hL.reader hout
    exact returning_eq_ok.mpr ⟨data, Pgp.decryptedBytea_sameOptions hP hopen, rfl, rfl⟩
  | pgpPubDecrypt publicKey secretKey password hold data options out =>
    obtain ⟨_, _, hout, ⟨⟩, -⟩ := drawing_eq_ok.mp hfirst
    obtain ⟨P, hP, hopen⟩ := Pgp.pubDecrypt_pubEncrypt hL.recipient hL.writer hL.reader
      (hold.holdsRecipient hL.recipient hout) hout
    exact returning_eq_ok.mpr ⟨data.val, Pgp.decrypted_sameOptions hP data hopen, rfl, rfl⟩
  | pgpPubDecryptBytea publicKey secretKey password hold data options out =>
    obtain ⟨_, _, hout, ⟨⟩, -⟩ := drawing_eq_ok.mp hfirst
    obtain ⟨P, hP, hopen⟩ := Pgp.pubDecrypt_pubEncrypt hL.recipient hL.writer hL.reader
      (hold.holdsRecipient hL.recipient hout) hout
    exact returning_eq_ok.mpr ⟨data, Pgp.decryptedBytea_sameOptions hP hopen, rfl, rfl⟩

/-- A call can be made in every session. -/
theorem exists_step (s : Session L) (around : Surroundings L) (call : Call) :
    ∃ outcome t, Step L s (call, outcome) t := by
  cases hrun : call.run L s around with
  | ok result => exact ⟨.ok result.1, result.2, .returned hrun⟩
  | error failure => exact ⟨.error failure, s, .failed hrun s⟩

/-- What a log holds of a call is what the call gives in some session. -/
theorem Runs.exists_run {s t : Session L} {log : List (Call × Outcome Value)} (h : Runs L s log t)
    {call : Call} {outcome : Outcome Value} (hmem : (call, outcome) ∈ log) :
    ∃ u around, outcome = Prod.fst <$> call.run L u around := by
  induction h with
  | nil s => cases hmem
  | cons hstep _ ih =>
    rcases List.mem_cons.mp hmem with rfl | hmem
    · cases hstep with
      | @returned _ _ around _ hrun => exact ⟨_, around, by rw [hrun]; rfl⟩
      | @failed _ around _ hrun _ => exact ⟨_, around, by rw [hrun]; rfl⟩
    · exact ih hmem

theorem Runs.exists_returned {s t : Session L} {log : List (Call × Outcome Value)} (h : Runs L s log t)
    {call : Call} {value : Value} (hmem : (call, .ok value) ∈ log) :
    ∃ u around v, call.run L u around = .ok (value, v) := by
  obtain ⟨u, around, hrun⟩ := h.exists_run hmem
  obtain ⟨⟨_, v⟩, hresult, rfl⟩ := map_eq_ok.mp hrun.symm
  exact ⟨u, around, v, hresult⟩

end Steps

/-- In every run, a call that is the counterpart of one that returned gives back what
that one was given, however many calls lie between them and however these ended. -/
theorem runs_open (L : Libraries) (writes : Password.Setting → Prop)
    (checksum : Password.Setting → Bytes → Password.Word) (hL : L.Laws writes checksum) (s t : Session L)
    (log : List (Call × Outcome Value)) (h : Runs L s log t) (first second : Call) (value expected : Value)
    (hopens : Opens L writes first value second expected) (hfirst : (first, .ok value) ∈ log) :
    ∀ outcome, (second, outcome) ∈ log → outcome = .ok expected := by
  intro outcome hsecond
  obtain ⟨u, around, v, hrun⟩ := h.exists_returned hfirst
  obtain ⟨u', later, rfl⟩ := h.exists_run hsecond
  rw [run_opens hL hopens hrun u' later]
  rfl

namespace Recorded

theorem libraries_laws : libraries.Laws (· = Password.Recorded.setting) Password.Recorded.checksum where
  pwhash := Password.Recorded.pwhash_laws
  dryoc := Modern.Recorded.dryoc_laws
  aead := Modern.Recorded.aead_laws
  argon2 := Modern.Recorded.argon2_laws
  armorWriter := Armor.reference_writerLaws
  armorReader := Armor.reference_readerLaws
  skesk := Pgp.Transcript.replay_skeskLaws _
  writer := Pgp.Transcript.replay_writerLaws _
  reader := Pgp.Transcript.replay_readerLaws Pgp.Recorded.transcript_wellFormed
  recipient := Pgp.Transcript.replay_recipientLaws Pgp.Recorded.transcript_wellFormed

def encrypting : Call := .pgpSymEncrypt ⟨"one\ntwo\n", by decide⟩ "password" "s2k-mode=0,convert-crlf=1"
def decrypting : Call := .pgpSymDecrypt Pgp.Recorded.symOut "password" "s2k-mode=0,convert-crlf=1"

theorem encrypting_run :
    encrypting.run libraries session around = .ok (.bytea Pgp.Recorded.symOut, session) := by
  refine drawing_eq_ok.mpr ⟨Pgp.Recorded.symOut, [], ?_, rfl, rfl⟩
  exact Pgp.symEncrypt_recorded

def hashing : Call := .argon2idHash Modern.Recorded.argon2Password
def verifying : Call := .argon2idVerify Modern.Recorded.argon2Password Modern.Recorded.argon2Encoded

def hashed : Session libraries := { session with argon2 := [] }

theorem hashing_run :
    hashing.run libraries session around = .ok (.text Modern.Recorded.argon2Encoded, hashed) := by
  unfold hashing Call.run
  exact drawing_eq_ok.mpr ⟨_, [], Modern.Recorded.argon2idHash_password, rfl, rfl⟩

end Recorded

theorem runs_open_recorded : ∃ opened verified t,
    Runs Recorded.libraries Recorded.session
        [(Recorded.encrypting, .ok (.bytea Pgp.Recorded.symOut)),
          (Recorded.hashing, .ok (.text Modern.Recorded.argon2Encoded)), (Recorded.decrypting, opened),
          (Recorded.verifying, verified)] t ∧
      opened = .ok (.text "one\ntwo\n") ∧ verified = .ok (.boolean true) := by
  obtain ⟨opened, t, hopened⟩ := exists_step Recorded.hashed Recorded.around Recorded.decrypting
  obtain ⟨verified, u, hverified⟩ := exists_step t Recorded.around Recorded.verifying
  have hruns := Runs.cons (.returned Recorded.encrypting_run) (.cons (.returned Recorded.hashing_run)
    (.cons hopened (.cons hverified (.nil u))))
  refine ⟨opened, verified, u, hruns, ?_, ?_⟩
  · exact runs_open _ _ _ Recorded.libraries_laws _ _ _ hruns Recorded.encrypting Recorded.decrypting _ _
      (.pgpSymDecrypt _ _ _ _) (.head _) opened (.tail _ (.tail _ (.head _)))
  · exact runs_open _ _ _ Recorded.libraries_laws _ _ _ hruns Recorded.hashing Recorded.verifying _ _
      (.argon2idVerify _ _) (.tail _ (.head _)) verified (.tail _ (.tail _ (.tail _ (.head _))))

/-- Accounts in every run. Once a salt was generated and a password was hashed with it, each
attempt against the stored hash gives a hash, and it is the stored one exactly when the
two passwords have one checksum under the setting that was asked for. -/
theorem runs_login (L : Libraries) (writes : Password.Setting → Prop)
    (checksum : Password.Setting → Bytes → Password.Word) (hP : L.pwhash.Laws writes checksum)
    (s t : Session L) (log : List (Call × Outcome Value)) (h : Runs L s log t) (algorithm : String)
    (rounds : Int32) (salt password hash : String)
    (hsalt : (.genSalt algorithm rounds, .ok (.text salt)) ∈ log)
    (hhash : (.crypt password salt, .ok (.text hash)) ∈ log) :
    ∃ z, z.algorithm = toAsciiLowercase algorithm ∧
      (z.rounds L.pwhash : ℤ) = Password.requestedRounds L.pwhash (toAsciiLowercase algorithm) rounds ∧
      salt = String.ofList z.text ∧
      ∀ attempt outcome, (.crypt attempt hash, outcome) ∈ log → ∃ computed, outcome = .ok (.text computed) ∧
        (computed = hash ↔ checksum z (utf8 attempt) = checksum z (utf8 password)) := by
  obtain ⟨u, around, v, hrun⟩ := h.exists_returned hsalt
  obtain ⟨_, hgenerated, ⟨⟩, -⟩ := returning_eq_ok.mp hrun
  obtain ⟨behind, hbehind, -⟩ := bind_eq_ok.mp hgenerated
  obtain ⟨z, hz, halgorithm, hrounds, -, htext⟩ := Password.genSalt_of_saltHash hP hbehind
  rw [hgenerated] at htext
  cases htext
  obtain ⟨u, around, v, hrun⟩ := h.exists_returned hhash
  obtain ⟨_, hstored, ⟨⟩, -⟩ := returning_eq_ok.mp hrun
  obtain ⟨rfl, hattempt⟩ := crypt_of_crypt hP hz hstored
  refine ⟨z, halgorithm, hrounds, rfl, ?_⟩
  intro attempt outcome hmem
  obtain ⟨u, around, rfl⟩ := h.exists_run hmem
  refine ⟨String.ofList (z.text ++ (checksum z (utf8 attempt)).chars), ?_, ?_⟩
  · rw [Call.run, hattempt]
    rfl
  · have hchars : ∀ a b : Password.Word, a.chars = b.chars ↔ a = b := by
      rintro ⟨a, _⟩ ⟨b, _⟩
      simp
    rw [String.ofList_inj, List.append_cancel_left_eq, hchars]

namespace Recorded

def salt : String := String.ofList Password.Recorded.setting.text
def hashOf (password : String) : String :=
  String.ofList (Password.Recorded.setting.text ++
    (Password.Recorded.checksum Password.Recorded.setting (utf8 password)).chars)

/-- An account whose owner first forgets to type the password. -/
def account : List (Call × Outcome Value) :=
  [(.genSalt "SHA256crypt" 10000, .ok (.text salt)),
    (.crypt "Hello world!" salt, .ok (.text (hashOf "Hello world!"))),
    (.crypt "" (hashOf "Hello world!"), .ok (.text (hashOf ""))),
    (.crypt "Hello world!" (hashOf "Hello world!"), .ok (.text (hashOf "Hello world!")))]

theorem runs_account : Runs libraries session account session := by
  have hbehind : Password.saltHash Password.Recorded.pwhash () (toAsciiLowercase "SHA256crypt") 10000 =
      .ok (hashOf "") := by rfl
  obtain ⟨_, rfl, -, -, -, hsalt⟩ := Password.genSalt_of_saltHash Password.Recorded.pwhash_laws hbehind
  have hstored : Password.crypt Password.Recorded.pwhash "Hello world!" salt = .ok (hashOf "Hello world!") := by
    rw [Password.crypt]
    exact orUnwind_eq_ok.mpr (Password.Recorded.pwhash_laws.unixCrypt_setting _ _ rfl)
  obtain ⟨-, hattempt⟩ := crypt_of_crypt Password.Recorded.pwhash_laws rfl hstored
  have hreturned : ∀ {call : Call} {text : String} {x : Outcome String}, x = .ok text →
      call.run libraries session around = returning libraries session .text x →
        Step libraries session (call, .ok (.text text)) session := by
    rintro call text x rfl hrun
    exact .returned hrun
  exact .cons (hreturned hsalt rfl) (.cons (hreturned hstored rfl) (.cons (hreturned (hattempt "") rfl)
    (.cons (hreturned (hattempt "Hello world!") rfl) (.nil _))))

end Recorded

theorem runs_login_recorded :
    Runs Recorded.libraries Recorded.session Recorded.account Recorded.session ∧
      Recorded.hashOf "" ≠ Recorded.hashOf "Hello world!" := by
  obtain ⟨z, -, -, -, hattempt⟩ := runs_login Recorded.libraries _ _ Password.Recorded.pwhash_laws _ _ _
    Recorded.runs_account "SHA256crypt" 10000 Recorded.salt "Hello world!" (Recorded.hashOf "Hello world!")
    (.head _) (.tail _ (.head _))
  obtain ⟨computed, hcomputed, hiff⟩ := hattempt "" _ (.tail _ (.tail _ (.head _)))
  cases hcomputed
  have hdiffer : Password.Recorded.checksum Password.Recorded.setting (utf8 "") ≠
      Password.Recorded.checksum Password.Recorded.setting (utf8 "Hello world!") := by decide +kernel
  exact ⟨Recorded.runs_account, fun heq => hdiffer (hiff.mp heq)⟩

end PgCrypto.Extension
