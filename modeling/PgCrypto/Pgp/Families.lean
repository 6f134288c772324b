import PgCrypto.Pgp.KeyId
import PgCrypto.Pgp.RoundTrip

/-! # Passwords and keys as ways into a message

A password opens a message as soon as one of its session key packets gives the session
key, whatever the packets before and after it do; a packet that does not decrypt is
passed over. Messages made for a password have no packet for a key and the other way
around, so neither family of functions decrypts the messages of the other, and the key
identifier tells them apart.
-/
namespace PgCrypto.Pgp
variable {S : Sequoia}

section Search
variable {password : String} {e : EncryptedMessage} {session : Option SymmetricAlgorithm × SessionKey}

def SkeskOpens (S : Sequoia) (password : String) (e : EncryptedMessage) (skesk : Skesk)
    (session : Option SymmetricAlgorithm × SessionKey) : Prop :=
  S.skeskDecrypt skesk password = .ok session ∧ e.accepts session.1 session.2 = true

theorem passwordHelperDecrypt_of_mem (hone : e.AcceptsOne) {skesks : List Skesk} {skesk : Skesk}
    (hmem : skesk ∈ skesks) (hopens : SkeskOpens S password e skesk session) :
    passwordHelperDecrypt S password e.accepts skesks = .ok session := by
  induction skesks with
  | nil => cases hmem
  | cons first rest ih =>
    rw [passwordHelperDecrypt]
    cases hfirst : S.skeskDecrypt first password with
    | error reason =>
      rcases List.mem_cons.mp hmem with rfl | hmem
      · rw [hopens.1] at hfirst
        cases hfirst
      · exact ih hmem
    | ok found =>
      dsimp only
      split
      · next haccepts =>
        obtain ⟨halgo, hkey⟩ := hone _ _ _ _ haccepts hopens.2
        exact congrArg Except.ok (Prod.ext halgo hkey)
      · next hrefused =>
        rcases List.mem_cons.mp hmem with rfl | hmem
        · rw [hopens.1] at hfirst
          cases hfirst
          exact absurd hopens.2 hrefused
        · exact ih hmem

theorem passwordHelperDecrypt_eq_error {skesks : List Skesk}
    (h : ∀ skesk ∈ skesks, ∀ session, ¬ SkeskOpens S password e skesk session) :
    passwordHelperDecrypt S password e.accepts skesks =
      .error (invalidOperation "incorrect password or no symmetric session key") := by
  induction skesks with
  | nil => rfl
  | cons first rest ih =>
    rw [List.forall_mem_cons] at h
    rw [passwordHelperDecrypt]
    cases hfirst : S.skeskDecrypt first password with
    | error reason => exact ih h.2
    | ok found =>
      dsimp only
      rw [if_neg (fun haccepts => h.1 found ⟨hfirst, haccepts⟩)]
      exact ih h.2

def readContents (e : EncryptedMessage) (session : Option SymmetricAlgorithm × SessionKey) :
    Outcome (Bytes × UInt8) := do
  let output ← orUnwind "OpenPGP decryption failed" (e.contents session.1 session.2).body
  .ok (output, (e.contents session.1 session.2).packets.foldl inspectLiteralFormat literalUnknown)

theorem symDecrypt_eq {data : Bytes} {builder : S.Builder} (hb : S.builderFromBytes data = .ok builder)
    (he : S.withPolicy builder = .ok e) : symDecrypt S data password =
      orRaise "OpenPGP decryption failed" (passwordHelperDecrypt S password e.accepts e.skesks) >>=
        readContents e := by
  rw [symDecrypt, hb, orUnwind_ok, ok_bind, he, orUnwind_ok, ok_bind]
  rfl

end Search

/-- A password decrypts a message exactly through the packets it opens. If there is one,
the result is the contents of the container, wherever the packet stands and whatever the
other packets are; if there is none, the call reports a wrong password. -/
theorem symDecrypt_available (S : Sequoia) (data : Bytes) (password : String) (builder : S.Builder)
    (e : EncryptedMessage) (hb : S.builderFromBytes data = .ok builder)
    (he : S.withPolicy builder = .ok e) (hone : e.AcceptsOne) :
    (∀ skesk ∈ e.skesks, ∀ session, SkeskOpens S password e skesk session →
      symDecrypt S data password = readContents e session) ∧
    ((∀ skesk ∈ e.skesks, ∀ session, ¬ SkeskOpens S password e skesk session) →
      symDecrypt S data password = raise ("OpenPGP decryption failed: Invalid operation: " ++
        "incorrect password or no symmetric session key")) := by
  refine ⟨?_, ?_⟩
  · intro skesk hmem session hopens
    rw [symDecrypt_eq hb he, passwordHelperDecrypt_of_mem hone hmem hopens, orRaise_ok, ok_bind]
  · intro hnone
    rw [symDecrypt_eq hb he, passwordHelperDecrypt_eq_error hnone]
    rfl

section Recorded
open Recorded

theorem symDecrypt_available_recorded :
    symDecrypt transcript.replay symOut "password" = .ok (written, formatCode .text) ∧
      symDecrypt transcript.replay symOut "other" = raise ("OpenPGP decryption failed: Invalid operation: " ++
        "incorrect password or no symmetric session key") := by
  have hbuilder : transcript.replay.builderFromBytes symOut = .ok symMessage :=
    Transcript.builderFromBytes_of_mem transcript_wellFormed (by simp [transcript])
  refine ⟨?_, ?_⟩
  · have h := (symDecrypt_available transcript.replay symOut "password" symMessage _ hbuilder rfl
      (acceptsOne_readBack _)).1 (.v4 ⟨.aes128, .simple .sha1, none⟩) (List.mem_singleton.mpr rfl)
      (some .aes128, skeskKey) ⟨rfl, by decide⟩
    rw [h]
    rfl
  · refine (symDecrypt_available transcript.replay symOut "other" symMessage _ hbuilder rfl
      (acceptsOne_readBack _)).2 ?_
    rintro skesk hskesk session ⟨hopens, -⟩
    rw [List.mem_singleton.mp (show skesk ∈ [_] from hskesk)] at hopens
    cases hopens

end Recorded

section Families

theorem symDecrypt_pubEncrypt (hW : S.WriterLaws) (hR : S.ReaderLaws) (hP : S.RecipientLaws)
    {data publicKey out : Bytes} {o : String} {text : Bool} {now : Time} {rng rng' : S.Rng}
    (h : pubEncrypt S data publicKey o text now rng = .ok (out, rng')) (password : String) :
    symDecrypt S out password = raise ("OpenPGP decryption failed: Invalid operation: " ++
      "incorrect password or no symmetric session key") := by
  obtain ⟨P, cert, -, -, -, m, rng₁, hm, hw⟩ := pubEncrypt_eq_ok.mp h
  obtain ⟨version, session, pkesks, rfl, -⟩ := hP.forRecipients_eq _ _ _ _ _ _ hm
  obtain ⟨builder, e, hb, he, -, hskesks, -⟩ := read_payload hW hR rfl rfl hw
  have hnone : e.skesks = [] := by
    rw [hskesks, Message.skesks, List.nil_append, List.filterMap_map]
    exact List.filterMap_eq_nil_iff.mpr (fun _ _ => rfl)
  rw [symDecrypt_eq hb he, hnone]
  rfl

theorem pubDecrypt_symEncrypt (hW : S.WriterLaws) (hR : S.ReaderLaws) {data out : Bytes}
    {password o : String} {text : Bool} {rng rng' : S.Rng}
    (h : symEncrypt S data password o text rng = .ok (out, rng')) (secretKey : Bytes)
    (keyPassword : String) : ¬ ∃ result, pubDecrypt S out secretKey keyPassword = .ok result := by
  obtain ⟨P, -, skesk, key, rng₁, -, m₁, m₂, rng₂, h₁, h₂, hw⟩ := symEncrypt_eq_ok.mp h
  have e₁ := hW.serialize_eq _ _ _ h₁
  have e₂ := hW.withSessionKey_eq _ _ _ _ _ _ h₂
  rw [e₁] at e₂
  obtain ⟨builder, e, hb, he, hpkesks, -⟩ :=
    read_payload hW hR (m := m₂) (by rw [e₂]; rfl) (by rw [e₂]) hw
  have hnone : e.pkesks = [] := by
    rw [hpkesks, e₂]
    rfl
  rintro ⟨result, hresult⟩
  obtain ⟨cert, builder', e', session, -, -, hb', he', hs, -⟩ := pubDecrypt_eq_ok.mp hresult
  rw [hb] at hb'
  cases hb'
  rw [he] at he'
  cases he'
  obtain ⟨pkesk, hmem, -⟩ := keyHelperDecrypt_eq_ok hs
  rw [hnone] at hmem
  cases hmem

theorem pgpKeyId_symEncrypt (hW : S.WriterLaws) (hQ : S.PileLaws) {data out : Bytes}
    {password o : String} {text : Bool} {rng rng' : S.Rng}
    (h : symEncrypt S data password o text rng = .ok (out, rng')) (now : Time) :
    pgpKeyId S out now = .ok "SYMKEY" := by
  obtain ⟨P, -, skesk, key, rng₁, -, m₁, m₂, rng₂, h₁, h₂, hw⟩ := symEncrypt_eq_ok.mp h
  have e₁ := hW.serialize_eq _ _ _ h₁
  have e₂ := hW.withSessionKey_eq _ _ _ _ _ _ h₂
  rw [e₁] at e₂
  obtain ⟨pre, -, hf⟩ := writePayload_finalize hW hw
  obtain ⟨⟨e, he⟩, inner, hpile⟩ := hQ.pile_finalize _ .v1 P.cipher key
    (pre ++ [.literal (payloadFormat P)]) _ _ _ (by rw [e₂]; rfl) hf
  rw [pgpKeyId, he]
  dsimp only
  rw [hpile, orUnwind_ok, ok_bind, e₂]
  rfl

theorem length_toHex (bytes : Bytes) : (toHex bytes).length = 2 * bytes.length := by
  rw [toHex, String.length_ofList]
  induction bytes with
  | nil => rfl
  | cons b rest ih =>
    rw [List.flatMap_cons, List.length_append, ih, List.length_cons, List.length_cons, List.length_cons,
      List.length_nil]
    omega

/-- The keys that the public key is encrypted to take packets of version 3. -/
def Version3 (S : Sequoia) (publicKey : Bytes) (now : Time) : Prop :=
  ∀ cert, S.certFromBytes publicKey = .ok cert → cert.Version3At Recipient.TakesVersion3 now

/-- The key identifier of a message stays what it was at the encryption: sixteen digits. -/
theorem pgpKeyId_pubEncrypt_always (hW : S.WriterLaws) (hP : S.RecipientLaws)
    (hN : S.NamingLaws Recipient.TakesVersion3) (hQ : S.PileLaws) {data publicKey out : Bytes} {o : String}
    {text : Bool} {now : Time} {rng rng' : S.Rng} (hversion : Version3 S publicKey now)
    (h : pubEncrypt S data publicKey o text now rng = .ok (out, rng')) :
    ∃ id, id.length = 16 ∧ pgpKeyId S publicKey now = .ok id ∧ ∀ later, pgpKeyId S out later = .ok id := by
  obtain ⟨P, cert, -, hcert, -, message, rng₁, hm, hw⟩ := pubEncrypt_eq_ok.mp h
  obtain ⟨id, hout, hkey⟩ := pgpKeyId_pubEncrypt hW hP hN hQ hcert (hversion cert hcert) h
  obtain ⟨version, session, pkesks, rfl, -⟩ := hP.forRecipients_eq _ _ _ _ _ _ hm
  obtain ⟨pre, -, hf⟩ := writePayload_finalize hW hw
  obtain ⟨⟨e, he⟩, -⟩ := hQ.pile_finalize _ version P.cipher session
    (pre ++ [.literal (payloadFormat P)]) _ _ _ rfl hf
  refine ⟨id, ?_, hkey, ?_⟩
  · rw [pgpKeyId_cert hcert] at hkey
    cases hrec : (recipients cert now).head? with
    | none => simp [hrec] at hkey
    | some ka =>
      rw [hrec] at hkey
      cases hkey
      rw [length_toHex, Vector.length_toList]
  · -- The message is no certificate, so the clock is never read.
    intro later
    refine (pgpKeyId_eq_of_usable ?_).symm.trans hout
    intro cert' hcert'
    rw [he] at hcert'
    cases hcert'

end Families

/-- A message written for a key is opened by no password and one written for a password by
no key, whatever the options of the encryption; and at all times the key identifier of
the message tells which of the two it is, where the packets for keys have version 3. -/
theorem families_separated (S : Sequoia) (hW : S.WriterLaws) (hR : S.ReaderLaws) (hQ : S.PileLaws) :
    (S.RecipientLaws → ∀ data publicKey o text now rng out rng',
      pubEncrypt S data publicKey o text now rng = .ok (out, rng') →
        (∀ password, symDecrypt S out password = raise ("OpenPGP decryption failed: Invalid operation: " ++
          "incorrect password or no symmetric session key")) ∧
        (S.NamingLaws Recipient.TakesVersion3 → Version3 S publicKey now →
          ∃ id, id ≠ "SYMKEY" ∧ id ≠ "ANYKEY" ∧ pgpKeyId S publicKey now = .ok id ∧
            ∀ later, pgpKeyId S out later = .ok id)) ∧
    (∀ data password o text rng out rng', symEncrypt S data password o text rng = .ok (out, rng') →
      (∀ secretKey keyPassword, ¬ ∃ result, pubDecrypt S out secretKey keyPassword = .ok result) ∧
        ∀ now, pgpKeyId S out now = .ok "SYMKEY") := by
  refine ⟨?_, ?_⟩
  · intro hP data publicKey o text now rng out rng' h
    refine ⟨symDecrypt_pubEncrypt hW hR hP h, ?_⟩
    intro hN hversion
    obtain ⟨id, hlength, hkey, hout⟩ := pgpKeyId_pubEncrypt_always hW hP hN hQ hversion h
    refine ⟨id, ?_, ?_, hkey, hout⟩
    · rintro rfl
      exact absurd hlength (by decide)
    · rintro rfl
      exact absurd hlength (by decide)
  · intro data password o text rng out rng' h
    exact ⟨pubDecrypt_symEncrypt hW hR h, pgpKeyId_symEncrypt hW hQ h⟩

section Recorded
open Recorded

theorem version3_publicCert {now : Time} : Version3 transcript.replay publicCert now := by
  intro certificate hcert
  rw [certFromBytes_publicCert] at hcert
  cases hcert
  exact version3At_cert

theorem families_separated_recorded :
    (¬ ∃ result, pubDecrypt transcript.replay symOut secretCert "" = .ok result) ∧
      pgpKeyId transcript.replay symOut 1700000100 = .ok "SYMKEY" ∧
      (∃ reason, symDecrypt transcript.replay pubOut "password" = raise reason) ∧
      pgpKeyId transcript.replay pubOut 1800000000 = .ok "5B1AB9F49BA9CE6A" := by
  obtain ⟨hpub, hsym⟩ := families_separated transcript.replay (Transcript.replay_writerLaws _)
    (Transcript.replay_readerLaws transcript_wellFormed)
    (Transcript.replay_pileLaws transcript_wellFormed)
  obtain ⟨hdecrypt, hid⟩ := hsym _ _ _ _ _ _ _ symEncrypt_recorded
  obtain ⟨hpassword, hid'⟩ := hpub (Transcript.replay_recipientLaws transcript_wellFormed)
    _ _ _ _ _ _ _ _ pubEncrypt_publicCert
  obtain ⟨id, -, -, hkey, hout⟩ := hid' (Transcript.replay_namingLaws transcript_wellFormed)
    version3_publicCert
  rw [pgpKeyId_publicCert] at hkey
  cases hkey
  exact ⟨hdecrypt _ _, hid _, ⟨_, hpassword _⟩, hout _⟩

end Recorded

end PgCrypto.Pgp
