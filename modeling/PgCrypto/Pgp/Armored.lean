import PgCrypto.Armor.RoundTrip
import PgCrypto.Pgp.Families

/-! # Messages sent as armored text

Messages usually travel as text: they are armored after the encryption, and the
functions that read them run on the result of `dearmor`. An encryption never gives the
empty message, which is the only one that armor loses, so every reader sees the message
itself, whatever accepted headers the block was given.
-/
namespace PgCrypto.Pgp
open Utf8 Armor
variable {S : Sequoia} {L : Library}

/-- There is no message in an empty input. -/
def Sequoia.RejectsEmpty (S : Sequoia) : Prop :=
  ∀ builder, S.builderFromBytes [] = .ok builder → ∃ e, S.withPolicy builder = .error e

section Written
variable {data out : Bytes} {o : String} {rng rng' : S.Rng}

theorem symDecrypt_ne_nil (hS : S.RejectsEmpty) {password : String} {result : Bytes × UInt8}
    (h : symDecrypt S out password = .ok result) : out ≠ [] := by
  rintro rfl
  obtain ⟨builder, hb, h⟩ := bind_eq_ok.mp h
  obtain ⟨e, he, -⟩ := bind_eq_ok.mp h
  obtain ⟨reason, hreason⟩ := hS builder (orUnwind_eq_ok.mp hb)
  rw [orUnwind_eq_ok.mp he] at hreason
  cases hreason

theorem pubDecrypt_ne_nil (hS : S.RejectsEmpty) {secretKey : Bytes} {password : String}
    {result : Bytes × UInt8} (h : pubDecrypt S out secretKey password = .ok result) : out ≠ [] := by
  rintro rfl
  obtain ⟨cert, builder, e, session, -, -, hb, he, -⟩ := pubDecrypt_eq_ok.mp h
  obtain ⟨reason, hreason⟩ := hS builder hb
  rw [hreason] at he
  cases he

/-- With the options of the encryption, decryption gives the text. -/
theorem decrypted_sameOptions {P : PgpOptions} (hP : parseOptions o true = .ok P) (t : PgText)
    {opened : Outcome (Bytes × UInt8)}
    (h : opened = .ok (payloadData P (utf8 t.val), formatCode (payloadFormat P))) :
    (do
      let options ← parseDecryptOptions o
      let (data, format) ← opened
      decryptedText data format options) = .ok t.val := by
  obtain ⟨R, hR, hflag⟩ := parseDecryptOptions_of_parseOptions hP
  obtain ⟨s, hs, -, heq⟩ := decryptedText_payload (parseOptions_checked hP).textInput t R
  rw [hR, ok_bind, h, ok_bind]
  dsimp only
  rw [hs, heq hflag.symm]

theorem decryptedBytea_sameOptions {P : PgpOptions} (hP : parseOptions o false = .ok P)
    {opened : Outcome (Bytes × UInt8)}
    (h : opened = .ok (payloadData P data, formatCode (payloadFormat P))) :
    (do
      let _ ← parseDecryptOptions o
      let (data, _) ← opened
      .ok data) = .ok data := by
  obtain ⟨R, hR, -⟩ := parseDecryptOptions_of_parseOptions hP
  have htext := (parseOptions_checked hP).textInput
  rw [hR, ok_bind, h, ok_bind]
  simp [payloadData, htext]

end Written

section Delivery

/-- What the receiver of an armored message sees: the message, and the headers as they
are reread. -/
structure Delivered (L : Library) (out : Bytes) (headers : List (String × String)) (text : String) :
    Prop where
  message : dearmor L text = .ok out
  headers : pgpArmorHeaders L text = .ok (headers.map (fun header => strings (reread (chars header))))

theorem armor_delivered (hL : L.WriterLaws) (hL' : L.ReaderLaws) {out : Bytes} (hout : out ≠ [])
    {keys values : TextArray} {headers : List (String × String)}
    (h : checkedHeaders keys values = .ok headers) :
    ∃ text, armorWithHeaders L out keys values = .ok text ∧ Delivered L out headers text := by
  obtain ⟨_, _, -, -, -, -, hall⟩ := checkedHeaders_eq_ok h
  obtain ⟨hheaders, hmessage⟩ := read_accepted hL' hout hall
  refine ⟨block headers (L.body out), ?_, hmessage, hheaders⟩
  rw [armorWithHeaders, h, ok_bind, encodeArmor_block hL hout]

end Delivery

/-- A text encrypted with any options, armored with any accepted headers and dearmored
again decrypts to itself under the same options, and the message names the kind of key
that opens it, if by packets of version 3; the headers are those of the sender up to the
blanks that are trimmed. -/
theorem armored_delivery (S : Sequoia) (L : Library) (hS : S.RejectsEmpty) (hW : S.WriterLaws)
    (hR : S.ReaderLaws) (hQ : S.PileLaws) (hL : L.WriterLaws) (hL' : L.ReaderLaws) (t : PgText)
    (o : String) (keys values : TextArray) (headers : List (String × String))
    (hheaders : checkedHeaders keys values = .ok headers) (rng rng' : S.Rng) (out : Bytes) :
    (S.SkeskLaws → ∀ password, pgpSymEncrypt S t password o rng = .ok (out, rng') →
      ∃ text, armorWithHeaders L out keys values = .ok text ∧ Delivered L out headers text ∧
        (dearmor L text >>= fun data => pgpSymDecrypt S data password o) = .ok t.val ∧
        ∀ now, (dearmor L text >>= fun data => pgpKeyId S data now) = .ok "SYMKEY") ∧
    (S.RecipientLaws → ∀ publicKey secretKey password now,
      HoldsRecipient S publicKey secretKey password now →
      pgpPubEncrypt S t publicKey o now rng = .ok (out, rng') →
        ∃ text, armorWithHeaders L out keys values = .ok text ∧ Delivered L out headers text ∧
          (dearmor L text >>= fun data => pgpPubDecrypt S data secretKey password o) = .ok t.val ∧
          (S.NamingLaws Recipient.TakesVersion3 → Version3 S publicKey now → ∀ later,
            (dearmor L text >>= fun data => pgpKeyId S data later) = pgpKeyId S publicKey now)) := by
  refine ⟨?_, ?_⟩
  · intro hK password h
    obtain ⟨P, hopt, hopen⟩ := symDecrypt_symEncrypt hK hW hR h
    obtain ⟨text, htext, hdelivered⟩ := armor_delivered hL hL' (symDecrypt_ne_nil hS hopen) hheaders
    refine ⟨text, htext, hdelivered, ?_, ?_⟩
    · rw [hdelivered.message, ok_bind]
      exact decrypted_sameOptions hopt t hopen
    · intro now
      rw [hdelivered.message, ok_bind]
      exact pgpKeyId_symEncrypt hW hQ h now
  · intro hP publicKey secretKey password now hold h
    obtain ⟨P, hopt, hopen⟩ := pubDecrypt_pubEncrypt hP hW hR hold h
    obtain ⟨text, htext, hdelivered⟩ := armor_delivered hL hL' (pubDecrypt_ne_nil hS hopen) hheaders
    refine ⟨text, htext, hdelivered, ?_, ?_⟩
    · rw [hdelivered.message, ok_bind]
      exact decrypted_sameOptions hopt t hopen
    · intro hN hversion later
      obtain ⟨id, -, hkey, hout⟩ := pgpKeyId_pubEncrypt_always hW hP hN hQ hversion h
      rw [hdelivered.message, ok_bind, hkey, hout]

section Recorded
open Recorded

theorem rejectsEmpty_replay : transcript.replay.RejectsEmpty := by
  intro builder hb
  cases hb

theorem armored_delivery_recorded :
    (∃ text, armorWithHeaders reference symOut ⟨1, [some "Comment"]⟩ ⟨1, [some "smoke"]⟩ = .ok text ∧
      pgpArmorHeaders reference text = .ok [("Comment", "smoke")] ∧
      (dearmor reference text >>= fun data =>
        pgpSymDecrypt transcript.replay data "password" "s2k-mode=0,convert-crlf=1") = .ok "one\ntwo\n") ∧
    ∃ text, armorWithHeaders reference pubOut ⟨1, [some "Comment"]⟩ ⟨1, [some "smoke"]⟩ = .ok text ∧
      (dearmor reference text >>= fun data =>
        pgpPubDecrypt transcript.replay data secretCert "" "convert-crlf=1") = .ok "one\ntwo\n" ∧
      ∀ later, (dearmor reference text >>= fun data => pgpKeyId transcript.replay data later) =
        .ok "5B1AB9F49BA9CE6A" := by
  have hchecked : checkedHeaders ⟨1, [some "Comment"]⟩ ⟨1, [some "smoke"]⟩ = .ok [("Comment", "smoke")] := by
    rfl
  have hW := Transcript.replay_writerLaws transcript
  have hR := Transcript.replay_readerLaws transcript_wellFormed
  have hQ := Transcript.replay_pileLaws transcript_wellFormed
  refine ⟨?_, ?_⟩
  · obtain ⟨text, htext, hdelivered, hdecrypt, -⟩ :=
      (armored_delivery transcript.replay reference rejectsEmpty_replay hW hR hQ reference_writerLaws
        reference_readerLaws ⟨"one\ntwo\n", by decide⟩ _ _ _ _ hchecked [] [] symOut).1
        (Transcript.replay_skeskLaws _) _ symEncrypt_recorded
    exact ⟨text, htext, hdelivered.headers.trans (by rfl), hdecrypt⟩
  · obtain ⟨text, htext, -, hdecrypt, hid⟩ :=
      (armored_delivery transcript.replay reference rejectsEmpty_replay hW hR hQ reference_writerLaws
        reference_readerLaws ⟨"one\ntwo\n", by decide⟩ _ _ _ _ hchecked [] [] pubOut).2
        (Transcript.replay_recipientLaws transcript_wellFormed) _ _ _ _ holdsRecipient_secretCert
        pubEncrypt_publicCert
    refine ⟨text, htext, hdecrypt, ?_⟩
    intro later
    rw [hid (Transcript.replay_namingLaws transcript_wellFormed) version3_publicCert later,
      pgpKeyId_publicCert]

end Recorded

end PgCrypto.Pgp
