import PgCrypto.Pgp.Availability

/-! # Round trips of the OpenPGP functions

Both encryption paths end in one finished message, and the decryptor reads it back
through the session key packets written before the container. Decryption therefore
returns the written payload with the code of its literal format, whatever the
options, and the text functions differ from the binary ones only in the CRLF
conversion and the text check.
-/
namespace PgCrypto.Pgp
open Utf8 LineEnds
variable {S : Sequoia}

section Reading

theorem read_payload (hW : S.WriterLaws) (hR : S.ReaderLaws) {m : Message}
    {version : ContainerVersion} {a : SymmetricAlgorithm} {k : SessionKey} {data out : Bytes}
    {P : PgpOptions} {rng rng' : S.Rng} (hlayers : m.layers = [.encrypted version a k])
    (hwritten : m.written = []) (h : writePayload S m data P rng = .ok (out, rng')) :
    ∃ builder e, S.builderFromBytes out = .ok builder ∧ S.withPolicy builder = .ok e ∧
      e.pkesks = m.pkesks ∧ e.skesks = m.skesks ∧ version.MayHint a e.symAlgo ∧
      e.accepts (version.announced a) k = true ∧
      ∀ a' k', e.accepts a' k' = true → (e.contents a' k').body = .ok (payloadData P data) ∧
        (e.contents a' k').packets.foldl inspectLiteralFormat literalUnknown =
          formatCode (payloadFormat P) := by
  obtain ⟨pre, hpre, hf⟩ := writePayload_finalize hW h
  obtain ⟨builder, e, hb, he, hpk, hsk, hsym, hacc, hopened⟩ :=
    hR.read_finalize _ version a k (payloadFormat P) pre _ _ _ (by simp [hlayers]) hpre hf
  refine ⟨builder, e, hb, he, hpk, hsk, hsym, hacc, ?_⟩
  intro a' k' haccepts
  obtain ⟨hbody, hpackets⟩ := hopened a' k' haccepts
  refine ⟨?_, foldl_inspectLiteralFormat hpackets _⟩
  rw [hbody, hwritten, List.nil_append]

theorem skeskDecrypt_symSession (hK : S.SkeskLaws) {P : PgpOptions} {password : String}
    {rng rng' : S.Rng} {skesk : Skesk4} {key : SessionKey}
    (h : symSession S P password rng = .ok (skesk, key, rng')) :
    S.skeskDecrypt (.v4 skesk) password = .ok (some P.cipher, key) := by
  obtain ⟨s2k, n, hn, ⟨-, hw⟩ | ⟨-, hnew, hd⟩⟩ := symSession_cases h
  · exact hK.decrypt_withPassword _ _ _ _ _ _ hw
  · rw [hK.new_eq _ _ _ _ hnew]
    exact hK.decrypt_derived _ _ _ _ _ hn hd

theorem symDecrypt_symEncrypt (hK : S.SkeskLaws) (hW : S.WriterLaws) (hR : S.ReaderLaws)
    {data out : Bytes} {password o : String} {text : Bool} {rng rng' : S.Rng}
    (h : symEncrypt S data password o text rng = .ok (out, rng')) :
    ∃ P, parseOptions o text = .ok P ∧
      symDecrypt S out password = .ok (payloadData P data, formatCode (payloadFormat P)) := by
  obtain ⟨P, hP, skesk, key, rng₁, hs, m₁, m₂, rng₂, h₁, h₂, hw⟩ := symEncrypt_eq_ok.mp h
  have e₁ := hW.serialize_eq _ _ _ h₁
  have e₂ := hW.withSessionKey_eq _ _ _ _ _ _ h₂
  rw [e₁] at e₂
  obtain ⟨builder, e, hb, he, -, hsk, -, hacc, hopened⟩ :=
    read_payload hW hR (m := m₂) (by rw [e₂]; rfl) (by rw [e₂]) hw
  obtain ⟨hbody, hformat⟩ := hopened (some P.cipher) key hacc
  have hskesks : e.skesks = [.v4 skesk] := by
    rw [hsk, e₂]
    rfl
  have hhelper : passwordHelperDecrypt S password e.accepts e.skesks = .ok (some P.cipher, key) := by
    rw [hskesks, passwordHelperDecrypt, skeskDecrypt_symSession hK hs]
    exact if_pos hacc
  refine ⟨P, hP, ?_⟩
  rw [symDecrypt, hb, orUnwind_ok, ok_bind, he, orUnwind_ok, ok_bind, hhelper, orRaise_ok, ok_bind]
  dsimp only
  rw [hbody, orUnwind_ok, ok_bind, hformat]

end Reading

section Recipients

/-- The secret certificate unlocks with the password and has the secret part of a key
that messages are encrypted to at the given time. -/
structure HoldsRecipient (S : Sequoia) (publicKey secretKey : Bytes) (password : String)
    (now : Time) : Prop where
  certs : ∃ cert secretCert, S.certFromBytes publicKey = .ok cert ∧
    S.certFromBytes secretKey = .ok secretCert ∧
    (∀ key ∈ secretCert.secretKeys, Unlocks S password key) ∧
    ∃ key ∈ secretCert.secretKeys, ∃ pair, pairOf S password key = some pair ∧
      ∃ ka ∈ recipients cert now, S.secretPartOf pair ka.key.publicParts

theorem exists_mem_of_forall₂ {α β : Type} {R : α → β → Prop} {xs : List α} {ys : List β}
    (h : List.Forall₂ R xs ys) {x : α} (hx : x ∈ xs) : ∃ y ∈ ys, R x y := by
  induction h with
  | nil => simp at hx
  | cons hr _ ih =>
    rcases List.mem_cons.mp hx with rfl | hx
    · exact ⟨_, List.mem_cons_self, hr⟩
    · obtain ⟨y, hy, hxy⟩ := ih hx
      exact ⟨y, List.mem_cons_of_mem _ hy, hxy⟩

theorem pubDecrypt_pubEncrypt (hP : S.RecipientLaws) (hW : S.WriterLaws) (hR : S.ReaderLaws)
    {data publicKey secretKey out : Bytes} {password o : String} {text : Bool} {now : Time}
    {rng rng' : S.Rng} (hold : HoldsRecipient S publicKey secretKey password now)
    (h : pubEncrypt S data publicKey o text now rng = .ok (out, rng')) :
    ∃ P, parseOptions o text = .ok P ∧
      pubDecrypt S out secretKey password = .ok (payloadData P data, formatCode (payloadFormat P)) := by
  obtain ⟨cert, secretCert, hcert, hsecret, hall, key, hkey, pair, hpair, ka, hka, hpart⟩ := hold.certs
  obtain ⟨P, cert', hopt, hcert', -, m, rng₁, hm, hw⟩ := pubEncrypt_eq_ok.mp h
  rw [hcert] at hcert'
  cases hcert'
  obtain ⟨version, session, pkesks, rfl, hpkesks⟩ := hP.forRecipients_eq _ _ _ _ _ _ hm
  obtain ⟨builder, e, hb, he, hpk, -, hsym, hacc, hopened⟩ := read_payload hW hR rfl rfl hw
  obtain ⟨pkesk, hmem, hdec⟩ := exists_mem_of_forall₂ hpkesks
    (List.mem_map_of_mem (f := fun ka => ka.recipientAt now) hka)
  have hpkesk : pkesk ∈ e.pkesks := by
    rw [hpk, Message.pkesks, List.nil_append, List.mem_filterMap]
    exact ⟨.pkesk pkesk, List.mem_map.mpr ⟨pkesk, hmem, rfl⟩, rfl⟩
  have htry : tryPair S e pkesk pair = some (version.announced P.cipher, session) :=
    tryPair_eq_some.mpr ⟨hdec pair hpart _ hsym, hacc⟩
  -- an earlier packet or pair may be found first, but then its session key is accepted too
  obtain ⟨found, hfound, haccepts⟩ := exists_keyHelperDecrypt hpkesk
    (List.mem_filterMap.mpr ⟨key, hkey, hpair⟩) htry
  obtain ⟨hbody, hformat⟩ := hopened _ _ haccepts
  exact ⟨P, hopt, pubDecrypt_eq_ok.mpr
    ⟨secretCert, builder, e, found, hsecret, hall, hb, he, hfound, hbody, hformat⟩⟩

end Recipients

section Text

theorem decryptedText_payload {P : PgpOptions} (hP : P.textInput = true) (t : PgText)
    (R : DecryptOptions) :
    ∃ s, decryptedText (payloadData P (utf8 t.val)) (formatCode (payloadFormat P)) R = .ok s ∧
      utf8 s = decoded R (payloadData P (utf8 t.val)) ∧ (P.convertCrlf = R.convertCrlf → s = t.val) := by
  have hf : formatCode (payloadFormat P) = literalText ∨
      formatCode (payloadFormat P) = literalUnicode := by
    rw [payloadFormat, hP]
    cases P.unicodeMode
    · exact Or.inl rfl
    · exact Or.inr rfl
  have hdata : payloadData P (utf8 t.val) =
      if P.convertCrlf then expand 13 10 (utf8 t.val) else utf8 t.val := by
    rw [payloadData, hP, Bool.true_and, crlfEncode_eq]
  obtain ⟨s, hs⟩ := exists_decryptedText t P.convertCrlf hf R
  rw [← hdata] at hs
  have hutf := (decryptedText_eq_ok.mp hs).2.2
  refine ⟨s, hs, hutf, ?_⟩
  intro hflag
  apply utf8_injective
  rw [hutf, hdata, decoded, ← hflag]
  split
  · exact collapse_expand (by decide) _
  · rfl

theorem decryptedText_binary {P : PgpOptions} (hP : P.textInput = false) (data : Bytes)
    (R : DecryptOptions) : decryptedText data (formatCode (payloadFormat P)) R =
      raise "decrypted OpenPGP data is not text" := by
  have hf : formatCode (payloadFormat P) = literalBinary := by
    rw [payloadFormat, hP]
    rfl
  rw [hf]
  exact if_pos (by decide)

end Text

/-- The decryption parser simulates the encryption parser: a string accepted for
encryption is accepted for decryption with the same conversion flag, and decryption
undoes the conversion exactly when encryption applied it to text. -/
theorem parseDecryptOptions_simulates (o : String) (text : Bool) (P : PgpOptions)
    (h : parseOptions o text = .ok P) :
    ∃ R, parseDecryptOptions o = .ok R ∧ R.convertCrlf = P.convertCrlf ∧
      (∀ data, payloadData P data = if text && R.convertCrlf then crlfEncode data else data) ∧
      (text = true → ∀ data, (if R.convertCrlf then crlfDecode (payloadData P data)
        else .ok (payloadData P data)) = .ok data) := by
  obtain ⟨R, hR, hflag⟩ := parseDecryptOptions_of_parseOptions h
  have htext := (parseOptions_checked h).textInput
  refine ⟨R, hR, hflag, ?_, ?_⟩
  · intro data
    rw [payloadData, htext, hflag]
  · intro ht data
    rw [payloadData, htext, ht, hflag, Bool.true_and]
    split
    · rw [crlfDecode_eq, crlfEncode_eq, collapse_expand (by decide)]
    · rfl

theorem parseDecryptOptions_simulates_bf :
    ∃ R, parseDecryptOptions " Convert-CRLF = 1 ,cipher-algo=bf" = .ok R ∧ R.convertCrlf = true := by
  obtain ⟨R, hR, hflag, -⟩ := parseDecryptOptions_simulates " Convert-CRLF = 1 ,cipher-algo=bf" true
    { textInput := true, convertCrlf := true, cipher := .blowfish } (by rfl)
  exact ⟨R, hR, hflag⟩

/-- The round trip of one family of four functions. On text, decryption gives the
conversions the two option strings ask for, one after the other, so the text itself
when they agree; on bytes it gives the bytes back, and only to the binary function. -/
structure RoundTrips {Rng : Type} (encrypt : PgText → String → Rng → Outcome (Bytes × Rng))
    (encryptBytea : Bytes → String → Rng → Outcome (Bytes × Rng))
    (decrypt : Bytes → String → Outcome String) (decryptBytea : Bytes → String → Outcome Bytes) :
    Prop where
  text : ∀ t o rng out rng', encrypt t o rng = .ok (out, rng') →
    ∃ P, parseOptions o true = .ok P ∧ ∀ o' R, parseDecryptOptions o' = .ok R →
      (∃ s, decrypt out o' = .ok s ∧
        (if R.convertCrlf then crlfDecode (if P.convertCrlf then crlfEncode (utf8 t.val) else utf8 t.val)
          else .ok (if P.convertCrlf then crlfEncode (utf8 t.val) else utf8 t.val)) = .ok (utf8 s) ∧
        (P.convertCrlf = R.convertCrlf → s = t.val)) ∧
      decryptBytea out o' = .ok (if P.convertCrlf then crlfEncode (utf8 t.val) else utf8 t.val)
  bytea : ∀ b o rng out rng', encryptBytea b o rng = .ok (out, rng') →
    ∀ o' R, parseDecryptOptions o' = .ok R → decryptBytea out o' = .ok b ∧
      decrypt out o' = raise "decrypted OpenPGP data is not text"

theorem roundTrips_of_opened {Rng : Type} (encrypt : Bytes → String → Bool → Rng → Outcome (Bytes × Rng))
    (opened : Bytes → Outcome (Bytes × UInt8))
    (h : ∀ data o text rng out rng', encrypt data o text rng = .ok (out, rng') →
      ∃ P, parseOptions o text = .ok P ∧
        opened out = .ok (payloadData P data, formatCode (payloadFormat P))) :
    RoundTrips (fun t o rng => encrypt (utf8 t.val) o true rng) (fun b o rng => encrypt b o false rng)
      (fun out o' => do
        let options ← parseDecryptOptions o'
        let (data, format) ← opened out
        decryptedText data format options)
      (fun out o' => do
        let _ ← parseDecryptOptions o'
        let (data, _) ← opened out
        .ok data) where
  text t o rng out rng' he := by
    obtain ⟨P, hP, ho⟩ := h _ _ _ _ _ _ he
    have htext := (parseOptions_checked hP).textInput
    have hdata : payloadData P (utf8 t.val) =
        if P.convertCrlf then crlfEncode (utf8 t.val) else utf8 t.val := by
      rw [payloadData, htext, Bool.true_and]
    refine ⟨P, hP, ?_⟩
    intro o' R hR
    obtain ⟨s, hs, hutf, heq⟩ := decryptedText_payload htext t R
    rw [← hdata, hR, ho, ok_bind, ok_bind]
    refine ⟨⟨s, hs, ?_, heq⟩, rfl⟩
    rw [hutf, decoded, crlfDecode_eq]
    split <;> rfl
  bytea b o rng out rng' he o' R hR := by
    obtain ⟨P, hP, ho⟩ := h _ _ _ _ _ _ he
    have htext := (parseOptions_checked hP).textInput
    rw [hR, ho, ok_bind, ok_bind]
    refine ⟨?_, decryptedText_binary htext _ R⟩
    simp [payloadData, htext]

/-- The password family round-trips for every password and option string, and the
public-key family for every certificate whose secret version can open its messages. -/
theorem pgp_roundTrips (S : Sequoia) (hW : S.WriterLaws) (hR : S.ReaderLaws) :
    (S.SkeskLaws → ∀ password, RoundTrips (fun t o rng => pgpSymEncrypt S t password o rng)
      (fun b o rng => pgpSymEncryptBytea S b password o rng)
      (fun out o' => pgpSymDecrypt S out password o')
      (fun out o' => pgpSymDecryptBytea S out password o')) ∧
    (S.RecipientLaws → ∀ publicKey secretKey password now,
      HoldsRecipient S publicKey secretKey password now →
      RoundTrips (fun t o rng => pgpPubEncrypt S t publicKey o now rng)
        (fun b o rng => pgpPubEncryptBytea S b publicKey o now rng)
        (fun out o' => pgpPubDecrypt S out secretKey password o')
        (fun out o' => pgpPubDecryptBytea S out secretKey password o')) := by
  constructor
  · intro hK password
    apply roundTrips_of_opened (fun data o text rng => symEncrypt S data password o text rng)
      (fun out => symDecrypt S out password)
    intro data o text rng out rng' h
    exact symDecrypt_symEncrypt hK hW hR h
  · intro hP publicKey secretKey password now hold
    apply roundTrips_of_opened (fun data o text rng => pubEncrypt S data publicKey o text now rng)
      (fun out => pubDecrypt S out secretKey password)
    intro data o text rng out rng' h
    exact pubDecrypt_pubEncrypt hP hW hR hold h

section Recorded
open Recorded

theorem holdsRecipient_secretCert :
    HoldsRecipient transcript.replay publicCert secretCert "" 1700000100 where
  certs := by
    refine ⟨_, _, certFromBytes_publicCert, certFromBytes_secretCert, ?_,
      ⟨subkey, some (.unencrypted subkeySecret)⟩, ?_, subkeyPair, rfl,
      amalgamation subkeyPublic none true, List.mem_singleton.mpr rfl, secretPartOf_subkeyPair⟩
    · intro key hkey
      rcases List.mem_pair.mp (show key ∈ [_, _] from hkey) with rfl | rfl
      · exact ⟨_, rfl⟩
      · exact ⟨_, rfl⟩
    · simp [Cert.secretKeys, cert, amalgamation, subkey]

theorem symEncrypt_recorded :
    pgpSymEncrypt transcript.replay ⟨"one\ntwo\n", by decide⟩ "password" "s2k-mode=0,convert-crlf=1" [] =
      .ok (symOut, []) := by rfl

theorem pgp_roundTrips_recorded :
    pgpSymDecrypt transcript.replay symOut "password" "convert-crlf=1" = .ok "one\ntwo\n" ∧
      pgpPubDecrypt transcript.replay pubOut secretCert "" "convert-crlf=1" = .ok "one\ntwo\n" := by
  obtain ⟨hsym, hpub⟩ := pgp_roundTrips transcript.replay (Transcript.replay_writerLaws _)
    (Transcript.replay_readerLaws transcript_wellFormed)
  replace hsym := hsym (Transcript.replay_skeskLaws _)
  replace hpub := hpub (Transcript.replay_recipientLaws transcript_wellFormed)
  have hopt : parseDecryptOptions "convert-crlf=1" = .ok { convertCrlf := true } := by rfl
  refine ⟨?_, ?_⟩
  · obtain ⟨P, hP, h⟩ := (hsym "password").text _ _ _ _ _ symEncrypt_recorded
    obtain ⟨⟨s, hs, -, heq⟩, -⟩ := h _ _ hopt
    have hflag : P.convertCrlf = true := by
      rw [show parseOptions "s2k-mode=0,convert-crlf=1" true =
        .ok { textInput := true, s2kMode := 0, convertCrlf := true } by rfl] at hP
      cases hP
      rfl
    exact hs.trans (congrArg Except.ok (heq hflag))
  · obtain ⟨P, hP, h⟩ := (hpub _ _ _ _ holdsRecipient_secretCert).text ⟨"one\ntwo\n", by decide⟩ _ _ _ _
      pubEncrypt_publicCert
    obtain ⟨⟨s, hs, -, heq⟩, -⟩ := h _ _ hopt
    have hflag : P.convertCrlf = true := by
      rw [show parseOptions "convert-crlf=1" true =
        .ok { textInput := true, convertCrlf := true } by rfl] at hP
      cases hP
      rfl
    exact hs.trans (congrArg Except.ok (heq hflag))

end Recorded

end PgCrypto.Pgp
