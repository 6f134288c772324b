import PgCrypto.Pgp.Symmetric

/-! # Public-key encryption, decryption and key identifiers

Encryption and `pgp_key_id` select keys of a certificate through the same five
iterator stages, each with its own copy of the chain. Decryption unlocks every secret
key of the certificate first and then searches the session key packets for a pair
that opens the container.
-/
namespace PgCrypto.Pgp
open Utf8

section Selection

/-- The key has been created and, by the binding in force, has not expired. -/
def KeyAmalgamation.aliveAt (ka : KeyAmalgamation) (now : Time) : Bool :=
  match ka.bindingAt now with
  | none => false
  | some binding =>
    decide ((ka.key.publicParts.creationTime : ℤ) ≤ now) &&
      match binding.expiration with
      | none => true
      | some expiration => decide (now < expiration)

def withPolicyAt (now : Time) (keys : List KeyAmalgamation) : List KeyAmalgamation :=
  keys.filter (fun ka => (ka.bindingAt now).isSome)
def supported (keys : List KeyAmalgamation) : List KeyAmalgamation :=
  keys.filter (fun ka => ka.supported)
def alive (now : Time) (keys : List KeyAmalgamation) : List KeyAmalgamation :=
  keys.filter (fun ka => ka.aliveAt now)
def revoked (flag : Bool) (now : Time) (keys : List KeyAmalgamation) : List KeyAmalgamation :=
  keys.filter (fun ka => ka.revokedAt now == flag)
def forTransportEncryption (now : Time) (keys : List KeyAmalgamation) : List KeyAmalgamation :=
  keys.filter (fun ka => (ka.bindingAt now).any (fun binding => binding.transportEncryption))

end Selection

variable (S : Sequoia)

/-- The recipients that `pub_encrypt` encrypts to. -/
def recipients (cert : Cert) (now : Time) : List KeyAmalgamation :=
  forTransportEncryption now (revoked false now (alive now (supported (withPolicyAt now cert.keys))))

def pubEncrypt (data publicKey : Bytes) (options : String) (text : Bool) (now : Time) (rng : S.Rng) :
    Outcome (Bytes × S.Rng) := do
  let options ← parseOptions options text
  let cert ← orUnwind "invalid OpenPGP public key" (S.certFromBytes publicKey)
  if cert.isTsk then
    raise "a secret OpenPGP key cannot be used for public-key encryption"
  else do
    let (message, rng) ← orRaise "no usable OpenPGP encryption key"
      (S.forRecipients {} ((recipients cert now).map (fun ka => ka.recipientAt now)) options.cipher rng)
    orRaise "OpenPGP public-key encryption failed" (writePayload S message data options rng)

/-- The secret keys of a certificate, in order. -/
def Cert.secretKeys (cert : Cert) : List Key :=
  (cert.keys.map (fun ka => ka.key)).filter (fun key => key.secret.isSome)

def Key.isEncrypted (key : Key) : Bool :=
  match key.secret with
  | some (.encrypted _) => true
  | _ => false

/-- A protected key is unlocked with the password, an unprotected one is used as it is. -/
def unlock (password : String) (key : Key) : Except String Key :=
  if key.isEncrypted then S.decryptSecret key password else .ok key

/-- The loop body over the secret keys: a key that stays locked aborts the call, a key
that gives no pair is passed over. -/
def pushPair (password : String) (pairs : List KeyPair) (key : Key) : Outcome (List KeyPair) := do
  let key ← orRaise "could not unlock OpenPGP secret key" (unlock S password key)
  match S.intoKeypair key with
  | .ok pair => .ok (pairs ++ [pair])
  | .error _ => .ok pairs

/-- One attempt of `KeyHelper::decrypt`. -/
def tryPair (e : EncryptedMessage) (pkesk : Pkesk) (pair : KeyPair) :
    Option (Option SymmetricAlgorithm × SessionKey) :=
  (S.pkeskDecrypt pkesk pair e.symAlgo).filter (fun p => e.accepts p.1 p.2)

/-- `KeyHelper::decrypt`: every packet with every pair, packets outermost. -/
def keyHelperDecrypt (pairs : List KeyPair) (e : EncryptedMessage) :
    Except String (Option SymmetricAlgorithm × SessionKey) :=
  match e.pkesks.findSome? (fun pkesk => pairs.findSome? (tryPair S e pkesk)) with
  | some session => .ok session
  | none => .error (invalidOperation "message was not encrypted for the supplied key")

def pubDecrypt (data secretKey : Bytes) (password : String) : Outcome (Bytes × UInt8) := do
  let cert ← orUnwind "invalid OpenPGP secret key" (S.certFromBytes secretKey)
  let pairs ← cert.secretKeys.foldlM (pushPair S password) []
  if pairs.isEmpty then
    raise "OpenPGP secret key contains no usable key material"
  else do
    let builder ← orUnwind "invalid OpenPGP message" (S.builderFromBytes data)
    let message ← orUnwind "OpenPGP public-key decryption failed" (S.withPolicy builder)
    let (algorithm, key) ← orRaise "OpenPGP public-key decryption failed"
      (keyHelperDecrypt S pairs message)
    let opened := message.contents algorithm key
    let output ← orUnwind "OpenPGP public-key decryption failed" opened.body
    .ok (output, opened.packets.foldl inspectLiteralFormat literalUnknown)

def pgpPubEncrypt (data : PgText) (publicKey : Bytes) (options : String) (now : Time) (rng : S.Rng) :
    Outcome (Bytes × S.Rng) := pubEncrypt S (utf8 data.val) publicKey options true now rng

def pgpPubEncryptBytea (data publicKey : Bytes) (options : String) (now : Time) (rng : S.Rng) :
    Outcome (Bytes × S.Rng) := pubEncrypt S data publicKey options false now rng

def pgpPubDecrypt (data secretKey : Bytes) (password options : String) : Outcome String := do
  let options ← parseDecryptOptions options
  let (data, format) ← pubDecrypt S data secretKey password
  decryptedText data format options

def pgpPubDecryptBytea (data secretKey : Bytes) (password options : String) : Outcome Bytes := do
  let _ ← parseDecryptOptions options
  let (data, _) ← pubDecrypt S data secretKey password
  .ok data

def hexDigit (n : ℕ) : Char := Char.ofNat (if n < 10 then 48 + n else 55 + n)

/-- The library's upper-case `to_hex`. -/
def toHex (bytes : Bytes) : String :=
  String.ofList (bytes.flatMap (fun b => [hexDigit (b.toNat / 16), hexDigit (b.toNat % 16)]))

/-- The packet scan of `pgp_key_id`: the first session key packet decides. -/
def keyIdOfPackets : List Packet → Outcome String
  | [] => raise "OpenPGP data contains no encrypted session key"
  | .pkesk pkesk :: _ => .ok (match pkesk.recipient with
    | none => "ANYKEY"
    | some id => toHex id)
  | .skesk _ :: _ => .ok "SYMKEY"
  | _ :: rest => keyIdOfPackets rest

def pgpKeyId (data : Bytes) (now : Time) : Outcome String :=
  match S.certFromBytes data with
  | .ok cert =>
    match (forTransportEncryption now (revoked false now (alive now
        (supported (withPolicyAt now cert.keys))))).head? with
    | some ka => .ok (toHex (S.keyid ka.key.publicParts).toList)
    | none => raise "OpenPGP key contains no usable encryption key"
  | .error (.panic message) => abort message
  | .error (.error _) => do
    let pile ← orUnwind "invalid OpenPGP data" (S.packetPile data)
    keyIdOfPackets pile

example : toHex [0x0a, 0xff, 0x30] = "0AFF30" := by decide

theorem pubEncrypt_eq_ok {S : Sequoia} {data publicKey out : Bytes} {o : String} {text : Bool} {now : Time}
    {rng rng' : S.Rng} :
    pubEncrypt S data publicKey o text now rng = .ok (out, rng') ↔
      ∃ P cert, parseOptions o text = .ok P ∧ S.certFromBytes publicKey = .ok cert ∧
        cert.isTsk = false ∧ ∃ message rng₁,
          S.forRecipients {} ((recipients cert now).map (fun ka => ka.recipientAt now)) P.cipher rng =
            .ok (message, rng₁) ∧
          writePayload S message data P rng₁ = .ok (out, rng') := by
  unfold pubEncrypt
  simp only [bind_eq_ok, orUnwind_eq_ok]
  constructor
  · rintro ⟨P, hP, cert, hcert, h⟩
    split at h
    · simp at h
    · next ht =>
      obtain ⟨⟨message, rng₁⟩, hm, hw⟩ := bind_eq_ok.mp h
      exact ⟨P, cert, hP, hcert, by simpa using ht, message, rng₁, orRaise_eq_ok.mp hm,
        orRaise_eq_ok.mp hw⟩
  · rintro ⟨P, cert, hP, hcert, ht, message, rng₁, hm, hw⟩
    refine ⟨P, hP, cert, hcert, ?_⟩
    rw [if_neg (by simp [ht]), hm]
    exact orRaise_eq_ok.mpr hw

/-- The recorded encryption to the certificate. -/
theorem Recorded.pubEncrypt_publicCert :
    pubEncrypt transcript.replay (utf8 "one\ntwo\n") publicCert "convert-crlf=1" true 1700000100 [] =
      .ok (pubOut, []) := by
  have hkeys : (recipients (cert none none) 1700000100).map (fun ka => ka.recipientAt 1700000100) =
      [⟨⟨subkey, none⟩, false⟩] := rfl
  refine pubEncrypt_eq_ok.mpr ⟨{ textInput := true, convertCrlf := true }, cert none none, by rfl,
    certFromBytes_publicCert, rfl,
    { packets := [.pkesk pkesk], layers := [.encrypted .v1 .aes128 pkeskSession] }, [], ?_, ?_⟩
  · rw [hkeys]
    exact forRecipients_subkey []
  · rw [writePayload_replay _ _ _ rfl]
    exact finalize_pubMessage []

end PgCrypto.Pgp
