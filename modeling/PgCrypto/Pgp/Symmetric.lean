import PgCrypto.Pgp.Transcript

/-! # Password-based encryption and decryption

The encryption path prepares the string-to-key specifier, the session key and the
session key packet, then writes the payload through an encryption layer, an
optional compression layer and a literal layer. Decryption tries the session key
packets in order and records the format of the literal packet it is shown.
-/
namespace PgCrypto.Pgp
open Utf8
variable (S : Sequoia)

def u32FromLeBytes (bytes : Vector UInt8 4) : UInt32 :=
  bytes[0].toUInt32 ||| (bytes[1].toUInt32 <<< 8) ||| (bytes[2].toUInt32 <<< 16) |||
    (bytes[3].toUInt32 <<< 24)

def minCount : UInt32 := 65536
def maxCount : UInt32 := 253952

def defaultS2kCount (rng : S.Rng) : Except String (UInt32 × S.Rng) := do
  let (random, rng) ← S.random 4 rng
  .ok (minCount + u32FromLeBytes random % (maxCount - minCount + 1), rng)

/-- The iteration count of mode 3: the requested one, else a drawn default. -/
def s2kCountOrDefault (options : PgpOptions) (rng : S.Rng) : Except String (UInt32 × S.Rng) :=
  match options.s2kCount with
  | some count => .ok (count, rng)
  | none => defaultS2kCount S rng

def makeS2k (options : PgpOptions) (rng : S.Rng) : Outcome (Except String (S2K × S.Rng)) :=
  match options.s2kMode with
  | 0 => .ok (.ok (.simple options.s2kDigest, rng))
  | 1 => .ok do
    let (salt, rng) ← S.random 8 rng
    .ok (.salted options.s2kDigest salt, rng)
  | 3 => .ok do
    let (count, rng) ← s2kCountOrDefault S options rng
    S.newIterated options.s2kDigest count rng
  | _ => abort "internal error: entered unreachable code: validated S2K mode"

def payloadFormat (options : PgpOptions) : DataFormat :=
  match options.textInput, options.unicodeMode with
  | false, _ => .binary
  | true, false => .text
  | true, true => .unicode

def payloadData (options : PgpOptions) (data : Bytes) : Bytes :=
  if options.textInput && options.convertCrlf then crlfEncode data else data

def pushCompressor (message : Message) (options : PgpOptions) : Except String Message :=
  if options.compression ≠ .uncompressed ∧ options.compressionLevel > 0 then do
    let level ← S.compressionLevel options.compressionLevel
    S.compressor message options.compression level
  else .ok message

def writePayload (message : Message) (data : Bytes) (options : PgpOptions) (rng : S.Rng) :
    Except String (Bytes × S.Rng) := do
  let message ← pushCompressor S message options
  let literal ← S.literalWriter message (payloadFormat options)
  let literal ← S.writeAll literal (payloadData options data)
  S.finalize literal rng

def symSessionKey (options : PgpOptions) (s2k : S2K) (password : String) (rng : S.Rng) :
    Outcome (SessionKey × S.Rng) := do
  let size ← orRaise "unsupported OpenPGP cipher" (S.keySize options.cipher)
  if options.useSessionKey then
    orRaise "could not generate OpenPGP session key" (S.newSessionKey size rng)
  else do
    let key ← orRaise "OpenPGP S2K derivation failed" (S.deriveKey s2k password size)
    .ok (key, rng)

def symSkesk (options : PgpOptions) (s2kCipher : SymmetricAlgorithm) (s2k : S2K)
    (sessionKey : SessionKey) (password : String) : Outcome Skesk4 :=
  if options.useSessionKey then
    orRaise "could not create OpenPGP session key packet"
      (S.skesk4WithPassword options.cipher s2kCipher s2k sessionKey password)
  else orRaise "could not create OpenPGP S2K packet" (S.skesk4New s2kCipher s2k none)

/-- The part of `sym_encrypt` before any output: the session key and its packet. -/
def symSession (options : PgpOptions) (password : String) (rng : S.Rng) :
    Outcome (Skesk4 × SessionKey × S.Rng) := do
  let made ← makeS2k S options rng
  let (s2k, rng) ← orRaise "could not initialize OpenPGP S2K" made
  let s2kCipher := options.s2kCipher.getD options.cipher
  if ¬ options.useSessionKey ∧ s2kCipher ≠ options.cipher then
    raise "s2k-cipher-algo requires sess-key=1 when it differs from cipher-algo"
  else do
    let (sessionKey, rng) ← symSessionKey S options s2k password rng
    let skesk ← symSkesk S options s2kCipher s2k sessionKey password
    .ok (skesk, sessionKey, rng)

def symEncrypt (data : Bytes) (password options : String) (text : Bool) (rng : S.Rng) :
    Outcome (Bytes × S.Rng) := do
  let options ← parseOptions options text
  let (skesk, sessionKey, rng) ← symSession S options password rng
  let message ← orRaise "could not serialize OpenPGP S2K packet"
    (S.serialize (.skesk (.v4 skesk)) {})
  let (message, rng) ← orRaise "could not initialize OpenPGP encryption"
    (S.withSessionKey message options.cipher sessionKey rng)
  orRaise "OpenPGP encryption failed" (writePayload S message data options rng)

/-- The helper's view of one packet the decryptor passes. -/
def inspectLiteralFormat (format : UInt8) : Packet → UInt8
  | .literal .binary => literalBinary
  | .literal .text => literalText
  | .literal .unicode => literalUnicode
  | .literal (.other _) => literalUnknown
  | _ => format

/-- `PasswordHelper::decrypt`: the first session key the decryptor accepts. -/
def passwordHelperDecrypt (password : String)
    (accepts : Option SymmetricAlgorithm → SessionKey → Bool) :
    List Skesk → Except String (Option SymmetricAlgorithm × SessionKey)
  | [] => .error (invalidOperation "incorrect password or no symmetric session key")
  | skesk :: rest =>
    match S.skeskDecrypt skesk password with
    | .ok (algorithm, key) =>
      if accepts algorithm key then .ok (algorithm, key)
      else passwordHelperDecrypt password accepts rest
    | .error _ => passwordHelperDecrypt password accepts rest

def symDecrypt (data : Bytes) (password : String) : Outcome (Bytes × UInt8) := do
  let builder ← orUnwind "invalid OpenPGP message" (S.builderFromBytes data)
  let message ← orUnwind "OpenPGP decryption failed" (S.withPolicy builder)
  let (algorithm, key) ← orRaise "OpenPGP decryption failed"
    (passwordHelperDecrypt S password message.accepts message.skesks)
  let opened := message.contents algorithm key
  let output ← orUnwind "OpenPGP decryption failed" opened.body
  .ok (output, opened.packets.foldl inspectLiteralFormat literalUnknown)

def pgpSymEncrypt (data : PgText) (password options : String) (rng : S.Rng) :
    Outcome (Bytes × S.Rng) := symEncrypt S (utf8 data.val) password options true rng

def pgpSymEncryptBytea (data : Bytes) (password options : String) (rng : S.Rng) :
    Outcome (Bytes × S.Rng) := symEncrypt S data password options false rng

def pgpSymDecrypt (data : Bytes) (password options : String) : Outcome String := do
  let options ← parseDecryptOptions options
  let (data, format) ← symDecrypt S data password
  decryptedText data format options

def pgpSymDecryptBytea (data : Bytes) (password options : String) : Outcome Bytes := do
  let _ ← parseDecryptOptions options
  let (data, _) ← symDecrypt S data password
  .ok data

/-- The stored format code of a literal packet. -/
def formatCode : DataFormat → UInt8
  | .binary => literalBinary
  | .text => literalText
  | .unicode => literalUnicode
  | .other _ => literalUnknown

theorem foldl_inspectLiteralFormat_nil {packets : List Packet}
    (h : packets.filterMap Packet.literalFormat = []) (start : UInt8) :
    packets.foldl inspectLiteralFormat start = start := by
  induction packets with
  | nil => rfl
  | cons p packets ih =>
    cases p with
    | literal f => simp [Packet.literalFormat] at h
    | pkesk _ | skesk _ | other => exact ih h

/-- With one literal packet among those inspected, its format is what is recorded. -/
theorem foldl_inspectLiteralFormat {packets : List Packet} {format : DataFormat}
    (h : packets.filterMap Packet.literalFormat = [format]) (start : UInt8) :
    packets.foldl inspectLiteralFormat start = formatCode format := by
  induction packets generalizing start with
  | nil => simp at h
  | cons p packets ih =>
    cases p with
    | literal f =>
      rw [List.filterMap_cons_some (show Packet.literalFormat (.literal f) = some f from rfl),
        List.cons.injEq] at h
      rw [List.foldl_cons, foldl_inspectLiteralFormat_nil h.2, h.1]
      cases format <;> rfl
    | pkesk _ | skesk _ | other => exact ih h _

section Payload
variable {S}

theorem pushCompressor_eq (hS : S.WriterLaws) {m m' : Message} {P : PgpOptions}
    (h : pushCompressor S m P = .ok m') :
    ∃ pre : List Layer, (∀ layer ∈ pre, ∃ algorithm level, layer = .compressed algorithm level) ∧
      m' = { m with layers := m.layers ++ pre } := by
  unfold pushCompressor at h
  split at h
  · obtain ⟨level, -, hm⟩ := bind_eq_ok.mp h
    refine ⟨[.compressed P.compression level], ?_, hS.compressor_eq _ _ _ _ hm⟩
    intro layer hl
    exact ⟨_, _, List.mem_singleton.mp hl⟩
  · cases h
    exact ⟨[], by simp, by simp⟩

/-- A successful payload is one finished message: the given packets and layers, then
at most compression, and the literal layer with the converted data. -/
theorem writePayload_finalize (hS : S.WriterLaws) {m : Message} {data out : Bytes} {P : PgpOptions}
    {rng rng' : S.Rng} (h : writePayload S m data P rng = .ok (out, rng')) :
    ∃ pre : List Layer, (∀ layer ∈ pre, ∃ algorithm level, layer = .compressed algorithm level) ∧
      S.finalize { m with
        layers := m.layers ++ (pre ++ [.literal (payloadFormat P)])
        written := m.written ++ payloadData P data } rng = .ok (out, rng') := by
  unfold writePayload at h
  obtain ⟨m₁, h₁, k₁⟩ := bind_eq_ok.mp h
  obtain ⟨m₂, h₂, k₂⟩ := bind_eq_ok.mp k₁
  obtain ⟨m₃, h₃, hf⟩ := bind_eq_ok.mp k₂
  obtain ⟨pre, hpre, e₁⟩ := pushCompressor_eq hS h₁
  refine ⟨pre, hpre, ?_⟩
  rw [hS.writeAll_eq _ _ _ h₃, hS.literalWriter_eq _ _ _ h₂, e₁] at hf
  simpa only [List.append_assoc] using hf

/-- Without compression a replayed payload is finished with the literal layer only. -/
theorem writePayload_replay {T : Transcript} (m : Message) (data : Bytes) (rng : Bytes) {P : PgpOptions}
    (hP : P.compression = .uncompressed) :
    writePayload T.replay m data P rng = T.replay.finalize { m with
      layers := m.layers ++ [.literal (payloadFormat P)]
      written := m.written ++ payloadData P data } rng := by
  simp only [writePayload, pushCompressor, hP]
  rfl

end Payload

/-- The two kinds of session a password gives: a session key of its own, carried by the
packet, or the key derived for the payload cipher, with nothing carried. -/
theorem symSession_cases {S : Sequoia} {P : PgpOptions} {password : String} {rng rng' : S.Rng}
    {skesk : Skesk4} {key : SessionKey} (h : symSession S P password rng = .ok (skesk, key, rng')) :
    ∃ s2k n, S.keySize P.cipher = .ok n ∧
      (P.useSessionKey = true ∧
          S.skesk4WithPassword P.cipher (P.s2kCipher.getD P.cipher) s2k key password = .ok skesk ∨
        P.useSessionKey = false ∧ S.skesk4New P.cipher s2k none = .ok skesk ∧
          S.deriveKey s2k password n = .ok key) := by
  unfold symSession at h
  obtain ⟨made, -, h⟩ := bind_eq_ok.mp h
  obtain ⟨⟨s2k, rng₁⟩, -, h⟩ := bind_eq_ok.mp h
  dsimp only at h
  split at h
  · simp at h
  · next hcipher =>
    obtain ⟨⟨key₁, rng₂⟩, hkey, h⟩ := bind_eq_ok.mp h
    obtain ⟨skesk₁, hskesk, h⟩ := bind_eq_ok.mp h
    simp only [Except.ok.injEq, Prod.mk.injEq] at h
    obtain ⟨rfl, rfl, rfl⟩ := h
    unfold symSessionKey at hkey
    obtain ⟨n, hn, hkey⟩ := bind_eq_ok.mp hkey
    refine ⟨s2k, n, orRaise_eq_ok.mp hn, ?_⟩
    cases hk : P.useSessionKey with
    | true =>
      rw [symSkesk, if_pos hk, orRaise_eq_ok] at hskesk
      exact Or.inl ⟨rfl, hskesk⟩
    | false =>
      have hsame : P.s2kCipher.getD P.cipher = P.cipher := by
        by_contra hne
        exact hcipher ⟨by simp [hk], hne⟩
      simp only [hk, Bool.false_eq_true, if_false, bind_eq_ok, orRaise_eq_ok, Except.ok.injEq,
        Prod.mk.injEq] at hkey
      obtain ⟨key₂, hd, rfl, rfl⟩ := hkey
      simp only [symSkesk, hk, hsame, orRaise_eq_ok, Bool.false_eq_true, if_false] at hskesk
      exact Or.inr ⟨rfl, hskesk, hd⟩

theorem symEncrypt_eq_ok {S : Sequoia} {data out : Bytes} {password o : String} {text : Bool}
    {rng rng' : S.Rng} :
    symEncrypt S data password o text rng = .ok (out, rng') ↔
      ∃ P, parseOptions o text = .ok P ∧ ∃ skesk key rng₁,
        symSession S P password rng = .ok (skesk, key, rng₁) ∧ ∃ m₁ m₂ rng₂,
          S.serialize (.skesk (.v4 skesk)) {} = .ok m₁ ∧
          S.withSessionKey m₁ P.cipher key rng₁ = .ok (m₂, rng₂) ∧
          writePayload S m₂ data P rng₂ = .ok (out, rng') := by
  simp only [symEncrypt, bind_eq_ok, orRaise_eq_ok, Prod.exists]
  constructor
  · rintro ⟨P, hP, skesk, key, rng₁, hs, m₁, h₁, m₂, rng₂, h₂, hw⟩
    exact ⟨P, hP, skesk, key, rng₁, hs, m₁, m₂, rng₂, h₁, h₂, hw⟩
  · rintro ⟨P, hP, skesk, key, rng₁, hs, m₁, m₂, rng₂, h₁, h₂, hw⟩
    exact ⟨P, hP, skesk, key, rng₁, hs, m₁, h₁, m₂, rng₂, h₂, hw⟩

end PgCrypto.Pgp
