import PgCrypto.Pgp.Crlf

/-! # The OpenPGP library as a parameter

The extension calls the OpenPGP library through a fixed set of operations. They
are collected in one structure, over the packet and key types the calls exchange;
nothing is assumed of them here. Each group of documented behaviours is a separate
structure of propositions, so that a result names exactly the groups it rests on.
-/
namespace PgCrypto.Pgp

abbrev SessionKey := Bytes

/-- Clock readings in seconds from the Unix epoch, possibly before it. -/
abbrev Time := ℤ

inductive DataFormat where
  | binary
  | text
  | unicode
  | other (code : UInt8)
  deriving DecidableEq, Repr

inductive S2K where
  | simple (hash : HashAlgorithm)
  | salted (hash : HashAlgorithm) (salt : Vector UInt8 8)
  | iterated (hash : HashAlgorithm) (salt : Vector UInt8 8) (hashBytes : UInt32)
  deriving DecidableEq

structure CompressionLevel where
  level : UInt8
  deriving DecidableEq, Repr

/-- A version 4 symmetric-key encrypted session key packet. Without an encrypted
session key the derived key is the session key. -/
structure Skesk4 where
  symmetricAlgo : SymmetricAlgorithm
  s2k : S2K
  esk : Option Bytes
  deriving DecidableEq

inductive Skesk where
  | v4 (skesk : Skesk4)
  | v6 (body : Bytes)
  deriving DecidableEq

/-- A public-key encrypted session key packet; an anonymous one names no recipient. -/
structure Pkesk where
  recipient : Option Bytes
  esk : Bytes
  deriving DecidableEq

inductive Packet where
  | pkesk (pkesk : Pkesk)
  | skesk (skesk : Skesk)
  | literal (format : DataFormat)
  | other
  deriving DecidableEq

def Packet.asPkesk : Packet → Option Pkesk
  | .pkesk p => some p
  | _ => none
def Packet.asSkesk : Packet → Option Skesk
  | .skesk s => some s
  | _ => none
def Packet.literalFormat : Packet → Option DataFormat
  | .literal format => some format
  | _ => none

inductive ContainerVersion where
  | v1
  | v2
  deriving DecidableEq

/-- The algorithm in the session key packets. A container of version 2 names it itself. -/
def ContainerVersion.announced (a : SymmetricAlgorithm) : ContainerVersion → Option SymmetricAlgorithm
  | .v1 => some a
  | .v2 => none

/-- What the decryptor may know of the algorithm before it has a session key. -/
def ContainerVersion.MayHint (version : ContainerVersion) (a : SymmetricAlgorithm)
    (hint : Option SymmetricAlgorithm) : Prop := hint = none ∨ version = .v2 ∧ hint = some a

inductive Layer where
  | encrypted (version : ContainerVersion) (algorithm : SymmetricAlgorithm) (key : SessionKey)
  | compressed (algorithm : CompressionAlgorithm) (level : CompressionLevel)
  | literal (format : DataFormat)
  deriving DecidableEq

/-- A message writer: the packets already written to the sink, the layers pushed
over it, and the bytes written to the innermost layer. -/
structure Message where
  packets : List Packet := []
  layers : List Layer := []
  written : Bytes := []
  deriving DecidableEq

def Message.pkesks (message : Message) : List Pkesk := message.packets.filterMap Packet.asPkesk
def Message.skesks (message : Message) : List Skesk := message.packets.filterMap Packet.asSkesk

structure PublicKey where
  creationTime : ℕ
  material : Bytes
  deriving DecidableEq

inductive SecretKeyMaterial where
  | unencrypted (mpis : Bytes)
  | encrypted (ciphertext : Bytes)
  deriving DecidableEq

structure Key where
  publicParts : PublicKey
  secret : Option SecretKeyMaterial
  deriving DecidableEq

structure KeyPair where
  publicParts : PublicKey
  secret : Bytes
  deriving DecidableEq

structure Binding where
  expiration : Option Time
  transportEncryption : Bool
  deriving DecidableEq

/-- A key of a certificate together with its signatures, as a function of time. The features
of its certificate say whether encrypted containers of version 2 are advertised. -/
structure KeyAmalgamation where
  key : Key
  supported : Bool
  bindingAt : Time → Option Binding
  revokedAt : Time → Bool
  seipdv2At : Time → Bool

structure Recipient where
  key : Key
  seipdv2 : Bool
  deriving DecidableEq

/-- No containers of version 2 are advertised, so the library writes packets of version 3. -/
def Recipient.TakesVersion3 (recipient : Recipient) : Prop := recipient.seipdv2 = false

def KeyAmalgamation.recipientAt (ka : KeyAmalgamation) (now : Time) : Recipient :=
  ⟨ka.key, ka.seipdv2At now⟩

structure Cert where
  keys : List KeyAmalgamation

def Cert.isTsk (cert : Cert) : Bool := cert.keys.any (fun ka => ka.key.secret.isSome)

/-- What the decryptor found inside a container it opened: the packets it showed to
the helper, and the result of reading the literal data to the end. -/
structure Opened where
  packets : List Packet
  body : Outcome Bytes

/-- A message parsed up to its encrypted container. The decryptor offers the session
key packets to the helper and tells which session keys open the container. -/
structure EncryptedMessage where
  pkesks : List Pkesk
  skesks : List Skesk
  symAlgo : Option SymmetricAlgorithm
  accepts : Option SymmetricAlgorithm → SessionKey → Bool
  contents : Option SymmetricAlgorithm → SessionKey → Opened

/-- The operations of the OpenPGP library. The random generator is explicit state. Those that
read what others wrote may panic on it. -/
structure Sequoia where
  Rng : Type
  Builder : Type
  random : (n : ℕ) → Rng → Except String (Vector UInt8 n × Rng)
  keySize : SymmetricAlgorithm → Except String ℕ
  compressionLevel : UInt8 → Except String CompressionLevel
  newIterated : HashAlgorithm → UInt32 → Rng → Except String (S2K × Rng)
  deriveKey : S2K → String → ℕ → Except String SessionKey
  newSessionKey : ℕ → Rng → Except String (SessionKey × Rng)
  skesk4New : SymmetricAlgorithm → S2K → Option Bytes → Except String Skesk4
  skesk4WithPassword : SymmetricAlgorithm → SymmetricAlgorithm → S2K → SessionKey → String →
    Except String Skesk4
  skeskDecrypt : Skesk → String → Except String (Option SymmetricAlgorithm × SessionKey)
  serialize : Packet → Message → Except String Message
  withSessionKey : Message → SymmetricAlgorithm → SessionKey → Rng → Except String (Message × Rng)
  forRecipients : Message → List Recipient → SymmetricAlgorithm → Rng → Except String (Message × Rng)
  compressor : Message → CompressionAlgorithm → CompressionLevel → Except String Message
  literalWriter : Message → DataFormat → Except String Message
  writeAll : Message → Bytes → Except String Message
  finalize : Message → Rng → Except String (Bytes × Rng)
  builderFromBytes : Bytes → Outcome Builder
  withPolicy : Builder → Outcome EncryptedMessage
  certFromBytes : Bytes → Outcome Cert
  packetPile : Bytes → Outcome (List Packet)
  keyid : PublicKey → Vector UInt8 8
  decryptSecret : Key → String → Except String Key
  intoKeypair : Key → Except String KeyPair
  importSecret : KeyPair → Except String PublicKey
  pkeskDecrypt : Pkesk → KeyPair → Option SymmetricAlgorithm →
    Option (Option SymmetricAlgorithm × SessionKey)

def invalidOperation (reason : String) : String := "Invalid operation: " ++ reason

namespace Sequoia
variable (S : Sequoia)

/-- The pair holds the secret part of the key: importing its secret makes the key anew. -/
def secretPartOf (pair : KeyPair) (key : PublicKey) : Prop :=
  pair.publicParts = key ∧ S.importSecret pair = .ok key

structure SizeLaws : Prop where
  compressionLevel_ok : ∀ n : UInt8, n ≤ 9 → ∃ level, S.compressionLevel n = .ok level
  keySize_ok : ∀ c : SymmetricAlgorithm, c.Named → ∃ n, S.keySize c = .ok n
  deriveKey_length : ∀ s2k password n key, S.deriveKey s2k password n = .ok key → key.length = n

structure SkeskLaws : Prop where
  new_eq : ∀ a s2k esk skesk, S.skesk4New a s2k esk = .ok skesk → skesk = ⟨a, s2k, esk⟩
  decrypt_derived : ∀ a s2k password n key, S.keySize a = .ok n → S.deriveKey s2k password n = .ok key →
    S.skeskDecrypt (.v4 ⟨a, s2k, none⟩) password = .ok (some a, key)
  decrypt_withPassword : ∀ payload esk s2k key password skesk,
    S.skesk4WithPassword payload esk s2k key password = .ok skesk →
      S.skeskDecrypt (.v4 skesk) password = .ok (some payload, key)

/-- A successful writer operation only pushes its own packet, layer or bytes. -/
structure WriterLaws : Prop where
  serialize_eq : ∀ p m m', S.serialize p m = .ok m' → m' = { m with packets := m.packets ++ [p] }
  withSessionKey_eq : ∀ m a key rng m' rng', S.withSessionKey m a key rng = .ok (m', rng') →
    m' = { m with layers := m.layers ++ [.encrypted .v1 a key] }
  compressor_eq : ∀ m a level m', S.compressor m a level = .ok m' →
    m' = { m with layers := m.layers ++ [.compressed a level] }
  literalWriter_eq : ∀ m format m', S.literalWriter m format = .ok m' →
    m' = { m with layers := m.layers ++ [.literal format] }
  writeAll_eq : ∀ m data m', S.writeAll m data = .ok m' → m' = { m with written := m.written ++ data }

/-- Encrypting to recipients writes one packet for each, in order, that gives the session key
to the secret part of the recipient's key; without recipients it fails. -/
structure RecipientLaws : Prop where
  forRecipients_eq : ∀ m recipients a rng m' rng', S.forRecipients m recipients a rng = .ok (m', rng') →
    ∃ version session pkesks,
      m' = { m with
        packets := m.packets ++ pkesks.map .pkesk
        layers := m.layers ++ [.encrypted version a session] } ∧
      List.Forall₂ (fun recipient pkesk => ∀ pair, S.secretPartOf pair recipient.key.publicParts →
        ∀ hint, version.MayHint a hint →
          S.pkeskDecrypt pkesk pair hint = some (version.announced a, session)) recipients pkesks
  forRecipients_nil : ∀ m a rng, ∃ e, S.forRecipients m [] a rng = .error e

/-- Packets of version 3 name the key they are for. They are written where every recipient
takes them. -/
structure NamingLaws (takesVersion3 : Recipient → Prop) : Prop where
  forRecipients_names : ∀ m recipients a rng m' rng' pkesks,
    S.forRecipients m recipients a rng = .ok (m', rng') →
    (∀ recipient ∈ recipients, takesVersion3 recipient) →
    m'.packets = m.packets ++ pkesks.map .pkesk →
      List.Forall₂ (fun recipient pkesk =>
        pkesk.recipient = some (S.keyid recipient.key.publicParts).toList) recipients pkesks

/-- A finished message is no certificate, and its packets begin with those written
before the encrypted container. -/
structure PileLaws : Prop where
  pile_finalize : ∀ m version a key rest rng out rng', m.layers = .encrypted version a key :: rest →
    S.finalize m rng = .ok (out, rng') →
      (∃ e, S.certFromBytes out = .error (.error e)) ∧ ∃ inner, S.packetPile out = .ok (m.packets ++ inner)

/-- The decryptor reads back what the writer finished: the session key packets before the
container, and, with any session key it accepts, what was written and the literal packet. It
accepts the session key of the container with what its packets announce. -/
structure ReaderLaws : Prop where
  read_finalize : ∀ m version a key format pre rng out rng',
    m.layers = .encrypted version a key :: pre ++ [.literal format] →
    (∀ layer ∈ pre, ∃ algorithm level, layer = .compressed algorithm level) →
    S.finalize m rng = .ok (out, rng') →
      ∃ builder e, S.builderFromBytes out = .ok builder ∧ S.withPolicy builder = .ok e ∧
        e.pkesks = m.pkesks ∧ e.skesks = m.skesks ∧ version.MayHint a e.symAlgo ∧
        e.accepts (version.announced a) key = true ∧
        ∀ a' key', e.accepts a' key' = true → (e.contents a' key').body = .ok m.written ∧
          (e.contents a' key').packets.filterMap Packet.literalFormat = [format]

end Sequoia

end PgCrypto.Pgp
