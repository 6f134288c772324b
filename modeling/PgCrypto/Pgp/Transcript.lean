import Mathlib.Data.List.Forall2
import PgCrypto.Pgp.Sequoia

/-! # Replaying recorded library calls

A transcript lists what the library returned in one session: derived keys, finished
messages, parsed certificates and the keys of the messages. Its replay answers the
recorded calls from the lists, fails on any other call, and takes random bytes from a
tape. A replay meets the laws as soon as its lists are consistent with each other, so
results that assume them can be applied to real sessions.
-/
namespace PgCrypto.Pgp
open Utf8

/-- One encryption to recipients: the session key drawn and the packets written. -/
structure Sent where
  recipients : List Recipient
  algorithm : SymmetricAlgorithm
  session : SessionKey
  pkesks : List Pkesk

structure Transcript where
  derived : List ((S2K × String) × SessionKey) := []
  sent : List Sent := []
  finished : List (Message × Bytes) := []
  certs : List (Bytes × Cert) := []
  keyids : List (PublicKey × Vector UInt8 8) := []
  unlocked : List ((Key × String) × Key) := []
  pairs : List KeyPair := []
  opened : List ((Pkesk × KeyPair) × (SymmetricAlgorithm × SessionKey)) := []

namespace Transcript
variable (T : Transcript)

def answer {α : Type} : Option α → Except String α
  | some a => .ok a
  | none => .error "not recorded"

@[simp] theorem answer_eq_ok {α : Type} {o : Option α} {a : α} : answer o = .ok a ↔ o = some a := by
  cases o with
  | none => simp [answer]
  | some b => simp [answer]

/-- The answer of an operation that may panic; none of those recorded did. -/
def found {α : Type} : Option α → Outcome α
  | some a => .ok a
  | none => raise "not recorded"

@[simp] theorem found_eq_ok {α : Type} {o : Option α} {a : α} : found o = .ok a ↔ o = some a := by
  cases o with
  | none => simp [found]
  | some b => simp [found]

def tape (n : ℕ) (rng : Bytes) : Except String (Vector UInt8 n × Bytes) :=
  if h : (rng.take n).length = n then .ok (⟨(rng.take n).toArray, h⟩, rng.drop n)
  else .error "no more random bytes"

def keySize : SymmetricAlgorithm → Except String ℕ
  | .blowfish => .ok 16
  | .aes128 => .ok 16
  | .aes192 => .ok 24
  | .aes256 => .ok 32
  | .tripleDES => .ok 24
  | .cast5 => .ok 16
  | .other _ => .error "unsupported symmetric algorithm"

def deriveKey (s2k : S2K) (password : String) (n : ℕ) : Except String SessionKey :=
  match T.derived.lookup (s2k, password) with
  | some key => if key.length = n then .ok key else .error "not recorded"
  | none => .error "not recorded"

def findMessage (data : Bytes) : Option (Message × Bytes) := T.finished.find? (fun f => f.2 = data)
def findSent (recipients : List Recipient) (algorithm : SymmetricAlgorithm) : Option Sent :=
  T.sent.find? (fun s => s.recipients = recipients ∧ s.algorithm = algorithm)

/-- The session key, with its algorithm, that opens the first layer. -/
def sessionOf (message : Message) : Option (Option SymmetricAlgorithm × SessionKey) :=
  match message.layers with
  | .encrypted version a key :: _ => some (version.announced a, key)
  | _ => none

/-- The decryptor's view of a finished message. -/
def readBack (message : Message) : EncryptedMessage where
  pkesks := message.pkesks
  skesks := message.skesks
  symAlgo := none
  accepts announced key := sessionOf message = some (announced, key)
  contents announced key := match message.layers.getLast? with
    | some (.literal format) =>
      if sessionOf message = some (announced, key) then
        ⟨[.literal format, .other], .ok message.written⟩
      else ⟨[], raise "wrong session key"⟩
    | _ => ⟨[], raise "malformed message"⟩

def intoKeypair (key : Key) : Except String KeyPair :=
  match key.secret with
  | some (.unencrypted mpis) => .ok ⟨key.publicParts, mpis⟩
  | _ => .error "key has no unencrypted secret part"

/-- The library as it behaved in the session. -/
def replay : Sequoia where
  Rng := Bytes
  Builder := Message
  random := tape
  keySize := keySize
  compressionLevel n := if n ≤ 9 then .ok ⟨n⟩ else .error "invalid compression level"
  newIterated hash count rng := do
    let (salt, rng) ← tape 8 rng
    .ok (.iterated hash salt count, rng)
  deriveKey := T.deriveKey
  newSessionKey n rng := do
    let (key, rng) ← tape n rng
    .ok (key.toList, rng)
  skesk4New a s2k esk := .ok ⟨a, s2k, esk⟩
  skesk4WithPassword _ _ _ _ _ := .error "not recorded"
  skeskDecrypt
    | .v4 ⟨a, s2k, none⟩, password => do
      let n ← keySize a
      let key ← T.deriveKey s2k password n
      .ok (some a, key)
    | _, _ => .error "not recorded"
  serialize packet message := .ok { message with packets := message.packets ++ [packet] }
  withSessionKey message a key rng :=
    .ok ({ message with layers := message.layers ++ [.encrypted .v1 a key] }, rng)
  forRecipients message recipients a rng := do
    let s ← answer (T.findSent recipients a)
    .ok ({ message with
      packets := message.packets ++ s.pkesks.map .pkesk
      layers := message.layers ++ [.encrypted .v1 a s.session] }, rng)
  compressor message a level := .ok { message with layers := message.layers ++ [.compressed a level] }
  literalWriter message format := .ok { message with layers := message.layers ++ [.literal format] }
  writeAll message data := .ok { message with written := message.written ++ data }
  finalize message rng := do
    let out ← answer (T.finished.lookup message)
    .ok (out, rng)
  builderFromBytes data := found ((T.findMessage data).map Prod.fst)
  withPolicy message := .ok (readBack message)
  certFromBytes data := found (T.certs.lookup data)
  packetPile data := found ((T.findMessage data).map (fun f => f.1.packets ++ [.other]))
  keyid key := (T.keyids.lookup key).getD (Vector.replicate 8 0)
  decryptSecret key password := answer (T.unlocked.lookup (key, password))
  intoKeypair := intoKeypair
  importSecret pair := if pair ∈ T.pairs then .ok pair.publicParts else .error "not recorded"
  pkeskDecrypt pkesk pair _ := (T.opened.lookup (pkesk, pair)).map (fun p => (some p.1, p.2))

/-- The lists agree with each other: a finished message is found again by its bytes
and is no certificate, and the packets sent to a key open with its secret part. -/
structure WellFormed : Prop where
  finished_found : ∀ f ∈ T.finished, T.findMessage f.2 = some f
  finished_noCert : ∀ f ∈ T.finished, T.certs.lookup f.2 = none
  sent_ne_nil : ∀ s ∈ T.sent, s.recipients ≠ []
  sent_opens : ∀ s ∈ T.sent, List.Forall₂ (fun recipient pkesk =>
    ∀ pair ∈ T.pairs, pair.publicParts = recipient.key.publicParts →
      T.opened.lookup (pkesk, pair) = some (s.algorithm, s.session)) s.recipients s.pkesks
  sent_names : ∀ s ∈ T.sent, (∀ recipient ∈ s.recipients, recipient.seipdv2 = false) →
    List.Forall₂ (fun recipient pkesk =>
      pkesk.recipient = some (T.replay.keyid recipient.key.publicParts).toList) s.recipients s.pkesks

section Laws
variable {T}

theorem deriveKey_eq_ok {s2k : S2K} {password : String} {n : ℕ} {key : SessionKey}
    (h : T.deriveKey s2k password n = .ok key) : key.length = n := by
  unfold deriveKey at h
  split at h
  · split at h
    · next hn =>
      cases h
      exact hn
    · cases h
  · cases h

theorem replay_sizeLaws (T : Transcript) : T.replay.SizeLaws where
  compressionLevel_ok n h := ⟨⟨n⟩, if_pos h⟩
  keySize_ok c h := by
    cases c with
    | other _ => exact h.elim
    | _ => exact ⟨_, rfl⟩
  deriveKey_length _ _ _ _ h := deriveKey_eq_ok h

theorem replay_skeskLaws (T : Transcript) : T.replay.SkeskLaws where
  new_eq _ _ _ _ h := by
    cases h
    rfl
  decrypt_derived a s2k password n key hn hd := by
    change keySize a >>= _ = _
    rw [show keySize a = .ok n from hn, ok_bind, show T.deriveKey s2k password n = .ok key from hd]
    rfl
  decrypt_withPassword _ _ _ _ _ _ h := by cases h

theorem replay_writerLaws (T : Transcript) : T.replay.WriterLaws where
  serialize_eq _ _ _ h := (Except.ok.inj h).symm
  withSessionKey_eq _ _ _ _ _ _ h := (Prod.mk.inj (Except.ok.inj h)).1.symm
  compressor_eq _ _ _ _ h := (Except.ok.inj h).symm
  literalWriter_eq _ _ _ h := (Except.ok.inj h).symm
  writeAll_eq _ _ _ h := (Except.ok.inj h).symm

theorem finalize_eq_ok {m : Message} {rng rng' : T.replay.Rng} {out : Bytes}
    (h : T.replay.finalize m rng = .ok (out, rng')) : (m, out) ∈ T.finished := by
  obtain ⟨out', ho, h⟩ := bind_eq_ok.mp (show answer (T.finished.lookup m) >>= _ = _ from h)
  cases h
  obtain ⟨l₁, l₂, hl, -⟩ := List.lookup_eq_some_iff.mp (answer_eq_ok.mp ho)
  rw [hl]
  simp

theorem forRecipients_eq_ok {m m' : Message} {recipients : List Recipient} {a : SymmetricAlgorithm}
    {rng rng' : T.replay.Rng} (h : T.replay.forRecipients m recipients a rng = .ok (m', rng')) :
    ∃ s ∈ T.sent, s.recipients = recipients ∧ s.algorithm = a ∧ m' = { m with
      packets := m.packets ++ s.pkesks.map .pkesk
      layers := m.layers ++ [.encrypted .v1 a s.session] } := by
  obtain ⟨s, hs, h⟩ := bind_eq_ok.mp (show answer (T.findSent recipients a) >>= _ = _ from h)
  cases h
  have hfound := List.find?_some (answer_eq_ok.mp hs)
  simp only [decide_eq_true_eq] at hfound
  exact ⟨s, List.mem_of_find?_eq_some (answer_eq_ok.mp hs), hfound.1, hfound.2, rfl⟩

theorem replay_recipientLaws (hT : T.WellFormed) : T.replay.RecipientLaws where
  forRecipients_eq m recipients a rng m' rng' h := by
    obtain ⟨s, hmem, rfl, rfl, rfl⟩ := forRecipients_eq_ok h
    refine ⟨.v1, s.session, s.pkesks, rfl, (hT.sent_opens s hmem).imp ?_⟩
    rintro recipient pkesk hopen pair ⟨hpub, himport⟩ hint -
    have hpair : pair ∈ T.pairs := by
      by_contra hnot
      rw [show T.replay.importSecret pair = .error "not recorded" from if_neg hnot] at himport
      cases himport
    change (T.opened.lookup (pkesk, pair)).map _ = _
    rw [hopen pair hpair hpub]
    rfl
  forRecipients_nil m a rng := by
    change ∃ e, (answer (T.findSent [] a) >>= _) = .error e
    cases hf : T.findSent [] a with
    | none => exact ⟨_, rfl⟩
    | some s =>
      have hfound := List.find?_some hf
      simp only [decide_eq_true_eq] at hfound
      exact absurd hfound.1 (hT.sent_ne_nil s (List.mem_of_find?_eq_some hf))

theorem replay_namingLaws (hT : T.WellFormed) : T.replay.NamingLaws Recipient.TakesVersion3 where
  forRecipients_names m recipients a rng m' rng' pkesks h hversion hpackets := by
    obtain ⟨s, hmem, rfl, -, rfl⟩ := forRecipients_eq_ok h
    have hpkesks : s.pkesks = pkesks :=
      List.map_injective_iff.mpr (fun _ _ he => Packet.pkesk.inj he) (List.append_cancel_left hpackets)
    rw [← hpkesks]
    exact hT.sent_names s hmem hversion

theorem replay_pileLaws (hT : T.WellFormed) : T.replay.PileLaws where
  pile_finalize m version a key rest rng out rng' _ h := by
    have hmem := finalize_eq_ok h
    refine ⟨⟨"not recorded", ?_⟩, [.other], ?_⟩
    · change found (T.certs.lookup out) = _
      rw [hT.finished_noCert _ hmem]
      rfl
    · change found ((T.findMessage out).map _) = _
      rw [hT.finished_found _ hmem]
      rfl

theorem replay_readerLaws (hT : T.WellFormed) : T.replay.ReaderLaws where
  read_finalize m version a key format pre rng out rng' hlayers _ h := by
    have hmem := finalize_eq_ok h
    have hsession : sessionOf m = some (version.announced a, key) := by
      rw [sessionOf, hlayers]
      rfl
    have hlast : m.layers.getLast? = some (.literal format) := by
      rw [hlayers]
      exact List.getLast?_concat
    refine ⟨m, readBack m, ?_, rfl, rfl, rfl, Or.inl rfl, decide_eq_true hsession, ?_⟩
    · change found ((T.findMessage out).map Prod.fst) = _
      rw [hT.finished_found _ hmem]
      rfl
    · intro a' key' haccepts
      have hsession' : sessionOf m = some (a', key') := of_decide_eq_true haccepts
      have hcontents : (readBack m).contents a' key' = ⟨[.literal format, .other], .ok m.written⟩ := by
        simp only [readBack, hlast, hsession', if_true]
      rw [hcontents]
      exact ⟨rfl, rfl⟩

end Laws

section Calls
variable {T}

theorem certFromBytes_eq_ok {data : Bytes} {cert : Cert} :
    T.replay.certFromBytes data = .ok cert ↔ T.certs.lookup data = some cert := found_eq_ok

theorem builderFromBytes_of_mem (hT : T.WellFormed) {m : Message} {out : Bytes}
    (h : (m, out) ∈ T.finished) : T.replay.builderFromBytes out = .ok m := by
  refine found_eq_ok.mpr ?_
  rw [hT.finished_found _ h]
  rfl

theorem finalize_of_lookup {m : Message} {out : Bytes} (h : T.finished.lookup m = some out)
    (rng : Bytes) : T.replay.finalize m rng = .ok (out, rng) :=
  bind_eq_ok.mpr ⟨out, answer_eq_ok.mpr h, rfl⟩

theorem pkeskDecrypt_of_lookup {pkesk : Pkesk} {pair : KeyPair} {a : SymmetricAlgorithm}
    {key : SessionKey} (h : T.opened.lookup (pkesk, pair) = some (a, key))
    (hint : Option SymmetricAlgorithm) : T.replay.pkeskDecrypt pkesk pair hint = some (some a, key) := by
  change (T.opened.lookup (pkesk, pair)).map _ = _
  rw [h]
  rfl

theorem keyid_of_lookup {key : PublicKey} {id : Vector UInt8 8} (h : T.keyids.lookup key = some id) :
    T.replay.keyid key = id := by
  change (T.keyids.lookup key).getD _ = id
  rw [h]
  rfl

end Calls

end Transcript

/-! ## A recorded session

Keys and messages of one session: a certificate with an Ed25519 primary key and an
X25519 encryption subkey, valid for one year, in its public form, its unprotected
secret form, and a secret form whose primary key is protected under a password of its
own; and one text encrypted with CRLF conversion, by password and to the certificate.
-/
namespace Recorded

def primaryPublic : Bytes := hexBytes
  ["046553f10016092b06010401da470f01010740df68619d0f06528f84aca12100eeb6052b2a062bb1f9ddacb5",
   "5b993b3d33cb38"]
def primarySecret : Bytes := hexBytes
  ["000100d626e7348534645926d81b2719b8741f8fe2b1531fd2b08248a1ea539b2c8cdc0f1f"]
def primaryProtected : Bytes := hexBytes
  ["fe070308001122334455667760000102030405060708090a0b0c0d0e0f901f4799aca7dffa5a234776ab6c38",
   "5a285efba790ce75c879a41c8aa43a8e53c621f2f82766b9a9416ad6e560996baf1f45735ea2d5"]
def certification : Bytes := hexBytes
  ["b4016b88990413160a004116210418f8d0d37d10cb6e022e8e5393303c793205218c05026553f100021b0105",
   "0901e13380050b0908070202220206150a09080b020416020301021e07021780000a091093303c793205218c",
   "2ee100fd1bcde6fba49d8172ee00bd02f9c418c227ba85814d5f5a8bfe3fa0217cfa19180100bfa181f512c7",
   "bd7f885ed653c8a4be2c87b6221c9878bded655e91d68921400b"]
def subkeyPublic : Bytes := hexBytes
  ["046553f100120a2b060104019755010501010740d043a8901e1541d4889777ee740bd2d299e4f51086eb66ad",
   "d7aac4a006d9307303010807"]
def subkeySecret : Bytes := hexBytes
  ["0000ff6835352a883311e90fefd04df551d4b6bd37ef35f636497d5b4efc81c0aefd9011c6"]
def subkeyBinding : Bytes := hexBytes
  ["887e0418160a002616210418f8d0d37d10cb6e022e8e5393303c793205218c05026553f100021b0c050901e1",
   "3380000a091093303c793205218c40970100ddb116e4d43809dd24fe0e338ad25c881263f9e06f900e65658a",
   "bb1a7556a2b80100c208082217c7d3fff0218644930f5415d4bc57dc41a237e9caf36c4ac9bf9e00"]
def skeskKey : Bytes := hexBytes
  ["5baa61e4c9b93f3f0682250b6cf8331b"]
def pkeskSession : Bytes := hexBytes
  ["ccba24076d61d20124a6969b72541e9f"]
def pkeskBody : Bytes := hexBytes
  ["010740c2da05b4ce8bf6a7c6b4fe5bcf6ae9a5d449c231e709de1f02e08309ae6f1f2d20f4b1e68d7cca5af8",
   "603607b1302080e9197fe82642c91189663089d3ef3a268b"]
def symContainer : Bytes := hexBytes
  ["d23b01c0ef7a60c36610210cd34a0df68862e7c52411ee166ab706c7d0737edb5418c0985ea1346017810635",
   "6a94d71413882b356b7ac4454786ecb985"]
def pubContainer : Bytes := hexBytes
  ["d23b0101c2a4f808adba26bf41dae4f5f01100fced58193a0303e263d2c1cbfb84c05beeea941ed619fae380",
   "e8464f745f6a9282e8f7d87b2b6ed5d8a0"]

def publicCert : Bytes :=
  [0x98, 0x33] ++ primaryPublic ++ certification ++ [0xb8, 0x38] ++ subkeyPublic ++ subkeyBinding
def secretCert : Bytes := [0x94, 0x58] ++ primaryPublic ++ primarySecret ++ certification ++
  [0x9c, 0x5d] ++ subkeyPublic ++ subkeySecret ++ subkeyBinding
def mixedCert : Bytes := [0x94, 0x86] ++ primaryPublic ++ primaryProtected ++ certification ++
  [0x9c, 0x5d] ++ subkeyPublic ++ subkeySecret ++ subkeyBinding

def created : Time := 1700000000
def expires : Time := 1731536000

def amalgamation (material : Bytes) (secret : Option SecretKeyMaterial) (encryption : Bool) :
    KeyAmalgamation where
  key := ⟨⟨1700000000, material⟩, secret⟩
  supported := true
  bindingAt now := if created ≤ now then some ⟨some expires, encryption⟩ else none
  revokedAt _ := false
  seipdv2At _ := false

def subkey : PublicKey := ⟨1700000000, subkeyPublic⟩
def subkeyId : Vector UInt8 8 := #v[0x5b, 0x1a, 0xb9, 0xf4, 0x9b, 0xa9, 0xce, 0x6a]
def subkeyPair : KeyPair := ⟨subkey, subkeySecret⟩

def cert (primary secret : Option SecretKeyMaterial) : Cert :=
  ⟨[amalgamation primaryPublic primary false, amalgamation subkeyPublic secret true]⟩

def written : Bytes := utf8 "one\r\ntwo\r\n"

def symMessage : Message where
  packets := [.skesk (.v4 ⟨.aes128, .simple .sha1, none⟩)]
  layers := [.encrypted .v1 .aes128 skeskKey, .literal .text]
  written := written
def symOut : Bytes := [0xc3, 0x04, 0x04, 0x07, 0x00, 0x02] ++ symContainer

def pkesk : Pkesk := ⟨some subkeyId.toList, pkeskBody⟩
def pubMessage : Message where
  packets := [.pkesk pkesk]
  layers := [.encrypted .v1 .aes128 pkeskSession, .literal .text]
  written := written
def pubOut : Bytes := [0xc1, 0x4e, 0x03] ++ subkeyId.toList ++ [0x12] ++ pkeskBody ++ pubContainer

def transcript : Transcript where
  derived := [((.simple .sha1, "password"), skeskKey)]
  sent := [⟨[⟨⟨subkey, none⟩, false⟩], .aes128, pkeskSession, [pkesk]⟩]
  finished := [(symMessage, symOut), (pubMessage, pubOut)]
  certs := [(publicCert, cert none none),
    (secretCert, cert (some (.unencrypted primarySecret)) (some (.unencrypted subkeySecret))),
    (mixedCert, cert (some (.encrypted primaryProtected)) (some (.unencrypted subkeySecret)))]
  keyids := [(subkey, subkeyId)]
  pairs := [subkeyPair]
  opened := [((pkesk, subkeyPair), (.aes128, pkeskSession))]

theorem symOut_ne_pubOut : symOut ≠ pubOut := by decide

theorem transcript_wellFormed : transcript.WellFormed where
  finished_found f hf := by
    rcases List.mem_pair.mp hf with rfl | rfl
    · simp [Transcript.findMessage, transcript]
    · simp [Transcript.findMessage, transcript, symOut_ne_pubOut]
  finished_noCert := by decide
  sent_ne_nil := by decide
  sent_opens s hs := by
    rw [List.mem_singleton.mp hs]
    refine List.forall₂_cons.mpr ⟨?_, List.Forall₂.nil⟩
    intro pair hp _
    rw [List.mem_singleton.mp hp]
    exact List.lookup_cons_self
  sent_names s hs _ := by
    rw [List.mem_singleton.mp hs]
    refine List.forall₂_cons.mpr ⟨?_, List.Forall₂.nil⟩
    simp [Transcript.replay, transcript, pkesk]

theorem certFromBytes_publicCert :
    transcript.replay.certFromBytes publicCert = .ok (cert none none) := by
  rw [Transcript.certFromBytes_eq_ok, transcript, List.lookup_cons_self]

theorem certFromBytes_secretCert : transcript.replay.certFromBytes secretCert =
    .ok (cert (some (.unencrypted primarySecret)) (some (.unencrypted subkeySecret))) := by
  have h : (secretCert == publicCert) = false := by decide
  rw [Transcript.certFromBytes_eq_ok, transcript, List.lookup_cons, h, List.lookup_cons_self]

theorem certFromBytes_mixedCert : transcript.replay.certFromBytes mixedCert =
    .ok (cert (some (.encrypted primaryProtected)) (some (.unencrypted subkeySecret))) := by
  have h₁ : (mixedCert == publicCert) = false := by decide
  have h₂ : (mixedCert == secretCert) = false := by decide
  rw [Transcript.certFromBytes_eq_ok, transcript, List.lookup_cons, h₁, List.lookup_cons, h₂,
    List.lookup_cons_self]

theorem builderFromBytes_pubOut : transcript.replay.builderFromBytes pubOut = .ok pubMessage :=
  Transcript.builderFromBytes_of_mem transcript_wellFormed (by simp [transcript])

theorem finalize_pubMessage (rng : Bytes) :
    transcript.replay.finalize pubMessage rng = .ok (pubOut, rng) := by
  have h : (pubMessage == symMessage) = false := by decide
  apply Transcript.finalize_of_lookup
  rw [transcript, List.lookup_cons, h, List.lookup_cons_self]

theorem forRecipients_subkey (rng : Bytes) :
    transcript.replay.forRecipients {} [⟨⟨subkey, none⟩, false⟩] .aes128 rng =
      .ok ({ packets := [.pkesk pkesk], layers := [.encrypted .v1 .aes128 pkeskSession] }, rng) := by
  refine bind_eq_ok.mpr ⟨⟨[⟨⟨subkey, none⟩, false⟩], .aes128, pkeskSession, [pkesk]⟩, ?_, rfl⟩
  rw [Transcript.answer_eq_ok]
  simp [Transcript.findSent, transcript]

theorem pkeskDecrypt_pkesk :
    transcript.replay.pkeskDecrypt pkesk subkeyPair none = some (some .aes128, pkeskSession) := by
  apply Transcript.pkeskDecrypt_of_lookup
  rw [transcript, List.lookup_cons_self]

theorem secretPartOf_subkeyPair : transcript.replay.secretPartOf subkeyPair subkey :=
  ⟨rfl, by simp [Transcript.replay, transcript, subkeyPair]⟩

theorem keyid_subkey : transcript.replay.keyid subkey = subkeyId := by
  apply Transcript.keyid_of_lookup
  rw [transcript, List.lookup_cons_self]

end Recorded

end PgCrypto.Pgp
