import PgCrypto.Modern.Envelope

/-! # The framing of envelopes is exact

Past the length checks every slice is in range, and what the library gets is the whole
envelope cut at the fixed offsets. Opening is therefore the primitive on the cut
envelope, an envelope is determined by its parts, and what was joined is cut at the
same places.
-/
namespace PgCrypto.Modern
open Cipher
variable {D : Dryoc}

section Arrays
variable {N : ℕ}

theorem exactArray_bytes (b : Block N) (what : String) : exactArray N b.bytes what = .ok b := by
  rw [exactArray, dif_pos b.length_eq]

theorem exactArray_fixed {bytes data : Bytes} (hbytes : bytes = data.take N) (h : N ≤ data.length)
    (what : String) : exactArray N bytes what = .ok (Block.fixed N data) := by
  have hfixed : (Block.fixed N data).bytes = bytes := by rw [Block.fixed_bytes_of_le h, hbytes]
  have hexact := exactArray_bytes (Block.fixed N data) what
  rwa [hfixed] at hexact

theorem noPanic_exactArray (N : ℕ) (bytes : Bytes) (what : String) :
    NoPanic (exactArray N bytes what) := by
  unfold exactArray
  split
  · exact noPanic_ok _
  · exact noPanic_raise _

theorem noPanic_slice {data : Bytes} {start stop : ℕ} (h : start ≤ stop) (hs : stop ≤ data.length) :
    NoPanic (slice data start stop) := by
  rw [slice_eq h hs]
  exact noPanic_ok _

end Arrays

section Cutting

/-- The parts of a secret box envelope: nonce, MAC and ciphertext. -/
def secretboxParts (e : Bytes) : Block 24 × Block 16 × Bytes :=
  (Block.fixed 24 e, Block.fixed 16 (e.drop 24), e.drop 40)

/-- The parts of a sealed box: ephemeral public key, MAC and ciphertext. -/
def sealedParts (e : Bytes) : Block 32 × Block 16 × Bytes :=
  (Block.fixed 32 e, Block.fixed 16 (e.drop 32), e.drop 48)

/-- Two fixed parts and the rest make up the data. -/
theorem fixed_append_fixed_append_drop {m n : ℕ} {e : Bytes} (h : m + n ≤ e.length) :
    (Block.fixed m e).bytes ++ (Block.fixed n (e.drop m)).bytes ++ e.drop (m + n) = e := by
  have hm : m ≤ e.length := by omega
  have hn : n ≤ (e.drop m).length := by
    rw [List.length_drop]
    omega
  rw [Block.fixed_bytes_of_le hm, Block.fixed_bytes_of_le hn, ← List.take_add, List.take_append_drop]

theorem fixed_parts {m n : ℕ} (x : Block m) (y : Block n) (rest : Bytes) :
    Block.fixed m (x.bytes ++ (y.bytes ++ rest)) = x ∧
      Block.fixed n ((x.bytes ++ (y.bytes ++ rest)).drop m) = y ∧
      (x.bytes ++ (y.bytes ++ rest)).drop (m + n) = rest := by
  have hx := x.length_eq
  have hy := y.length_eq
  have hdrop : (x.bytes ++ (y.bytes ++ rest)).drop m = y.bytes ++ rest := List.drop_left' hx
  refine ⟨Block.fixed_append x _, ?_, ?_⟩
  · rw [hdrop, Block.fixed_append]
  · rw [← List.drop_drop, hdrop, List.drop_left' hy]

theorem secretboxParts_injective {e e' : Bytes} (h : 40 ≤ e.length) (h' : 40 ≤ e'.length)
    (heq : secretboxParts e = secretboxParts e') : e = e' := by
  simp only [secretboxParts, Prod.mk.injEq] at heq
  obtain ⟨hnonce, hmac, hrest⟩ := heq
  have hjoin := fixed_append_fixed_append_drop (m := 24) (n := 16) h
  have hjoin' := fixed_append_fixed_append_drop (m := 24) (n := 16) h'
  rw [← hjoin, ← hjoin', hnonce, hmac, hrest]

theorem sealedParts_injective {e e' : Bytes} (h : 48 ≤ e.length) (h' : 48 ≤ e'.length)
    (heq : sealedParts e = sealedParts e') : e = e' := by
  simp only [sealedParts, Prod.mk.injEq] at heq
  obtain ⟨hkey, hmac, hrest⟩ := heq
  have hjoin := fixed_append_fixed_append_drop (m := 32) (n := 16) h
  have hjoin' := fixed_append_fixed_append_drop (m := 32) (n := 16) h'
  rw [← hjoin, ← hjoin', hkey, hmac, hrest]

end Cutting

section SecretBox

/-- Opening a long enough envelope is the primitive on its parts. -/
theorem secretboxOpen_eq (hD : D.Laws) {e : Bytes} (h : 40 ≤ e.length) (key : Block 32) :
    secretboxOpen D e key.bytes = orRaise "secretbox authentication failed"
      (D.decryptToVec ⟨(secretboxParts e).2.1, (secretboxParts e).2.2⟩ (secretboxParts e).1 key) := by
  have hshort : ¬ e.length < secretboxNonceBytes + secretboxMacBytes := by
    simp only [secretboxNonceBytes, secretboxMacBytes]
    omega
  have hto : sliceTo e secretboxNonceBytes = .ok (e.take 24) :=
    sliceTo_eq (by simp only [secretboxNonceBytes]; omega)
  have hfrom : sliceFrom e secretboxNonceBytes = .ok (e.drop 24) :=
    sliceFrom_eq (by simp only [secretboxNonceBytes]; omega)
  have hbox := hD.secretBoxFromBytes_eq (e.drop 24) (by rw [List.length_drop]; omega)
  rw [List.drop_drop] at hbox
  rw [secretboxOpen, if_neg hshort, exactArray_bytes, ok_bind, hto, ok_bind,
    exactArray_fixed rfl (by omega), ok_bind, hfrom, ok_bind, hbox, orRaise_ok, ok_bind]
  rfl

theorem secretboxOpen_eq_ok_iff (hD : D.Laws) (e d : Bytes) (key : Block 32) :
    secretboxOpen D e key.bytes = .ok d ↔ 40 ≤ e.length ∧
      D.decryptToVec ⟨(secretboxParts e).2.1, (secretboxParts e).2.2⟩ (secretboxParts e).1 key = .ok d := by
  by_cases h : 40 ≤ e.length
  · rw [secretboxOpen_eq hD h, orRaise_eq_ok]
    simp [h]
  · have hshort : e.length < secretboxNonceBytes + secretboxMacBytes := by
      simp only [secretboxNonceBytes, secretboxMacBytes]
      omega
    rw [secretboxOpen, if_pos hshort]
    simp [h]

theorem secretboxOpen_secretbox (hD : D.Laws) (data : Bytes) (key : Block 32) (rng : D.Rng) :
    ∃ out rng', secretbox D data key.bytes rng = .ok (out, rng') ∧
      secretboxOpen D out key.bytes = .ok data := by
  generalize hnonce : (D.generateNonce rng).1 = nonce
  generalize hbox : D.encryptToVecbox data nonce key = box
  have hopen := hD.decrypt_encrypt data nonce key
  rw [hbox] at hopen
  have hseal : secretbox D data key.bytes rng =
      .ok (nonce.bytes ++ (box.mac.bytes ++ box.data), (D.generateNonce rng).2) := by
    rw [secretbox, exactArray_bytes, ok_bind]
    dsimp only
    rw [hnonce, hbox, hD.secretBoxToVec_eq]
  obtain ⟨hfirst, hsecond, hrest⟩ := fixed_parts nonce box.mac box.data
  refine ⟨_, _, hseal, (secretboxOpen_eq_ok_iff hD _ _ key).mpr ⟨?_, ?_⟩⟩
  · have hn := nonce.length_eq
    have hm := box.mac.length_eq
    simp only [List.length_append]
    omega
  · rw [secretboxParts, hfirst, hsecond, hrest]
    exact hopen

theorem secretboxOpen_noPanic (data key : Bytes) : NoPanic (secretboxOpen D data key) := by
  unfold secretboxOpen
  split
  · exact noPanic_raise _
  · next h =>
    simp only [secretboxNonceBytes, secretboxMacBytes] at h
    have hto : NoPanic (sliceTo data secretboxNonceBytes) :=
      noPanic_slice (by omega) (by simp only [secretboxNonceBytes]; omega)
    have hfrom : NoPanic (sliceFrom data secretboxNonceBytes) :=
      noPanic_slice (by simp only [secretboxNonceBytes]; omega) (by omega)
    refine (noPanic_exactArray _ _ _).bind ?_
    intro key _
    refine hto.bind ?_
    intro nonceBytes _
    refine (noPanic_exactArray _ _ _).bind ?_
    intro nonce _
    refine hfrom.bind ?_
    intro boxBytes _
    refine (noPanic_orRaise _ _).bind ?_
    intro box _
    exact noPanic_orRaise _ _

theorem secretbox_noPanic (data key : Bytes) (rng : D.Rng) : NoPanic (secretbox D data key rng) := by
  refine (noPanic_exactArray _ _ _).bind ?_
  intro key _
  exact noPanic_ok _

end SecretBox

section SealedBox

theorem boxSealOpen_eq {e : Bytes} (h : 48 ≤ e.length) (pair : BoxKeyPair) :
    boxSealOpen D e pair.publicKey.bytes pair.secretKey.bytes =
      orRaise "sealed-box authentication failed"
        (D.unsealToVec ⟨(sealedParts e).1, (sealedParts e).2.1, (sealedParts e).2.2⟩ pair) := by
  have hshort : ¬ e.length < boxSealBytes := by
    simp only [boxSealBytes]
    omega
  have hto : sliceTo e boxPublicKeyBytes = .ok (e.take 32) :=
    sliceTo_eq (by simp only [boxPublicKeyBytes]; omega)
  have hmid : slice e boxPublicKeyBytes boxSealBytes = .ok ((e.take 48).drop 32) :=
    slice_eq (by decide) (by simp only [boxSealBytes]; omega)
  have hfrom : sliceFrom e boxSealBytes = .ok (e.drop 48) :=
    sliceFrom_eq (by simp only [boxSealBytes]; omega)
  have hmac : (e.take 48).drop 32 = (e.drop 32).take 16 := by rw [List.drop_take]
  rw [boxSealOpen, if_neg hshort, exactArray_bytes, ok_bind, exactArray_bytes, ok_bind]
  dsimp only
  rw [hto, ok_bind, exactArray_fixed rfl (by omega), ok_bind, hmid, ok_bind,
    exactArray_fixed hmac (by rw [List.length_drop]; omega), ok_bind, hfrom, ok_bind]
  rfl

theorem boxSealOpen_eq_ok_iff (e d : Bytes) (pair : BoxKeyPair) :
    boxSealOpen D e pair.publicKey.bytes pair.secretKey.bytes = .ok d ↔ 48 ≤ e.length ∧
      D.unsealToVec ⟨(sealedParts e).1, (sealedParts e).2.1, (sealedParts e).2.2⟩ pair = .ok d := by
  by_cases h : 48 ≤ e.length
  · rw [boxSealOpen_eq h, orRaise_eq_ok]
    simp [h]
  · have hshort : e.length < boxSealBytes := by
      simp only [boxSealBytes]
      omega
    rw [boxSealOpen, if_pos hshort]
    simp [h]

theorem boxSealOpen_boxSeal (hD : D.Laws) {pair : BoxKeyPair} (hpair : D.keyPair pair) (data : Bytes)
    (rng : D.Rng) :
    ∃ out rng', boxSeal D data pair.publicKey.bytes rng = .ok (out, rng') ∧
      boxSealOpen D out pair.publicKey.bytes pair.secretKey.bytes = .ok data := by
  obtain ⟨box, rng', hseal, hopen⟩ := hD.unseal_seal pair data rng hpair
  have hout : boxSeal D data pair.publicKey.bytes rng =
      .ok (box.ephemeralPublicKey.bytes ++ (box.mac.bytes ++ box.data), rng') := by
    rw [boxSeal, exactArray_bytes, ok_bind, hseal, orRaise_ok, ok_bind]
    dsimp only
    rw [hD.sealedBoxToBytes_eq, List.append_assoc]
  obtain ⟨hfirst, hsecond, hrest⟩ := fixed_parts box.ephemeralPublicKey box.mac box.data
  refine ⟨_, _, hout, (boxSealOpen_eq_ok_iff _ _ pair).mpr ⟨?_, ?_⟩⟩
  · have hk := box.ephemeralPublicKey.length_eq
    have hm := box.mac.length_eq
    simp only [List.length_append]
    omega
  · rw [sealedParts, hfirst, hsecond, hrest]
    exact hopen

theorem boxSealOpen_noPanic (data publicKey secretKey : Bytes) :
    NoPanic (boxSealOpen D data publicKey secretKey) := by
  unfold boxSealOpen
  split
  · exact noPanic_raise _
  · next h =>
    simp only [boxSealBytes] at h
    have hto : NoPanic (sliceTo data boxPublicKeyBytes) :=
      noPanic_slice (by omega) (by simp only [boxPublicKeyBytes]; omega)
    have hmid : NoPanic (slice data boxPublicKeyBytes boxSealBytes) :=
      noPanic_slice (by decide) (by simp only [boxSealBytes]; omega)
    have hfrom : NoPanic (sliceFrom data boxSealBytes) :=
      noPanic_slice (by simp only [boxSealBytes]; omega) (by omega)
    refine (noPanic_exactArray _ _ _).bind ?_
    intro publicKey _
    refine (noPanic_exactArray _ _ _).bind ?_
    intro secretKey _
    refine hto.bind ?_
    intro ephemeralBytes _
    refine (noPanic_exactArray _ _ _).bind ?_
    intro ephemeralPublicKey _
    refine hmid.bind ?_
    intro macBytes _
    refine (noPanic_exactArray _ _ _).bind ?_
    intro mac _
    refine hfrom.bind ?_
    intro ciphertext _
    exact noPanic_orRaise _ _

theorem boxSeal_noPanic (data publicKey : Bytes) (rng : D.Rng) :
    NoPanic (boxSeal D data publicKey rng) := by
  refine (noPanic_exactArray _ _ _).bind ?_
  intro publicKey _
  refine (noPanic_orRaise _ _).bind ?_
  intro box _
  exact noPanic_ok _

end SealedBox

section Signature

/-- Verification puts signature and message together and takes them apart again. -/
theorem ed25519Verify_eq (hD : D.Laws) (data : Bytes) (signature : Block 64) (publicKey : Block 32) :
    ed25519Verify D data signature.bytes publicKey.bytes =
      .ok (match D.verify ⟨signature, data⟩ publicKey with
        | .ok _ => true
        | .error _ => false) := by
  have hs := signature.length_eq
  have hsigned := hD.signedMessageFromBytes_eq (signature.bytes ++ data) (by rw [List.length_append]; omega)
  have hdrop : (signature.bytes ++ data).drop 64 = data := List.drop_left' hs
  rw [Block.fixed_append, hdrop] at hsigned
  have hverify : (D.signedMessageFromBytes (signature.bytes ++ data) >>= fun message =>
      D.verify message publicKey) = D.verify ⟨signature, data⟩ publicKey := by rw [hsigned, ok_bind]
  rw [ed25519Verify, exactArray_bytes, ok_bind, exactArray_bytes, ok_bind]
  exact congrArg (fun result => Except.ok (match result with
    | .ok _ => true
    | .error _ => false)) hverify

theorem ed25519Verify_eq_true_iff (hD : D.Laws) (data : Bytes) (signature : Block 64)
    (publicKey : Block 32) :
    ed25519Verify D data signature.bytes publicKey.bytes = .ok true ↔
      D.verify ⟨signature, data⟩ publicKey = .ok () := by
  rw [ed25519Verify_eq hD]
  cases D.verify ⟨signature, data⟩ publicKey with
  | error e => simp
  | ok u => simp

/-- The detached signature is the signature of the signed message. -/
theorem ed25519Sign_eq_ok (hD : D.Laws) {data : Bytes} {secretKey : Block 64} {signed : SignedMessage}
    (h : D.signWithDefaults ⟨D.secretKeyToPublicKey secretKey, secretKey⟩ data = .ok signed) :
    ed25519Sign D data secretKey.bytes = .ok signed.signature.bytes := by
  have hs := signed.signature.length_eq
  have hvec := hD.signedMessageToVec_eq signed
  have hslice : sliceTo (D.signedMessageToVec signed) signBytes = .ok signed.signature.bytes := by
    rw [hvec, sliceTo_eq (by rw [List.length_append, hs]; simp only [signBytes]; omega), signBytes,
      List.take_left' hs]
  rw [ed25519Sign, exactArray_bytes, ok_bind]
  dsimp only
  rw [h, orRaise_ok, ok_bind, hslice]

theorem ed25519Verify_ed25519Sign (hD : D.Laws) {secretKey : Block 64} (hkey : D.signingKey secretKey)
    (data : Bytes) :
    ∃ signature, ed25519Sign D data secretKey.bytes = .ok signature ∧
      ed25519Verify D data signature (D.secretKeyToPublicKey secretKey).bytes = .ok true := by
  obtain ⟨signature, hsign, hverify⟩ := hD.verify_sign secretKey data hkey
  exact ⟨signature.bytes, ed25519Sign_eq_ok hD hsign,
    (ed25519Verify_eq_true_iff hD data signature _).mpr hverify⟩

theorem ed25519Sign_noPanic (hD : D.Laws) (data secretKey : Bytes) :
    NoPanic (ed25519Sign D data secretKey) := by
  refine (noPanic_exactArray _ _ _).bind ?_
  intro key _
  refine (noPanic_orRaise _ _).bind ?_
  intro signed _
  have hs := signed.signature.length_eq
  refine noPanic_slice (by omega) ?_
  rw [hD.signedMessageToVec_eq, List.length_append, hs]
  simp only [signBytes]
  omega

theorem ed25519Verify_noPanic (data signature publicKey : Bytes) :
    NoPanic (ed25519Verify D data signature publicKey) := by
  refine (noPanic_exactArray _ _ _).bind ?_
  intro signature _
  refine (noPanic_exactArray _ _ _).bind ?_
  intro publicKey _
  exact noPanic_ok _

end Signature

/-- Envelopes round-trip, opening is exactly the primitive on the parts of a long enough
envelope, the parts determine the envelope, and no call goes out of range. -/
structure ExactFraming (D : Dryoc) : Prop where
  secretbox_roundTrip : ∀ (key : Block 32) data rng, ∃ out rng',
    secretbox D data key.bytes rng = .ok (out, rng') ∧ secretboxOpen D out key.bytes = .ok data
  boxSeal_roundTrip : ∀ pair, D.keyPair pair → ∀ data rng, ∃ out rng',
    boxSeal D data pair.publicKey.bytes rng = .ok (out, rng') ∧
      boxSealOpen D out pair.publicKey.bytes pair.secretKey.bytes = .ok data
  ed25519_roundTrip : ∀ secretKey, D.signingKey secretKey → ∀ data, ∃ signature,
    ed25519Sign D data secretKey.bytes = .ok signature ∧
      ed25519Verify D data signature (D.secretKeyToPublicKey secretKey).bytes = .ok true
  secretboxOpen_iff : ∀ e (key : Block 32) d, secretboxOpen D e key.bytes = .ok d ↔ 40 ≤ e.length ∧
    D.decryptToVec ⟨(secretboxParts e).2.1, (secretboxParts e).2.2⟩ (secretboxParts e).1 key = .ok d
  boxSealOpen_iff : ∀ e pair d,
    boxSealOpen D e pair.publicKey.bytes pair.secretKey.bytes = .ok d ↔ 48 ≤ e.length ∧
      D.unsealToVec ⟨(sealedParts e).1, (sealedParts e).2.1, (sealedParts e).2.2⟩ pair = .ok d
  ed25519Verify_iff : ∀ d (signature : Block 64) (publicKey : Block 32),
    ed25519Verify D d signature.bytes publicKey.bytes = .ok true ↔
      D.verify ⟨signature, d⟩ publicKey = .ok ()
  secretboxParts_injective : ∀ e e', 40 ≤ e.length → 40 ≤ e'.length →
    secretboxParts e = secretboxParts e' → e = e'
  sealedParts_injective : ∀ e e', 48 ≤ e.length → 48 ≤ e'.length →
    sealedParts e = sealedParts e' → e = e'
  noPanic : (∀ data key rng, NoPanic (secretbox D data key rng)) ∧
    (∀ data key, NoPanic (secretboxOpen D data key)) ∧
    (∀ data publicKey rng, NoPanic (boxSeal D data publicKey rng)) ∧
    (∀ data publicKey secretKey, NoPanic (boxSealOpen D data publicKey secretKey)) ∧
    (∀ data secretKey, NoPanic (ed25519Sign D data secretKey)) ∧
    (∀ data signature publicKey, NoPanic (ed25519Verify D data signature publicKey))

theorem exactFraming (D : Dryoc) (hD : D.Laws) : ExactFraming D := by
  constructor
  · intro key data rng
    exact secretboxOpen_secretbox hD data key rng
  · intro pair hpair data rng
    exact boxSealOpen_boxSeal hD hpair data rng
  · intro secretKey hkey data
    exact ed25519Verify_ed25519Sign hD hkey data
  · intro e key d
    exact secretboxOpen_eq_ok_iff hD e d key
  · intro e pair d
    exact boxSealOpen_eq_ok_iff e d pair
  · intro d signature publicKey
    exact ed25519Verify_eq_true_iff hD d signature publicKey
  · intro e e' h h' heq
    exact secretboxParts_injective h h' heq
  · intro e e' h h' heq
    exact sealedParts_injective h h' heq
  · exact ⟨secretbox_noPanic, secretboxOpen_noPanic, boxSeal_noPanic, boxSealOpen_noPanic,
      ed25519Sign_noPanic hD, ed25519Verify_noPanic⟩

/-! ## Recorded answers

One secret box, one sealed box and one signature, under the keys of the smoke test. The
library built from them gives these answers; on other data it only labels the data.
-/
namespace Recorded

def key : Block 32 := Block.fixed 32 (List.replicate 32 0x11)
def nonce : Block 24 := Block.fixed 24 (hexBytes ["000102030405060708090a0b0c0d0e0f1011121314151617"])
def hello : Bytes := hexBytes ["68656c6c6f"]
def box : SecretBox :=
  ⟨Block.fixed 16 (hexBytes ["6421b1f04f4206921186dcd44c561b05"]), hexBytes ["028d0a327d"]⟩

def boxPair : BoxKeyPair where
  publicKey := Block.fixed 32 (hexBytes
    ["8520f0098930a754748b7ddcb43ef75a0dbf3a0d26381af4eba4a98eaa9b4e6a"])
  secretKey := Block.fixed 32 (hexBytes
    ["77076d0a7318a57d3c16c17251b26645df4c2f87ebc0992ab177fba51db92c2a"])
def sealedHello : Bytes := hexBytes ["7365616c65642068656c6c6f"]
def sealedBox : SealedBox where
  ephemeralPublicKey := Block.fixed 32 (hexBytes
    ["8f40c5adb68f25624ae5b214ea767a6ec94d829d3d7b5e1ad1ba6f3e2138285f"])
  mac := Block.fixed 16 (hexBytes ["90fc7e8785f2d4ecc08a6783e3fb606c"])
  data := hexBytes ["91a003c56dfb9e1ada3203b0"]

def signingKey : Block 64 := Block.fixed 64 (hexBytes
  ["9d61b19deffd5a60ba844af492ec2cc44449c5697b326919703bac031cae7f60",
   "d75a980182b10ab7d54bfed3c964073a0ee172f3daa62325af021a68f707511a"])
def signature : Block 64 := Block.fixed 64 (hexBytes
  ["e5564300c360ac729086e2cc806e828a84877f1eb8e5d974d873e06522490155",
   "5fb8821590a33bacc61e39701cf9b46bd25bf5f0595bbe24655141438e7a100b"])

def publicKeyOf (secretKey : Block 64) : Block 32 := Block.fixed 32 (secretKey.bytes.drop 32)

def signatureOf (data : Bytes) (publicKey : Block 32) : Block 64 :=
  if data = [] ∧ publicKey = publicKeyOf signingKey then signature else 0

def dryoc : Dryoc where
  Rng := Unit
  generateNonce rng := (nonce, rng)
  encryptToVecbox data n k := if data = hello ∧ n = nonce ∧ k = key then box else ⟨0, data⟩
  secretBoxToVec b := b.mac.bytes ++ b.data
  secretBoxFromBytes bytes :=
    if 16 ≤ bytes.length then .ok ⟨Block.fixed 16 bytes, bytes.drop 16⟩ else .error "too short"
  decryptToVec b n k :=
    if b = box ∧ n = nonce ∧ k = key then .ok hello
    else if b.mac = 0 then .ok b.data else .error "authentication failed"
  sealToVecbox data publicKey rng :=
    .ok (if data = sealedHello ∧ publicKey = boxPair.publicKey then sealedBox else ⟨0, 0, data⟩, rng)
  sealedBoxToBytes b := b.ephemeralPublicKey.bytes ++ b.mac.bytes ++ b.data
  unsealToVec b pair :=
    if b = sealedBox ∧ pair = boxPair then .ok sealedHello
    else if b.mac = 0 then .ok b.data else .error "authentication failed"
  secretKeyToPublicKey := publicKeyOf
  signWithDefaults pair data := .ok ⟨signatureOf data pair.publicKey, data⟩
  signedMessageToVec signed := signed.signature.bytes ++ signed.message
  signedMessageFromBytes bytes :=
    if 64 ≤ bytes.length then .ok ⟨Block.fixed 64 bytes, bytes.drop 64⟩ else .error "too short"
  verify signed publicKey :=
    if signed.signature = signatureOf signed.message publicKey then .ok () else .error "invalid signature"
  keyPairFromSecretKey secretKey := if secretKey = boxPair.secretKey then boxPair else ⟨0, secretKey⟩
  signingKeyPairFromSeed seed :=
    if seed = Block.fixed 32 signingKey.bytes then ⟨publicKeyOf signingKey, signingKey⟩
    else ⟨0, Block.fixed 64 seed.bytes⟩

theorem decrypt_encrypt (data : Bytes) (n : Block 24) (k : Block 32) :
    dryoc.decryptToVec (dryoc.encryptToVecbox data n k) n k = .ok data := by
  have hmac : box.mac ≠ 0 := by decide
  by_cases h : data = hello ∧ n = nonce ∧ k = key
  · obtain ⟨rfl, rfl, rfl⟩ := h
    simp [dryoc]
  · have hbox : (⟨0, data⟩ : SecretBox) ≠ box := by
      intro he
      exact hmac (congrArg SecretBox.mac he).symm
    simp [dryoc, h, hbox]

theorem boxPair_of_publicKey {pair : BoxKeyPair} (hpair : dryoc.keyPair pair)
    (h : pair.publicKey = boxPair.publicKey) : pair = boxPair := by
  obtain ⟨secretKey, rfl⟩ := hpair
  by_cases hsecret : secretKey = boxPair.secretKey
  · exact if_pos hsecret
  · have hzero : (0 : Block 32) ≠ boxPair.publicKey := by decide
    exact absurd h (by simpa [dryoc, hsecret] using hzero)

theorem unseal_seal (data : Bytes) {pair : BoxKeyPair} (hpair : dryoc.keyPair pair) :
    ∃ b rng', dryoc.sealToVecbox data pair.publicKey () = .ok (b, rng') ∧
      dryoc.unsealToVec b pair = .ok data := by
  have hmac : sealedBox.mac ≠ 0 := by decide
  refine ⟨_, (), rfl, ?_⟩
  by_cases h : data = sealedHello ∧ pair.publicKey = boxPair.publicKey
  · obtain ⟨rfl, hpublic⟩ := h
    rw [boxPair_of_publicKey hpair hpublic]
    simp [dryoc]
  · have hbox : (⟨0, 0, data⟩ : SealedBox) ≠ sealedBox := by
      intro he
      exact hmac (congrArg SealedBox.mac he).symm
    simp [dryoc, h, hbox]

theorem dryoc_laws : dryoc.Laws where
  secretBoxToVec_eq _ := rfl
  secretBoxFromBytes_eq _ h := if_pos h
  decrypt_encrypt := decrypt_encrypt
  sealedBoxToBytes_eq _ := rfl
  unseal_seal _ data _ hpair := unseal_seal data hpair
  signedMessageToVec_eq _ := rfl
  signedMessageFromBytes_eq _ h := if_pos h
  verify_sign _ _ _ := ⟨_, rfl, if_pos rfl⟩

theorem keyPair_boxPair : dryoc.keyPair boxPair := ⟨boxPair.secretKey, by simp [dryoc]⟩

end Recorded

theorem exactFraming_recorded :
    secretboxOpen Recorded.dryoc (hexBytes ["000102030405060708090a0b0c0d0e0f1011121314151617",
        "6421b1f04f4206921186dcd44c561b05", "028d0a327d"]) Recorded.key.bytes = .ok Recorded.hello ∧
      (∃ out, boxSeal Recorded.dryoc Recorded.sealedHello Recorded.boxPair.publicKey.bytes () = .ok (out, ()) ∧
        boxSealOpen Recorded.dryoc out Recorded.boxPair.publicKey.bytes Recorded.boxPair.secretKey.bytes =
          .ok Recorded.sealedHello) ∧
      ed25519Verify Recorded.dryoc [] Recorded.signature.bytes
        (Recorded.publicKeyOf Recorded.signingKey).bytes = .ok true := by
  have h := exactFraming Recorded.dryoc Recorded.dryoc_laws
  refine ⟨?_, ?_, ?_⟩
  · exact (h.secretboxOpen_iff _ _ _).mpr ⟨by decide, by rfl⟩
  · obtain ⟨out, rng', hseal, hopen⟩ :=
      h.boxSeal_roundTrip Recorded.boxPair Recorded.keyPair_boxPair Recorded.sealedHello ()
    exact ⟨out, hseal, hopen⟩
  · exact (h.ed25519Verify_iff _ _ _).mpr (by simp [Recorded.dryoc, Recorded.signatureOf])

end PgCrypto.Modern
