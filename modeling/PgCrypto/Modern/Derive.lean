import PgCrypto.Hash.Hmac
import PgCrypto.Modern.Framing
import PgCrypto.Random.Bytes

/-! # Key agreement and key derivation

The derivation functions check the length once for both hashes and leave the bound of the
smaller one to the library. Between the two bounds they are the expansion of an HMAC, so
they can be computed with calls of `hmac`, and a shorter output is the beginning of a
longer one.
-/
namespace PgCrypto.Modern
open Cipher Hash

/-- The derivation library: extraction on construction, and an expansion that fills the
buffer it is given. -/
structure Hkdf where
  State : Type
  new : Digest → Option Bytes → Bytes → State
  expand : State → Bytes → Bytes → Except String Bytes

def x25519 (scalarmult : Block 32 → Block 32 → Except String (Block 32)) (secretKey publicKey : Bytes) :
    Outcome Bytes := do
  let secret ← exactArray 32 secretKey "X25519 secret key"
  let point ← exactArray 32 publicKey "X25519 public key"
  let shared ← orRaise "X25519 key agreement failed" (scalarmult secret point)
  .ok shared.bytes

def validateHkdfLength (length : Int32) : Outcome Bytes :=
  if ¬ (1 ≤ length ∧ length ≤ 16320) then
    raise "HKDF output length must be between 1 and 16320 bytes"
  else do
    let size ← Random.expectUsize length "positive HKDF length"
    .ok (List.replicate size 0)

/-- The two functions differ in the hash and in the name their message begins with. -/
def hkdf (K : Hkdf) (digest : Digest) (name : String) (keyMaterial salt info : Bytes) (length : Int32) :
    Outcome Bytes := do
  let output ← validateHkdfLength length
  match K.expand (K.new digest (some salt) keyMaterial) info output with
  | .ok output => .ok output
  | .error _ => raise (name ++ " output length is too large")

def hkdfSha256 (K : Hkdf) (keyMaterial salt info : Bytes) (length : Int32) : Outcome Bytes :=
  hkdf K .sha256 "HKDF-SHA256" keyMaterial salt info length

def hkdfSha512 (K : Hkdf) (keyMaterial salt info : Bytes) (length : Int32) : Outcome Bytes :=
  hkdf K .sha512 "HKDF-SHA512" keyMaterial salt info length

/-- Extraction keys the HMAC with the salt; expansion keys it with the extracted key and
has one counter byte, so it refuses more than 255 blocks. -/
structure Hkdf.Laws (K : Hkdf) (H : Hashes) : Prop where
  expand_eq : ∀ (digest : Digest) salt keyMaterial info output, output.length ≤ 255 * digest.outputSize →
    K.expand (K.new digest (some salt) keyMaterial) info output =
      .ok (Mac.expand (Mac.hmac (H.digest digest) digest.blockSize
        (Mac.hmac (H.digest digest) digest.blockSize salt keyMaterial)) info digest.outputSize output.length)
  expand_long : ∀ (digest : Digest) salt keyMaterial info output, 255 * digest.outputSize < output.length →
    ∃ e, K.expand (K.new digest (some salt) keyMaterial) info output = .error e

section Lengths

theorem validateHkdfLength_eq {length : Int32} (h : 1 ≤ length) (h' : length ≤ 16320) :
    validateHkdfLength length = .ok (List.replicate length.toInt.toNat 0) := by
  rw [validateHkdfLength, if_neg (not_not.mpr ⟨h, h'⟩), Random.expectUsize_of_pos h, ok_bind]

theorem toNat_le_of_le {length bound : Int32} (h : length ≤ bound) :
    length.toInt.toNat ≤ bound.toInt.toNat := Int.toNat_le_toNat (Int32.le_iff_toInt_le.mp h)

theorem lt_toNat_of_lt {length bound : Int32} (hpos : 0 ≤ bound) (h : bound < length) :
    bound.toInt.toNat < length.toInt.toNat := by
  have hbound := Int32.le_iff_toInt_le.mp hpos
  have hlt := Int32.lt_iff_toInt_lt.mp h
  rw [Int32.toInt_zero] at hbound
  omega

end Lengths

section Codes
variable {H : Hashes}

theorem outputSize_pos (digest : Digest) : 0 < digest.outputSize := by
  cases digest <;> decide

theorem length_hmac (hH : H.Laws) (digest : Digest) (key data : Bytes) :
    (Mac.hmac (H.digest digest) digest.blockSize key data).length = digest.outputSize :=
  hH.length_digest digest _

end Codes

section Outcomes
variable {K : Hkdf} {H : Hashes} {digest : Digest} {name : String} {length : Int32}

theorem hkdf_of_le (hK : K.Laws H) (hpos : 1 ≤ length) (hlength : length ≤ 16320)
    (hfits : length.toInt.toNat ≤ 255 * digest.outputSize) (keyMaterial salt info : Bytes) :
    hkdf K digest name keyMaterial salt info length =
      .ok (Mac.expand (Mac.hmac (H.digest digest) digest.blockSize
        (Mac.hmac (H.digest digest) digest.blockSize salt keyMaterial)) info digest.outputSize
          length.toInt.toNat) := by
  have hexpand := hK.expand_eq digest salt keyMaterial info (List.replicate length.toInt.toNat 0)
    (by rwa [List.length_replicate])
  rw [List.length_replicate] at hexpand
  rw [hkdf, validateHkdfLength_eq hpos hlength, ok_bind, hexpand]

theorem hkdf_of_lt (hK : K.Laws H) (hpos : 1 ≤ length) (hlength : length ≤ 16320)
    (hlong : 255 * digest.outputSize < length.toInt.toNat) (keyMaterial salt info : Bytes) :
    hkdf K digest name keyMaterial salt info length = raise (name ++ " output length is too large") := by
  obtain ⟨e, he⟩ := hK.expand_long digest salt keyMaterial info (List.replicate length.toInt.toNat 0)
    (by rwa [List.length_replicate])
  rw [hkdf, validateHkdfLength_eq hpos hlength, ok_bind, he]

theorem hkdf_of_not (h : ¬ (1 ≤ length ∧ length ≤ 16320)) (keyMaterial salt info : Bytes) :
    hkdf K digest name keyMaterial salt info length =
      raise "HKDF output length must be between 1 and 16320 bytes" := by
  rw [hkdf, validateHkdfLength, if_pos h]
  rfl

theorem hkdf_noPanic (keyMaterial salt info : Bytes) :
    NoPanic (hkdf K digest name keyMaterial salt info length) := by
  by_cases h : 1 ≤ length ∧ length ≤ 16320
  · rw [hkdf, validateHkdfLength_eq h.1 h.2, ok_bind]
    split
    · exact noPanic_ok _
    · exact noPanic_raise _
  · rw [hkdf_of_not h]
    exact noPanic_raise _

end Outcomes

/-- Extraction and expansion as documented, over any hashes. -/
def hkdfOf (H : Hashes) : Hkdf where
  State := Digest × Bytes
  new digest salt keyMaterial :=
    (digest, Mac.hmac (H.digest digest) digest.blockSize (salt.getD []) keyMaterial)
  expand state info output :=
    if output.length ≤ 255 * state.1.outputSize then
      .ok (Mac.expand (Mac.hmac (H.digest state.1) state.1.blockSize state.2) info state.1.outputSize
        output.length)
    else .error "invalid length"

theorem hkdfOf_laws (H : Hashes) : (hkdfOf H).Laws H where
  expand_eq _ _ _ _ _ h := if_pos h
  expand_long _ _ _ _ _ h := ⟨_, if_neg (Nat.not_le.mpr h)⟩

/-- What the derivation functions do at every length. Outside of the common bounds both
report the range; within them SHA-256 returns that many bytes up to 8160 and reports that
the length is too large after that, while SHA-512 always returns, so that its own report
is never made. -/
theorem hkdf_outcomes (K : Hkdf) (H : Hashes) (hH : H.Laws) (hK : K.Laws H)
    (keyMaterial salt info : Bytes) (length : Int32) :
    (¬ (1 ≤ length ∧ length ≤ 16320) →
      hkdfSha256 K keyMaterial salt info length =
          raise "HKDF output length must be between 1 and 16320 bytes" ∧
        hkdfSha512 K keyMaterial salt info length =
          raise "HKDF output length must be between 1 and 16320 bytes") ∧
    (1 ≤ length → length ≤ 16320 →
      (∃ out, hkdfSha512 K keyMaterial salt info length = .ok out ∧ (out.length : ℤ) = length.toInt) ∧
      (length ≤ 8160 → ∃ out, hkdfSha256 K keyMaterial salt info length = .ok out ∧
        (out.length : ℤ) = length.toInt) ∧
      (8160 < length → hkdfSha256 K keyMaterial salt info length =
        raise "HKDF-SHA256 output length is too large")) := by
  refine ⟨?_, ?_⟩
  · intro h
    exact ⟨hkdf_of_not h _ _ _, hkdf_of_not h _ _ _⟩
  · intro hpos hlength
    have hint : (length.toInt.toNat : ℤ) = length.toInt := by
      have hone := Int32.le_iff_toInt_le.mp hpos
      rw [Int32.toInt_one] at hone
      exact Int.toNat_of_nonneg (by omega)
    refine ⟨?_, ?_, ?_⟩
    · have hfits : length.toInt.toNat ≤ 255 * Digest.sha512.outputSize := toNat_le_of_le hlength
      refine ⟨_, hkdf_of_le hK hpos hlength hfits _ _ _, ?_⟩
      rw [Mac.length_expand (length_hmac hH .sha512 _) (outputSize_pos _), hint]
    · intro hshort
      have hfits : length.toInt.toNat ≤ 255 * Digest.sha256.outputSize := toNat_le_of_le hshort
      refine ⟨_, hkdf_of_le hK hpos hlength hfits _ _ _, ?_⟩
      rw [Mac.length_expand (length_hmac hH .sha256 _) (outputSize_pos _), hint]
    · intro hlong
      have hfits : 255 * Digest.sha256.outputSize < length.toInt.toNat := lt_toNat_of_lt (by decide) hlong
      exact hkdf_of_lt hK hpos hlength hfits _ _ _

theorem hkdf_outcomes_recorded :
    (∃ out, hkdfSha256 (hkdfOf Hash.Recorded.hashes) Hash.Recorded.keyMaterial Hash.Recorded.salt
      Hash.Recorded.info 42 = .ok out ∧ (out.length : ℤ) = 42) ∧
    hkdfSha256 (hkdfOf Hash.Recorded.hashes) Hash.Recorded.keyMaterial Hash.Recorded.salt
      Hash.Recorded.info 8161 = raise "HKDF-SHA256 output length is too large" := by
  have h := hkdf_outcomes _ _ Hash.Recorded.hashes_laws (hkdfOf_laws _) Hash.Recorded.keyMaterial
    Hash.Recorded.salt Hash.Recorded.info
  exact ⟨((h 42).2 (by decide) (by decide)).2.1 (by decide),
    ((h 8161).2 (by decide) (by decide)).2.2 (by decide)⟩

section ByHmac

/-- The last block and the blocks joined, each block made by a call of `hmac_bytes`. -/
def expandByHmac (H : Hashes) (algorithm : String) (prk info : Bytes) : ℕ → Outcome (Bytes × Bytes)
  | 0 => .ok ([], [])
  | i + 1 => do
    let (block, joined) ← expandByHmac H algorithm prk info i
    let next ← hmacBytes H (block ++ info ++ [(i + 1).toUInt8]) prk algorithm
    .ok (next, joined ++ next)

/-- Extraction and expansion written with calls of `hmac_bytes`. -/
def hkdfByHmac (H : Hashes) (size : ℕ) (algorithm : String) (keyMaterial salt info : Bytes) (length : ℕ) :
    Outcome Bytes := do
  let prk ← hmacBytes H keyMaterial salt algorithm
  let (_, joined) ← expandByHmac H algorithm prk info ((length + size - 1) / size)
  .ok (joined.take length)

variable {H : Hashes} {digest : Digest} {algorithm : String}

theorem hmacBytes_eq_hmac (hH : H.Laws) (hnamed : digest.Named algorithm) (hne : digest ≠ .blake2b512)
    (data key : Bytes) :
    hmacBytes H data key algorithm = .ok (Mac.hmac (H.digest digest) digest.blockSize key data) := by
  rw [hmacBytes_of_named hnamed hne, calculate_eq hH]

/-- The calls of `hmac_bytes` run through the blocks of the expansion. -/
theorem expandByHmac_eq (hH : H.Laws) (hnamed : digest.Named algorithm) (hne : digest ≠ .blake2b512)
    (prk info : Bytes) (k : ℕ) : expandByHmac H algorithm prk info k =
      .ok (Mac.expandBlock (Mac.hmac (H.digest digest) digest.blockSize prk) info k,
        Mac.expandBlocks (Mac.hmac (H.digest digest) digest.blockSize prk) info k) := by
  induction k with
  | zero => rfl
  | succ k ih =>
    rw [expandByHmac, ih, ok_bind]
    dsimp only
    rw [hmacBytes_eq_hmac hH hnamed hne, ok_bind]
    rfl

theorem hkdfByHmac_eq (hH : H.Laws) (hnamed : digest.Named algorithm) (hne : digest ≠ .blake2b512)
    (keyMaterial salt info : Bytes) (length : ℕ) :
    hkdfByHmac H digest.outputSize algorithm keyMaterial salt info length =
      .ok (Mac.expand (Mac.hmac (H.digest digest) digest.blockSize
        (Mac.hmac (H.digest digest) digest.blockSize salt keyMaterial)) info digest.outputSize length) := by
  rw [hkdfByHmac, hmacBytes_eq_hmac hH hnamed hne, ok_bind, expandByHmac_eq hH hnamed hne, ok_bind]
  rfl

end ByHmac

/-- Wherever a derivation function returns, it returns what calls of `hmac` make by
extraction and expansion, under any name of its hash; and a shorter output is the
beginning of every longer one. -/
theorem hkdf_over_hmac (K : Hkdf) (H : Hashes) (hH : H.Laws) (hK : K.Laws H) (digest : Digest)
    (hne : digest ≠ .blake2b512) (name : String) (keyMaterial salt info out : Bytes) (length : Int32)
    (h : hkdf K digest name keyMaterial salt info length = .ok out) :
    (∀ algorithm, digest.Named algorithm →
      hkdfByHmac H digest.outputSize algorithm keyMaterial salt info length.toInt.toNat = .ok out) ∧
    ∀ shorter, 1 ≤ shorter → shorter ≤ length →
      hkdf K digest name keyMaterial salt info shorter = .ok (out.take shorter.toInt.toNat) := by
  have hrange : 1 ≤ length ∧ length ≤ 16320 := by
    by_contra hnot
    rw [hkdf_of_not hnot] at h
    cases h
  have hfits : length.toInt.toNat ≤ 255 * digest.outputSize := by
    by_contra hnot
    rw [hkdf_of_lt hK hrange.1 hrange.2 (by omega)] at h
    cases h
  rw [hkdf_of_le hK hrange.1 hrange.2 hfits] at h
  cases h
  refine ⟨?_, ?_⟩
  · intro algorithm hnamed
    exact hkdfByHmac_eq hH hnamed hne keyMaterial salt info _
  · intro shorter hpos hle
    have hnat := toNat_le_of_le hle
    have hshort : shorter.toInt.toNat ≤ 255 * digest.outputSize := by omega
    rw [hkdf_of_le hK hpos (Int32.le_trans hle hrange.2) hshort,
      Mac.take_expand (length_hmac hH digest _) (outputSize_pos digest) hnat]

theorem hkdf_over_hmac_recorded :
    hkdfByHmac Hash.Recorded.hashes 32 "SHA-256" Hash.Recorded.keyMaterial Hash.Recorded.salt
        Hash.Recorded.info 42 = .ok (Hash.Recorded.firstBlock ++ Hash.Recorded.secondBlock.take 10) ∧
      hkdfSha256 (hkdfOf Hash.Recorded.hashes) Hash.Recorded.keyMaterial Hash.Recorded.salt
        Hash.Recorded.info 32 = .ok Hash.Recorded.firstBlock := by
  have hvalue : hkdf (hkdfOf Hash.Recorded.hashes) .sha256 "HKDF-SHA256" Hash.Recorded.keyMaterial
      Hash.Recorded.salt Hash.Recorded.info 42 =
        .ok (Hash.Recorded.firstBlock ++ Hash.Recorded.secondBlock.take 10) := by decide +kernel
  have hnamed : Digest.sha256.Named "SHA-256" := by
    have hname : normalized "SHA-256" = "sha256" := by rfl
    rw [Digest.Named, hname]
    exact List.mem_singleton_self _
  have h := hkdf_over_hmac _ _ Hash.Recorded.hashes_laws (hkdfOf_laws _) .sha256 (by decide) _ _ _ _ _ _ hvalue
  exact ⟨h.1 _ hnamed, (h.2 32 (by decide) (by decide)).trans (by decide)⟩

end PgCrypto.Modern
