import PgCrypto.Hash.Digest

/-! # HMAC through the digest function

Both tables give a name to the same hash, except that the digest table also knows
BLAKE2b. An HMAC is therefore what calls of `digest` under the same name make of the key
block and the data, and keys that give the same block are the same key.
-/
namespace PgCrypto.Hash
open Str
variable {H : Hashes}

section Names

theorem hmacBytes_of_named {digest : Digest} {algorithm : String} (h : digest.Named algorithm)
    (hne : digest ≠ .blake2b512) (data key : Bytes) :
    hmacBytes H data key algorithm = calculate H digest data key := by
  unfold Digest.Named at h
  cases digest <;> simp only [Digest.names, List.mem_cons, List.not_mem_nil, or_false] at h
  case blake2b512 => exact absurd rfl hne
  all_goals simp only [hmacBytes, h]

theorem named_of_hmacBytes {algorithm : String} {data key out : Bytes}
    (h : hmacBytes H data key algorithm = .ok out) :
    ∃ digest : Digest, digest.Named algorithm ∧ digest ≠ .blake2b512 ∧
      calculate H digest data key = .ok out := by
  unfold hmacBytes at h
  split at h
  case h_9 => simp [unknownAlgorithm] at h
  all_goals
    next hname =>
    exact ⟨_, by rw [Digest.Named, hname]; simp [Digest.names], by decide, h⟩

/-- No name stands for two hashes. -/
theorem Digest.Named.unique {digest digest' : Digest} {algorithm : String} (h : digest.Named algorithm)
    (h' : digest'.Named algorithm) : digest = digest' := by
  unfold Digest.Named at h h'
  generalize normalized algorithm = name at h h'
  have hnames : ∀ d d' : Digest, d = d' ∨ ∀ n ∈ d.names, n ∉ d'.names := by
    intro d d'
    cases d <;> cases d' <;> simp [Digest.names]
  rcases hnames digest digest' with heq | hdisjoint
  · exact heq
  · exact absurd h' (hdisjoint name h)

theorem calculate_eq (hH : H.Laws) (digest : Digest) (data key : Bytes) :
    calculate H digest data key = .ok (Mac.hmac (H.digest digest) digest.blockSize key data) := by
  obtain ⟨mac, hmac, hvalue⟩ := hH.hmac_eq digest key data
  rw [calculate, hmac, ← hvalue]

end Names

def shortKeyByDigest (H : Hashes) (blockSize : ℕ) (key : Bytes) (algorithm : String) : Outcome Bytes :=
  if blockSize < key.length then digestBytes H key algorithm else .ok key

/-- The keyed hash written with calls of `digest_bytes`. -/
def hmacByDigest (H : Hashes) (blockSize : ℕ) (data key : Bytes) (algorithm : String) : Outcome Bytes := do
  let short ← shortKeyByDigest H blockSize key algorithm
  let block := short ++ List.replicate (blockSize - short.length) 0
  let inner ← digestBytes H (Mac.innerBlock block ++ data) algorithm
  digestBytes H (Mac.outerBlock block ++ inner) algorithm

theorem hmacByDigest_of_named {digest : Digest} {algorithm : String} (h : digest.Named algorithm)
    (blockSize : ℕ) (data key : Bytes) : hmacByDigest H blockSize data key algorithm =
      .ok (Mac.hmac (H.digest digest) blockSize key data) := by
  have hshort : shortKeyByDigest H blockSize key algorithm =
      .ok (Mac.shortKey (H.digest digest) blockSize key) := by
    rw [Mac.shortKey, shortKeyByDigest]
    split
    · exact digestBytes_of_named h key
    · rfl
  rw [hmacByDigest, hshort, ok_bind]
  dsimp only
  rw [digestBytes_of_named h, ok_bind, digestBytes_of_named h]
  rfl

theorem outputSize_le_blockSize (digest : Digest) : digest.outputSize ≤ digest.blockSize := by
  cases digest <;> decide

/-- `hmac` accepts the names `digest` accepts, except those of BLAKE2b. Under an accepted
name it is the keyed hash made with `digest` under that name; a key longer than a block
may be replaced by its digest, and zeros may follow a shorter key up to a block. -/
theorem hmacBytes_over_digestBytes (H : Hashes) (hH : H.Laws) (algorithm : String) :
    (∀ data key, (∃ out, hmacBytes H data key algorithm = .ok out) ↔
      (∃ out, digestBytes H data algorithm = .ok out) ∧ ¬ Digest.blake2b512.Named algorithm) ∧
    ∀ digest : Digest, digest.Named algorithm → digest ≠ .blake2b512 → ∀ data key,
      hmacBytes H data key algorithm = hmacByDigest H digest.blockSize data key algorithm ∧
      (digest.blockSize < key.length →
        (digestBytes H key algorithm >>= fun short => hmacBytes H data short algorithm) =
          hmacBytes H data key algorithm) ∧
      ∀ zeros, key.length + zeros ≤ digest.blockSize →
        hmacBytes H data (key ++ List.replicate zeros 0) algorithm = hmacBytes H data key algorithm := by
  refine ⟨?_, ?_⟩
  · intro data key
    constructor
    · rintro ⟨out, h⟩
      obtain ⟨digest, hnamed, hne, -⟩ := named_of_hmacBytes h
      exact ⟨⟨_, digestBytes_of_named hnamed data⟩, fun hblake => hne (hnamed.unique hblake)⟩
    · rintro ⟨⟨out, h⟩, hblake⟩
      obtain ⟨digest, hnamed, -⟩ := named_of_digestBytes h
      have hne : digest ≠ .blake2b512 := by
        rintro rfl
        exact hblake hnamed
      exact ⟨_, (hmacBytes_of_named hnamed hne data key).trans (calculate_eq hH digest data key)⟩
  · intro digest hnamed hne data key
    have hcall : ∀ key, hmacBytes H data key algorithm =
        .ok (Mac.hmac (H.digest digest) digest.blockSize key data) := by
      intro key
      rw [hmacBytes_of_named hnamed hne, calculate_eq hH]
    refine ⟨?_, ?_, ?_⟩
    · rw [hcall, hmacByDigest_of_named hnamed]
    · intro hlong
      have hdigest : (H.digest digest key).length ≤ digest.blockSize := by
        rw [hH.length_digest]
        exact outputSize_le_blockSize digest
      rw [digestBytes_of_named hnamed, ok_bind, hcall, hcall, Mac.hmac_digest_key hlong hdigest]
    · intro zeros hzeros
      rw [hcall, hcall, Mac.hmac_append_zeros hzeros]

/-! ## Recorded answers

The hash calls behind one published HMAC-MD5 value and one published HKDF-SHA256 value.
Other inputs get zeros.
-/
namespace Recorded

def zeroFill (n : ℕ) (key : Bytes) : Bytes := key ++ List.replicate (n - key.length) 0

def macKey : Bytes := List.replicate 16 0x0b
def macData : Bytes := hexBytes ["4869205468657265"]
def macInner : Bytes := hexBytes ["901d23732edcc0f1a106532f6be5eceb"]
def macValue : Bytes := hexBytes ["9294727a3638bb1c13f48ef8158bfc9d"]

def keyMaterial : Bytes := List.replicate 22 0x0b
def salt : Bytes := hexBytes ["000102030405060708090a0b0c"]
def info : Bytes := hexBytes ["f0f1f2f3f4f5f6f7f8f9"]
def prkInner : Bytes := hexBytes ["f42fe54a0e0615bdca1d45f8a9a663b1337f4a7059f9ed21d876ed212a89a63b"]
def prk : Bytes := hexBytes ["077709362c2e32df0ddc3f0dc47bba6390b6c73bb50f9c3122ec844ad7c2b3e5"]
def firstInner : Bytes := hexBytes ["e6958a12964cacde448e18279eadfcd97b702d716a71eeb579af74ec84bc741e"]
def firstBlock : Bytes := hexBytes ["3cb25f25faacd57a90434f64d0362f2a2d2d0a90cf1a5a4c5db02d56ecc4c5bf"]
def secondInner : Bytes := hexBytes ["2dabe46a9c54000920d3ef539a22c388305712c427077e77a2e0e28ecb388b6f"]
def secondBlock : Bytes := hexBytes ["34007208d5b887185865b4b0a85a993b89b9b65683d60f0106d28fff039d0b6f"]

/-- The two hash calls of one HMAC. -/
def macCalls (digest : Digest) (key data inner out : Bytes) : List ((Digest × Bytes) × Bytes) :=
  [((digest, Mac.innerBlock (zeroFill digest.blockSize key) ++ data), inner),
    ((digest, Mac.outerBlock (zeroFill digest.blockSize key) ++ inner), out)]

def calls : List ((Digest × Bytes) × Bytes) :=
  macCalls .md5 macKey macData macInner macValue ++
    macCalls .sha256 salt keyMaterial prkInner prk ++
    macCalls .sha256 prk (info ++ [1]) firstInner firstBlock ++
    macCalls .sha256 prk (firstBlock ++ info ++ [2]) secondInner secondBlock

def digest (d : Digest) (data : Bytes) : Bytes :=
  (calls.lookup (d, data)).getD (List.replicate d.outputSize 0)

def hashes : Hashes where
  digest := digest
  Mac := Digest × Bytes × Bytes
  newFromSlice d key := .ok (d, key, [])
  update mac data := (mac.1, mac.2.1, mac.2.2 ++ data)
  finalize mac := Mac.hmac (digest mac.1) mac.1.blockSize mac.2.1 mac.2.2

theorem length_digest (d : Digest) (data : Bytes) : (digest d data).length = d.outputSize := by
  have hcalls : ∀ call ∈ calls, call.2.length = call.1.1.outputSize := by decide +kernel
  unfold digest
  cases h : calls.lookup (d, data) with
  | none => exact List.length_replicate
  | some out =>
    obtain ⟨before, after, hsplit, -⟩ := List.lookup_eq_some_iff.mp h
    have hmem : ((d, data), out) ∈ calls := by
      rw [hsplit]
      exact List.mem_append_right _ List.mem_cons_self
    exact hcalls _ hmem

theorem hashes_laws : hashes.Laws where
  length_digest := length_digest
  hmac_eq d key _ := ⟨(d, key, []), rfl, rfl⟩

end Recorded

theorem hmacBytes_over_digestBytes_recorded :
    hmacBytes Recorded.hashes Recorded.macData Recorded.macKey "MD-5" = .ok Recorded.macValue ∧
      hmacByDigest Recorded.hashes 64 Recorded.macData Recorded.macKey "MD-5" = .ok Recorded.macValue ∧
      ∃ out, digestBytes Recorded.hashes Recorded.macData "MD-5" = .ok out := by
  have hnamed : Digest.md5.Named "MD-5" := by
    have hname : normalized "MD-5" = "md5" := by rfl
    rw [Digest.Named, hname]
    exact List.mem_singleton_self _
  have hvalue : hmacBytes Recorded.hashes Recorded.macData Recorded.macKey "MD-5" = .ok Recorded.macValue := by
    decide +kernel
  obtain ⟨haccept, hsame⟩ := hmacBytes_over_digestBytes Recorded.hashes Recorded.hashes_laws "MD-5"
  have hcall := (hsame .md5 hnamed (by decide) Recorded.macData Recorded.macKey).1
  exact ⟨hvalue, hcall.symm.trans hvalue, ((haccept Recorded.macData Recorded.macKey).mp ⟨_, hvalue⟩).1⟩

end PgCrypto.Hash
