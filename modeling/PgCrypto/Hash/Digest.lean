import PgCrypto.Base.ByteIndex
import PgCrypto.Base.Utf8
import PgCrypto.Mac.Construction

/-! # Digests and message authentication codes by name

`digest` and `hmac` look an algorithm up by its name in two separate tables; the name is
taken without regard to ASCII case and dashes. The hashes are a parameter. What is
documented of them is the length of each output, and that the library's HMAC is the
keyed hash made from the hash of the same name.
-/
namespace PgCrypto.Hash
open Str Utf8

/-- The hash types the tables select. -/
inductive Digest where
  | md5
  | sha1
  | sha224
  | sha256
  | sha384
  | sha512
  | sha3_256
  | sha3_512
  | blake2b512
  deriving DecidableEq, Repr

/-- The hashes and their HMAC, which is fed incrementally. -/
structure Hashes where
  digest : Digest → Bytes → Bytes
  Mac : Type
  newFromSlice : Digest → Bytes → Except String Mac
  update : Mac → Bytes → Mac
  finalize : Mac → Bytes

def unknownAlgorithm {α : Type} (kind algorithm : String) : Outcome α :=
  raise ("unknown " ++ kind ++ " algorithm: " ++ algorithm)

/-- The spelling that the tables are searched with. -/
def normalized (algorithm : String) : String := replace (toAsciiLowercase algorithm) "-" ""

variable (H : Hashes)

def digestBytes (data : Bytes) (algorithm : String) : Outcome Bytes :=
  match normalized algorithm with
  | "md5" => .ok (H.digest .md5 data)
  | "sha1" => .ok (H.digest .sha1 data)
  | "sha224" => .ok (H.digest .sha224 data)
  | "sha256" => .ok (H.digest .sha256 data)
  | "sha384" => .ok (H.digest .sha384 data)
  | "sha512" => .ok (H.digest .sha512 data)
  | "sha3256" => .ok (H.digest .sha3_256 data)
  | "sha3512" => .ok (H.digest .sha3_512 data)
  | "blake2b" | "blake2b512" => .ok (H.digest .blake2b512 data)
  | _ => unknownAlgorithm "digest" algorithm

/-- The body of `calculate!`. -/
def calculate (digest : Digest) (data key : Bytes) : Outcome Bytes :=
  match H.newFromSlice digest key with
  | .ok mac => .ok (H.finalize (H.update mac data))
  | .error _ => raise "invalid HMAC key"

def hmacBytes (data key : Bytes) (algorithm : String) : Outcome Bytes :=
  match normalized algorithm with
  | "md5" => calculate H .md5 data key
  | "sha1" => calculate H .sha1 data key
  | "sha224" => calculate H .sha224 data key
  | "sha256" => calculate H .sha256 data key
  | "sha384" => calculate H .sha384 data key
  | "sha512" => calculate H .sha512 data key
  | "sha3256" => calculate H .sha3_256 data key
  | "sha3512" => calculate H .sha3_512 data key
  | _ => unknownAlgorithm "HMAC" algorithm

def digestBytea (data : Bytes) (algorithm : String) : Outcome Bytes := digestBytes H data algorithm
def digestText (data algorithm : String) : Outcome Bytes := digestBytes H (utf8 data) algorithm
def hmacBytea (data key : Bytes) (algorithm : String) : Outcome Bytes := hmacBytes H data key algorithm
def hmacText (data key algorithm : String) : Outcome Bytes := hmacBytes H (utf8 data) (utf8 key) algorithm

def blake2b (data : Bytes) : Outcome Bytes := digestBytes H data "blake2b"
def sha3_256 (data : Bytes) : Outcome Bytes := digestBytes H data "sha3-256"
def sha3_512 (data : Bytes) : Outcome Bytes := digestBytes H data "sha3-512"

/-- The extension is independent of OpenSSL, so OpenSSL FIPS mode is absent. -/
def fipsMode : Bool := false

section Laws

def Digest.outputSize : Digest → ℕ
  | .md5 => 16
  | .sha1 => 20
  | .sha224 => 28
  | .sha256 | .sha3_256 => 32
  | .sha384 => 48
  | .sha512 | .sha3_512 | .blake2b512 => 64

/-- The block size; of a sponge, its rate. -/
def Digest.blockSize : Digest → ℕ
  | .md5 | .sha1 | .sha224 | .sha256 => 64
  | .sha384 | .sha512 | .blake2b512 => 128
  | .sha3_256 => 136
  | .sha3_512 => 72

structure Hashes.Laws : Prop where
  length_digest : ∀ digest data, (H.digest digest data).length = digest.outputSize
  hmac_eq : ∀ digest key data, ∃ mac, H.newFromSlice digest key = .ok mac ∧
    H.finalize (H.update mac data) = Mac.hmac (H.digest digest) digest.blockSize key data

end Laws

section Tables
variable {H}

/-- The normalized names of a hash in the digest table. -/
def Digest.names : Digest → List String
  | .md5 => ["md5"]
  | .sha1 => ["sha1"]
  | .sha224 => ["sha224"]
  | .sha256 => ["sha256"]
  | .sha384 => ["sha384"]
  | .sha512 => ["sha512"]
  | .sha3_256 => ["sha3256"]
  | .sha3_512 => ["sha3512"]
  | .blake2b512 => ["blake2b", "blake2b512"]

/-- The hash an algorithm name stands for. -/
def Digest.Named (digest : Digest) (algorithm : String) : Prop := normalized algorithm ∈ digest.names

theorem digestBytes_of_named {digest : Digest} {algorithm : String} (h : digest.Named algorithm)
    (data : Bytes) : digestBytes H data algorithm = .ok (H.digest digest data) := by
  unfold Digest.Named at h
  cases digest <;> simp only [Digest.names, List.mem_cons, List.not_mem_nil, or_false] at h
  case blake2b512 =>
    rcases h with h | h <;> simp [digestBytes, h]
  all_goals simp [digestBytes, h]

theorem named_of_digestBytes {algorithm : String} {data out : Bytes}
    (h : digestBytes H data algorithm = .ok out) :
    ∃ digest : Digest, digest.Named algorithm ∧ out = H.digest digest data := by
  unfold digestBytes at h
  split at h
  case h_11 => simp [unknownAlgorithm] at h
  all_goals
    next hname =>
    cases h
    exact ⟨_, by rw [Digest.Named, hname]; simp [Digest.names], rfl⟩

end Tables

end PgCrypto.Hash
