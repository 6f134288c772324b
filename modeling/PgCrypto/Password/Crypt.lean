import PgCrypto.Base.ByteIndex
import PgCrypto.Base.Utf8

/-! # Password hashing and salt generation

A salt is generated by hashing the empty password with a random salt and cutting the
checksum off the result, by a fixed offset or at a separator, as the scheme's format has
it. The hashing library is a parameter; its random source is an argument of every call
that draws a salt.
-/
namespace PgCrypto.Password
open Str Utf8

inductive BcryptVariant where
  | v2a
  | v2b
  | v2y
  deriving DecidableEq, Repr

/-- Absent fields are left to the library: a random salt, and its default cost and variant. -/
structure BcryptSetup where
  salt : Option String := none
  cost : Option UInt32 := none
  variant : Option BcryptVariant := none
  deriving DecidableEq, Repr

structure HashSetup where
  salt : Option String := none
  rounds : Option UInt32 := none
  deriving DecidableEq, Repr

/-- The library's operations. The one that reads a salt may panic on it. -/
structure Pwhash where
  Rng : Type
  bcryptHashWith : BcryptSetup → Bytes → Rng → Except String String
  unixCryptHash : Bytes → Rng → Except String String
  bsdiCryptHashWith : HashSetup → Bytes → Rng → Except String String
  md5CryptHash : Bytes → Rng → Except String String
  sha256CryptHashWith : HashSetup → Bytes → Rng → Except String String
  sha512CryptHashWith : HashSetup → Bytes → Rng → Except String String
  sha256DefaultRounds : UInt32
  sha512DefaultRounds : UInt32
  unixCrypt : Bytes → String → Outcome String

def crypt (lib : Pwhash) (password salt : String) : Outcome String :=
  orUnwind "invalid salt" (lib.unixCrypt (utf8 password) salt)

/-- The offset of the last separator of a SHA crypt setting. The length is decremented whether
or not the third separator is missing. -/
def shaSettingEnd (hash : String) : Outcome ℕ := do
  let separators := matchIndices hash '$'
  if byteLen hash.toList = 0 then
    abort "attempt to subtract with overflow"
  let third := separators[2]?.getD (byteLen hash.toList - 1)
  pure (if textGet hash 3 10 = some "rounds=" then separators[3]?.getD third else third)

def saltPrefix (hash algorithm : String) : Outcome String :=
  match algorithm with
  | "bf" => do
    let start ← textTo hash 29
    pure (replace start "$2b$" "$2a$")
  | "des" => textTo hash 2
  | "xdes" => textTo hash 9
  | "md5" => do
    let rest ← textFrom hash 3
    textTo hash ((find rest '$').elim (byteLen hash.toList) (fun index => index + 4))
  | "sha256crypt" | "sha512crypt" => do
    let stop ← shaSettingEnd hash
    textTo hash (stop + 1)
  | _ => abort "internal error: entered unreachable code"

def roundsOrDefault (rounds : Int32) (default : UInt32) : Outcome UInt32 :=
  if rounds = 0 then .ok default
  else if 0 < rounds then .ok rounds.toUInt32
  else raise "iteration count must be positive"

/-- The two SHA crypt branches, which differ in the library function and in the name that
their messages begin or end with. -/
def shaHash (name : String) (default : UInt32) (hashWith : HashSetup → Except String String)
    (rounds : Int32) : Outcome String := do
  let actual ← roundsOrDefault rounds default
  if ¬ (1000 ≤ actual ∧ actual ≤ 999999999) then
    raise (name ++ " iteration count must be between 1000 and 999999999")
  orRaise ("could not generate " ++ name ++ " salt") (hashWith { rounds := some actual })

/-- The hash of the empty password under a random salt. Every branch of the salt generator
computes one and ends in the same cut, which is taken out of the branches. -/
def saltHash (lib : Pwhash) (rng : lib.Rng) (algorithm : String) (rounds : Int32) : Outcome String :=
  match algorithm with
  | "bf" => do
    let cost := if rounds = 0 then 6 else rounds
    if ¬ (4 ≤ cost ∧ cost ≤ 31) then
      raise "bcrypt iteration count must be between 4 and 31"
    orRaise "could not generate bcrypt salt"
      (lib.bcryptHashWith { cost := some cost.toUInt32, variant := some .v2a } [] rng)
  | "des" => do
    if ¬ (rounds = 0 ∨ rounds = 25) then
      raise "DES iteration count must be 25 when specified"
    orRaise "could not generate DES salt" (lib.unixCryptHash [] rng)
  | "xdes" => do
    let actual ← roundsOrDefault rounds 725
    if actual > 16777215 ∨ actual % 2 = 0 then
      raise "extended DES iteration count must be odd and at most 16777215"
    orRaise "could not generate extended DES salt" (lib.bsdiCryptHashWith { rounds := some actual } [] rng)
  | "md5" => do
    if ¬ (rounds = 0 ∨ rounds = 1000) then
      raise "md5crypt iteration count must be 1000 when specified"
    orRaise "could not generate md5crypt salt" (lib.md5CryptHash [] rng)
  | "sha256crypt" =>
    shaHash "sha256crypt" lib.sha256DefaultRounds (fun setup => lib.sha256CryptHashWith setup [] rng) rounds
  | "sha512crypt" =>
    shaHash "sha512crypt" lib.sha512DefaultRounds (fun setup => lib.sha512CryptHashWith setup [] rng) rounds
  | _ => raise ("unknown salt algorithm: " ++ algorithm)

def generateSalt (lib : Pwhash) (rng : lib.Rng) (algorithm : String) (rounds : Int32) : Outcome String := do
  let hash ← saltHash lib rng algorithm rounds
  saltPrefix hash algorithm

def genSalt (lib : Pwhash) (rng : lib.Rng) (algorithm : String) (rounds : Int32) : Outcome String :=
  generateSalt lib rng (toAsciiLowercase algorithm) rounds

end PgCrypto.Password
