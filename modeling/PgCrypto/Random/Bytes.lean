import PgCrypto.Cipher.Block

/-! # Random bytes

The generator is explicit state of its library. A length argument is a signed integer,
checked against its bounds before it is converted to a size.
-/
namespace PgCrypto.Random
open Cipher

/-- The operations that draw from the generator: filling a buffer of the given length,
and a version 4 UUID. -/
structure Generator where
  Rng : Type
  copyRandombytes : ℕ → Rng → Bytes × Rng
  newV4 : Rng → Block 16 × Rng

def maxRandomBytes : Int32 := 1024

/-- `usize::try_from` with `expect`. -/
def expectUsize (length : Int32) (message : String) : Outcome ℕ :=
  if 0 ≤ length then .ok length.toInt.toNat else abort (message ++ ": TryFromIntError(())")

section Functions
variable (G : Generator)

def randomVec (length : ℕ) (rng : G.Rng) : Bytes × G.Rng := G.copyRandombytes length rng

def genRandomBytes (length : Int32) (rng : G.Rng) : Outcome (Bytes × G.Rng) :=
  if ¬ (1 ≤ length ∧ length ≤ maxRandomBytes) then
    raise ("length must be between 1 and " ++ toString maxRandomBytes.toInt)
  else do
    let size ← expectUsize length "positive random byte length"
    .ok (randomVec G size rng)

def randomBytes (length : Int32) (rng : G.Rng) : Outcome (Bytes × G.Rng) := genRandomBytes G length rng

def genRandomUuid (rng : G.Rng) : Block 16 × G.Rng := G.newV4 rng

end Functions

/-- A positive length is converted without a panic. -/
theorem expectUsize_of_pos {length : Int32} (h : 1 ≤ length) (message : String) :
    expectUsize length message = .ok length.toInt.toNat := by
  have hpos : 0 ≤ length := Int32.le_trans (by decide) h
  rw [expectUsize, if_pos hpos]

theorem genRandomBytes_noPanic (G : Generator) (length : Int32) (rng : G.Rng) :
    NoPanic (genRandomBytes G length rng) := by
  unfold genRandomBytes
  split
  · exact noPanic_raise _
  · next h =>
    rw [expectUsize_of_pos (not_not.mp h).1, ok_bind]
    exact noPanic_ok _

end PgCrypto.Random
