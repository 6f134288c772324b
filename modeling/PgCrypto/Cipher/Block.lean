import Mathlib.Algebra.Group.Defs
import Mathlib.Data.List.Basic
import Mathlib.Data.List.DropRight
import PgCrypto.Base.Outcome

/-! # Blocks of bytes

A block is a byte string of a fixed length, and blocks form a commutative group under
XOR. A byte string is cut into its first blocks, the last of which may be filled up
with zeros, and blocks are joined back; the two are inverse on aligned data.
-/
namespace PgCrypto.Cipher

def xorBytes (xs ys : Bytes) : Bytes := List.zipWith (· ^^^ ·) xs ys

theorem xorBytes_comm (xs ys : Bytes) : xorBytes xs ys = xorBytes ys xs :=
  List.zipWith_comm_of_comm UInt8.xor_comm

theorem length_xorBytes (xs ys : Bytes) : (xorBytes xs ys).length = min xs.length ys.length := by
  simp [xorBytes]

/-- XOR with the same bytes twice gives the data back, as far as they reach. -/
theorem xorBytes_xorBytes {xs ys : Bytes} (h : xs.length ≤ ys.length) :
    xorBytes (xorBytes xs ys) ys = xs := by
  induction xs generalizing ys with
  | nil => rfl
  | cons x xs ih =>
    cases ys with
    | nil => simp at h
    | cons y ys =>
      have hrest := ih (Nat.le_of_succ_le_succ h)
      have hx : x ^^^ y ^^^ y = x := by rw [UInt8.xor_assoc, UInt8.xor_self, UInt8.xor_zero]
      simpa only [xorBytes, List.zipWith_cons_cons, hx, List.cons.injEq, true_and] using hrest

/-- A byte string of length `n`. -/
@[ext] structure Block (n : ℕ) where
  bytes : Bytes
  length_eq : bytes.length = n
  deriving DecidableEq

namespace Block
variable {n : ℕ}

/-- The first `n` bytes, filled up with zeros. -/
def fixed (n : ℕ) (input : Bytes) : Block n where
  bytes := input.take n ++ List.replicate (n - input.length) 0
  length_eq := by
    rw [List.length_append, List.length_take, List.length_replicate]
    omega

theorem fixed_bytes_of_le {input : Bytes} (h : n ≤ input.length) :
    (fixed n input).bytes = input.take n := by
  have hz : n - input.length = 0 := by omega
  simp [fixed, hz]

theorem fixed_append (b : Block n) (rest : Bytes) : fixed n (b.bytes ++ rest) = b := by
  have hb := b.length_eq
  ext1
  rw [fixed_bytes_of_le (by rw [List.length_append]; omega), List.take_left' hb]

/-- All-zero inputs of any length give the same block. -/
theorem fixed_replicate (n k : ℕ) : fixed n (List.replicate k 0) = fixed n [] := by
  ext1
  have h : min n k + (n - k) = n := by omega
  simp [fixed, List.take_replicate, h]

/-- A short input is kept whole. -/
theorem fixed_bytes_of_ge {input : Bytes} (h : input.length ≤ n) :
    (fixed n input).bytes = input ++ List.replicate (n - input.length) 0 := by
  simp [fixed, List.take_of_length_le h]

instance : Add (Block n) where
  add x y := ⟨xorBytes x.bytes y.bytes, by rw [length_xorBytes, x.length_eq, y.length_eq, Nat.min_self]⟩
instance : Zero (Block n) where
  zero := ⟨List.replicate n 0, List.length_replicate⟩
instance : Neg (Block n) where
  neg x := x

theorem bytes_add (x y : Block n) : (x + y).bytes = xorBytes x.bytes y.bytes := rfl

private theorem add_assoc' (x y z : Block n) : x + y + z = x + (y + z) := by
  ext1
  simp only [bytes_add, xorBytes]
  apply List.ext_getElem
  · simp [x.length_eq, y.length_eq, z.length_eq]
  · intro i _ _
    simp [UInt8.xor_assoc]

private theorem add_comm' (x y : Block n) : x + y = y + x := by
  ext1
  rw [bytes_add, bytes_add, xorBytes_comm]

private theorem zero_add' (x : Block n) : 0 + x = x := by
  ext1
  change xorBytes (List.replicate n 0) x.bytes = x.bytes
  apply List.ext_getElem
  · simp [xorBytes, x.length_eq]
  · intro i _ _
    simp [xorBytes]

private theorem neg_add' (x : Block n) : -x + x = 0 := by
  ext1
  change xorBytes x.bytes x.bytes = List.replicate n 0
  rw [xorBytes, List.zipWith_self]
  simp [x.length_eq, List.map_const']

/-- Blocks under XOR. -/
instance : AddCommGroup (Block n) where
  add_assoc := add_assoc'
  add_comm := add_comm'
  zero_add := zero_add'
  add_zero x := by rw [add_comm', zero_add']
  neg_add_cancel := neg_add'
  nsmul := nsmulRec
  zsmul := zsmulRec

end Block

section TrailingZeros

/-- The data without the zeros at its end. -/
def stripZeros (data : Bytes) : Bytes := data.rdropWhile (· == 0)

theorem stripZeros_append_zeros (data : Bytes) (k : ℕ) :
    stripZeros (data ++ List.replicate k 0) = stripZeros data := by
  induction k with
  | zero => rw [List.replicate_zero, List.append_nil]
  | succ k ih =>
    rw [List.replicate_succ', ← List.append_assoc, stripZeros, List.rdropWhile_concat_pos _ _ _ (by simp)]
    exact ih

theorem eq_stripZeros_append (data : Bytes) :
    data = stripZeros data ++ List.replicate (data.length - (stripZeros data).length) 0 := by
  have hsplit := List.rdropWhile_append_rtakeWhile (p := fun b : UInt8 => b == 0) (l := data)
  have hlength := congrArg List.length hsplit
  rw [List.length_append] at hlength
  have hzeros : data.rtakeWhile (fun b : UInt8 => b == 0) =
      List.replicate (data.length - (stripZeros data).length) 0 := by
    rw [List.eq_replicate_iff]
    refine ⟨by unfold stripZeros; omega, ?_⟩
    intro b hb
    simpa using List.mem_rtakeWhile_imp hb
  rw [← hzeros]
  exact hsplit.symm

/-- Filling up with zeros forgets the zeros that were already there, and nothing else. -/
theorem Block.fixed_eq_fixed_iff {n : ℕ} {x y : Bytes} (hx : x.length ≤ n) (hy : y.length ≤ n) :
    Block.fixed n x = Block.fixed n y ↔ stripZeros x = stripZeros y := by
  have hfill : ∀ z : Bytes, z.length ≤ n → z ++ List.replicate (n - z.length) 0 =
      stripZeros z ++ List.replicate (n - (stripZeros z).length) 0 := by
    intro z hz
    have hle : (stripZeros z).length ≤ z.length := (List.rdropWhile_prefix _ z).length_le
    conv_lhs => rw [eq_stripZeros_append z]
    rw [List.append_assoc, List.replicate_append_replicate, ← eq_stripZeros_append z]
    congr 2
    omega
  rw [Block.ext_iff, Block.fixed_bytes_of_ge hx, Block.fixed_bytes_of_ge hy]
  constructor
  · intro h
    rw [← stripZeros_append_zeros x (n - x.length), h, stripZeros_append_zeros]
  · intro h
    rw [hfill x hx, hfill y hy, h]

end TrailingZeros

section Blocks
variable {n : ℕ}

/-- The first `k` blocks of the data. -/
def blocks (n : ℕ) : ℕ → Bytes → List (Block n)
  | 0, _ => []
  | k + 1, data => Block.fixed n data :: blocks n k (data.drop n)

def join (bs : List (Block n)) : Bytes := bs.flatMap Block.bytes

@[simp] theorem join_nil : join ([] : List (Block n)) = [] := rfl
@[simp] theorem join_cons (b : Block n) (bs : List (Block n)) : join (b :: bs) = b.bytes ++ join bs := rfl

@[simp] theorem length_blocks (k : ℕ) (data : Bytes) : (blocks n k data).length = k := by
  induction k generalizing data with
  | zero => rfl
  | succ k ih => rw [blocks, List.length_cons, ih]

@[simp] theorem length_join (bs : List (Block n)) : (join bs).length = bs.length * n := by
  induction bs with
  | nil => simp
  | cons b bs ih =>
    rw [join_cons, List.length_append, ih, b.length_eq, List.length_cons, Nat.succ_mul, Nat.add_comm]

/-- Blocks joined are the aligned beginning of the data. -/
theorem join_blocks {k : ℕ} {data : Bytes} (h : k * n ≤ data.length) :
    join (blocks n k data) = data.take (k * n) := by
  induction k generalizing data with
  | zero => simp [blocks]
  | succ k ih =>
    have hk : (k + 1) * n = n + k * n := by rw [Nat.succ_mul, Nat.add_comm]
    have hrest : k * n ≤ (data.drop n).length := by
      rw [List.length_drop]
      omega
    rw [blocks, join_cons, Block.fixed_bytes_of_le (by omega), ih hrest, hk, List.take_add]

theorem blocks_join_append (bs : List (Block n)) (rest : Bytes) :
    blocks n bs.length (join bs ++ rest) = bs := by
  induction bs with
  | nil => rfl
  | cons b bs ih =>
    have hd : (b.bytes ++ (join bs ++ rest)).drop n = join bs ++ rest := List.drop_left' b.length_eq
    rw [List.length_cons, blocks, join_cons, List.append_assoc, Block.fixed_append, hd, ih]

theorem blocks_join (bs : List (Block n)) : blocks n bs.length (join bs) = bs := by
  have h := blocks_join_append bs []
  rwa [List.append_nil] at h

/-- On aligned data cutting and joining lose nothing. -/
theorem join_blocks_aligned {data : Bytes} (h : n ∣ data.length) :
    join (blocks n (data.length / n) data) = data := by
  have hk : data.length / n * n = data.length := Nat.div_mul_cancel h
  rw [join_blocks (Nat.le_of_eq hk), hk, List.take_length]

end Blocks

end PgCrypto.Cipher
