import Mathlib.Data.List.Basic
import PgCrypto.Base.Outcome

/-! # Keyed hashes and key expansion

A hash with a block size gives a keyed hash: the key is brought to one block and mixed
into an inner and an outer call. A keyed hash gives an expansion: each block is the code
of the block before it, the context and a counter byte. The beginning of an expansion
does not depend on how much of it is asked for.
-/
namespace PgCrypto.Mac

section Keyed
variable (digest : Bytes → Bytes) (blockSize : ℕ)

/-- A key longer than a block is replaced by its hash. -/
def shortKey (key : Bytes) : Bytes := if blockSize < key.length then digest key else key

/-- The key as one block, filled up with zeros. -/
def keyBlock (key : Bytes) : Bytes :=
  shortKey digest blockSize key ++ List.replicate (blockSize - (shortKey digest blockSize key).length) 0

def innerBlock (block : Bytes) : Bytes := block.map (· ^^^ 0x36)
def outerBlock (block : Bytes) : Bytes := block.map (· ^^^ 0x5c)

def hmac (key data : Bytes) : Bytes :=
  digest (outerBlock (keyBlock digest blockSize key) ++
    digest (innerBlock (keyBlock digest blockSize key) ++ data))

variable {digest blockSize} {key : Bytes}

/-- A long key and its hash are the same key. -/
theorem hmac_digest_key (hkey : blockSize < key.length) (hdigest : (digest key).length ≤ blockSize)
    (data : Bytes) : hmac digest blockSize (digest key) data = hmac digest blockSize key data := by
  have hshort : shortKey digest blockSize (digest key) = shortKey digest blockSize key := by
    rw [shortKey, shortKey, if_pos hkey, if_neg (Nat.not_lt.mpr hdigest)]
  rw [hmac, hmac, keyBlock, keyBlock, hshort]

/-- Zeros after a short key change nothing, up to a block. -/
theorem hmac_append_zeros {zeros : ℕ} (h : key.length + zeros ≤ blockSize) (data : Bytes) :
    hmac digest blockSize (key ++ List.replicate zeros 0) data = hmac digest blockSize key data := by
  have hlength : (key ++ List.replicate zeros 0).length = key.length + zeros := by
    rw [List.length_append, List.length_replicate]
  have hblock : keyBlock digest blockSize (key ++ List.replicate zeros 0) = keyBlock digest blockSize key := by
    rw [keyBlock, keyBlock, shortKey, shortKey, if_neg (by omega), if_neg (by omega), hlength,
      List.append_assoc, List.replicate_append_replicate]
    congr 2
    omega
  rw [hmac, hmac, hblock]

end Keyed

section Expansion
variable (mac : Bytes → Bytes) (info : Bytes)

def expandBlock : ℕ → Bytes
  | 0 => []
  | i + 1 => mac (expandBlock i ++ info ++ [(i + 1).toUInt8])

/-- The first blocks, joined. -/
def expandBlocks : ℕ → Bytes
  | 0 => []
  | k + 1 => expandBlocks k ++ expandBlock mac info (k + 1)

/-- The first bytes of as many blocks as they need. -/
def expand (size length : ℕ) : Bytes := (expandBlocks mac info ((length + size - 1) / size)).take length

variable {mac info} {size : ℕ}

theorem length_expandBlocks (hmac : ∀ data, (mac data).length = size) (k : ℕ) :
    (expandBlocks mac info k).length = k * size := by
  induction k with
  | zero => simp [expandBlocks]
  | succ k ih => rw [expandBlocks, List.length_append, ih, expandBlock, hmac, Nat.succ_mul]

theorem expandBlocks_mono {k k' : ℕ} (h : k ≤ k') :
    expandBlocks mac info k <+: expandBlocks mac info k' := by
  induction h with
  | refl => exact List.prefix_rfl
  | @step m _ ih => exact ih.trans (List.prefix_append _ _)

theorem length_expand (hmac : ∀ data, (mac data).length = size) (hsize : 0 < size) (length : ℕ) :
    (expand mac info size length).length = length := by
  have hdiv := Nat.lt_div_mul_add hsize (a := length + size - 1)
  rw [expand, List.length_take, length_expandBlocks hmac]
  omega

/-- A shorter expansion is the beginning of a longer one. -/
theorem take_expand (hmac : ∀ data, (mac data).length = size) (hsize : 0 < size) {length length' : ℕ}
    (h : length ≤ length') :
    (expand mac info size length').take length = expand mac info size length := by
  have hblocks : (length + size - 1) / size ≤ (length' + size - 1) / size :=
    Nat.div_le_div_right (by omega)
  obtain ⟨rest, hrest⟩ := @expandBlocks_mono mac info _ _ hblocks
  have hlong : length ≤ (expandBlocks mac info ((length + size - 1) / size)).length := by
    have hdiv := Nat.lt_div_mul_add hsize (a := length + size - 1)
    rw [length_expandBlocks hmac]
    omega
  rw [expand, expand, List.take_take, Nat.min_eq_left h, ← hrest, List.take_append_of_le_length hlong]

end Expansion

end PgCrypto.Mac
