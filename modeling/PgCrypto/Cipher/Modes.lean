import Mathlib.Algebra.Group.Basic
import Mathlib.Logic.Equiv.Defs
import PgCrypto.Cipher.Block

/-! # Modes of operation

ECB, CBC and full-block CFB over a permutation of a group of blocks. A block mode is
kept with the proofs that its two directions are inverse and preserve the number of
blocks, so later arguments never look inside it again. CFB also runs on byte strings
of any length, with the last segment cut short.
-/
namespace PgCrypto.Cipher

/-- A mode on whole blocks, with its inverse. -/
structure BlockMode (G : Type) where
  encrypt : List G → List G
  decrypt : List G → List G
  decrypt_encrypt : ∀ ps, decrypt (encrypt ps) = ps
  encrypt_decrypt : ∀ cs, encrypt (decrypt cs) = cs
  length_encrypt : ∀ ps, (encrypt ps).length = ps.length

section Blocks
variable {G : Type} [AddGroup G] (E : Equiv.Perm G)

def cbcEncrypt : G → List G → List G
  | _, [] => []
  | iv, p :: ps => E (p + iv) :: cbcEncrypt (E (p + iv)) ps

def cbcDecrypt : G → List G → List G
  | _, [] => []
  | iv, c :: cs => (E.symm c - iv) :: cbcDecrypt c cs

theorem cbcDecrypt_cbcEncrypt (iv : G) (ps : List G) : cbcDecrypt E iv (cbcEncrypt E iv ps) = ps := by
  induction ps generalizing iv with
  | nil => rfl
  | cons p ps ih =>
    have hp : E.symm (E (p + iv)) - iv = p := by rw [E.symm_apply_apply, add_sub_cancel_right]
    rw [cbcEncrypt, cbcDecrypt, ih, hp]

theorem cbcEncrypt_cbcDecrypt (iv : G) (cs : List G) : cbcEncrypt E iv (cbcDecrypt E iv cs) = cs := by
  induction cs generalizing iv with
  | nil => rfl
  | cons c cs ih =>
    have hc : E (E.symm c - iv + iv) = c := by rw [sub_add_cancel, E.apply_symm_apply]
    rw [cbcDecrypt, cbcEncrypt, hc, ih]

theorem length_cbcEncrypt (iv : G) (ps : List G) : (cbcEncrypt E iv ps).length = ps.length := by
  induction ps generalizing iv with
  | nil => rfl
  | cons p ps ih => rw [cbcEncrypt, List.length_cons, List.length_cons, ih]

/-- CFB on whole blocks, with the block that feeds the next segment. -/
def cfbEncrypt : G → List G → List G × G
  | iv, [] => ([], iv)
  | iv, p :: ps => ((p + E iv) :: (cfbEncrypt (p + E iv) ps).1, (cfbEncrypt (p + E iv) ps).2)

def cfbDecrypt : G → List G → List G × G
  | iv, [] => ([], iv)
  | iv, c :: cs => ((c - E iv) :: (cfbDecrypt c cs).1, (cfbDecrypt c cs).2)

/-- Decryption runs through the same feedback blocks as encryption. -/
theorem cfbDecrypt_cfbEncrypt (iv : G) (ps : List G) :
    cfbDecrypt E iv (cfbEncrypt E iv ps).1 = (ps, (cfbEncrypt E iv ps).2) := by
  induction ps generalizing iv with
  | nil => rfl
  | cons p ps ih =>
    have hp : p + E iv - E iv = p := add_sub_cancel_right p (E iv)
    simp only [cfbEncrypt, cfbDecrypt, ih, hp]

theorem cfbEncrypt_cfbDecrypt (iv : G) (cs : List G) :
    cfbEncrypt E iv (cfbDecrypt E iv cs).1 = (cs, (cfbDecrypt E iv cs).2) := by
  induction cs generalizing iv with
  | nil => rfl
  | cons c cs ih =>
    have hc : c - E iv + E iv = c := sub_add_cancel c (E iv)
    simp only [cfbDecrypt, cfbEncrypt, hc, ih]

theorem length_cfbEncrypt (iv : G) (ps : List G) : (cfbEncrypt E iv ps).1.length = ps.length := by
  induction ps generalizing iv with
  | nil => rfl
  | cons p ps ih => rw [cfbEncrypt, List.length_cons, List.length_cons, ih]

def ecb : BlockMode G where
  encrypt := List.map E
  decrypt := List.map E.symm
  decrypt_encrypt ps := by simp
  encrypt_decrypt cs := by simp
  length_encrypt ps := List.length_map E

def cbc (iv : G) : BlockMode G where
  encrypt := cbcEncrypt E iv
  decrypt := cbcDecrypt E iv
  decrypt_encrypt := cbcDecrypt_cbcEncrypt E iv
  encrypt_decrypt := cbcEncrypt_cbcDecrypt E iv
  length_encrypt := length_cbcEncrypt E iv

end Blocks

section Bytes
variable {n : ℕ} (E : Equiv.Perm (Block n)) (iv : Block n)

/-- The bytes after the last whole block. -/
def tail (n : ℕ) (data : Bytes) : Bytes := data.drop (data.length / n * n)

theorem length_tail (hn : 0 < n) (data : Bytes) : (tail n data).length < n := by
  have hmod := Nat.mod_lt data.length hn
  have hdiv := Nat.div_add_mod data.length n
  rw [tail, List.length_drop, Nat.mul_comm]
  omega

theorem join_blocks_append_tail (data : Bytes) :
    join (blocks n (data.length / n) data) ++ tail n data = data := by
  have hle : data.length / n * n ≤ data.length := Nat.div_mul_le_self data.length n
  rw [join_blocks hle, tail, List.take_append_drop]

/-- Joined blocks followed by less than a block are cut the same way again. -/
theorem cut_join_append {b : List (Block n)} {rest : Bytes} (h : rest.length < n) :
    (join b ++ rest).length / n = b.length ∧ blocks n b.length (join b ++ rest) = b ∧
      tail n (join b ++ rest) = rest := by
  have hlen : (join b ++ rest).length / n = b.length := by
    rw [List.length_append, length_join, Nat.mul_comm, Nat.mul_add_div (by omega),
      Nat.div_eq_of_lt h, Nat.add_zero]
  refine ⟨hlen, blocks_join_append b rest, ?_⟩
  rw [tail, hlen, List.drop_left' (length_join b)]

/-- A run over the whole blocks, and its last feedback block spent on the tail. -/
def segmentBytes (run : List (Block n) → List (Block n) × Block n) (data : Bytes) : Bytes :=
  let segments := run (blocks n (data.length / n) data)
  join segments.1 ++ xorBytes (tail n data) (E segments.2).bytes

def cfbEncryptBytes (data : Bytes) : Bytes := segmentBytes E (cfbEncrypt E iv) data
def cfbDecryptBytes (data : Bytes) : Bytes := segmentBytes E (cfbDecrypt E iv) data

theorem length_xorBytes_tail (hn : 0 < n) (data : Bytes) (b : Block n) :
    (xorBytes (tail n data) b.bytes).length = (tail n data).length := by
  have ht := length_tail hn data
  rw [length_xorBytes, b.length_eq]
  omega

theorem length_segmentBytes (hn : 0 < n) {run : List (Block n) → List (Block n) × Block n}
    (hrun : ∀ ps, (run ps).1.length = ps.length) (data : Bytes) :
    (segmentBytes E run data).length = data.length := by
  have hdata := congrArg List.length (join_blocks_append_tail (n := n) data)
  rw [List.length_append, length_join] at hdata
  rw [segmentBytes, List.length_append, length_join, hrun, length_xorBytes_tail hn, hdata]

/-- A run that undoes another with the same feedback undoes it on all byte strings. -/
theorem segmentBytes_segmentBytes (hn : 0 < n) {run back : List (Block n) → List (Block n) × Block n}
    (h : ∀ ps, back (run ps).1 = (ps, (run ps).2)) (data : Bytes) :
    segmentBytes E back (segmentBytes E run data) = data := by
  have ht := length_tail hn data
  have hx := length_xorBytes_tail hn data (E (run (blocks n (data.length / n) data)).2)
  obtain ⟨hlen, hblocks, htail⟩ :=
    cut_join_append (b := (run (blocks n (data.length / n) data)).1) (by rw [hx]; exact ht)
  have hxor : xorBytes (xorBytes (tail n data) (E (run (blocks n (data.length / n) data)).2).bytes)
      (E (run (blocks n (data.length / n) data)).2).bytes = tail n data :=
    xorBytes_xorBytes (by rw [Block.length_eq]; omega)
  unfold segmentBytes
  dsimp only
  rw [hlen, hblocks, htail, h, hxor, join_blocks_append_tail]

theorem cfbDecryptBytes_cfbEncryptBytes (hn : 0 < n) (data : Bytes) :
    cfbDecryptBytes E iv (cfbEncryptBytes E iv data) = data :=
  segmentBytes_segmentBytes E hn (cfbDecrypt_cfbEncrypt E iv) data

theorem cfbEncryptBytes_cfbDecryptBytes (hn : 0 < n) (data : Bytes) :
    cfbEncryptBytes E iv (cfbDecryptBytes E iv data) = data :=
  segmentBytes_segmentBytes E hn (cfbEncrypt_cfbDecrypt E iv) data

theorem length_cfbEncryptBytes (hn : 0 < n) (data : Bytes) :
    (cfbEncryptBytes E iv data).length = data.length :=
  length_segmentBytes E hn (length_cfbEncrypt E iv) data

end Bytes

end PgCrypto.Cipher
