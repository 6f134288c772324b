import PgCrypto.Base.Cycle
import PgCrypto.Raw.Cipher

/-! # Key normalization keeps the effective key

The loop that extends a short Blowfish key appends whole copies of it, so the key
schedule, which reads its key cyclically, sees the same sequence of bytes. An AES key
is filled up with zeros to the size of its tier, which forgets the zeros at the end of
the key and nothing else.
-/
namespace PgCrypto.Raw
open Cipher Cyclic

section Blowfish
variable {original output : Bytes}

/-- The first bytes of a key, as far as Blowfish uses them. -/
def usedKey (key : Bytes) : Bytes := key.take (min key.length 56)

/-- The output of the loop after a number of rounds. -/
def extended (original : Bytes) (rounds : ℕ) : Bytes :=
  (fun output => output ++ original)^[rounds] original

@[simp] theorem extended_zero (original : Bytes) : extended original 0 = original := rfl
@[simp] theorem extended_succ (original : Bytes) (rounds : ℕ) :
    extended original (rounds + 1) = extended original rounds ++ original :=
  Function.iterate_succ_apply' _ _ _

theorem length_extended (original : Bytes) (rounds : ℕ) :
    (extended original rounds).length = (rounds + 1) * original.length := by
  induction rounds with
  | zero => simp
  | succ rounds ih => rw [extended_succ, List.length_append, ih, Nat.succ_mul (rounds + 1)]

theorem wholeCopies_extended (original : Bytes) (rounds : ℕ) :
    WholeCopies original (extended original rounds) := by
  induction rounds with
  | zero => exact WholeCopies.refl original
  | succ rounds ih =>
    rw [extended_succ]
    exact ih.append

/-- From any round on, the loop runs while the output is short and then stops. -/
theorem extendKey_extended (h : original ≠ []) (start : ℕ) :
    ∃ rounds, start ≤ rounds ∧ extendKey original h (extended original start) = extended original rounds ∧
      4 ≤ (extended original rounds).length ∧
      ∀ earlier, start ≤ earlier → earlier < rounds → (extended original earlier).length < 4 := by
  rw [extendKey]
  split
  · next hshort =>
    obtain ⟨rounds, hle, heq, hlong, hearlier⟩ := extendKey_extended h (start + 1)
    rw [← extended_succ, heq]
    refine ⟨rounds, by omega, rfl, hlong, ?_⟩
    intro earlier hs he
    rcases Nat.eq_or_lt_of_le hs with rfl | hlt
    · exact hshort
    · exact hearlier earlier hlt he
  · next hlong =>
    refine ⟨start, Nat.le_refl _, rfl, Nat.le_of_not_lt hlong, ?_⟩
    intro earlier hs he
    omega
termination_by 4 - (extended original start).length
decreasing_by
  have hpos := List.length_pos_iff.mpr h
  rw [extended_succ, List.length_append]
  omega

theorem blowfishKey_eq (key : Bytes) : blowfishKey key =
    if h : usedKey key ≠ [] ∧ (usedKey key).length < 4 then extendKey (usedKey key) h.1 (usedKey key)
    else usedKey key := rfl

theorem usedKey_ne_nil {key : Bytes} (h : key ≠ []) : usedKey key ≠ [] := by
  have hpos := List.length_pos_iff.mpr h
  apply List.ne_nil_of_length_pos
  rw [usedKey, List.length_take]
  omega

/-- The loop ends after at most three rounds, each of which found the output short. -/
theorem blowfishKey_extended (key : Bytes) :
    ∃ rounds ≤ 3, blowfishKey key = extended (usedKey key) rounds ∧
      (∀ earlier < rounds, (extended (usedKey key) earlier).length < 4) ∧
      (key ≠ [] → 4 ≤ (blowfishKey key).length) := by
  rw [blowfishKey_eq]
  split
  · next hshort =>
    obtain ⟨rounds, -, heq, hlong, hearlier⟩ := extendKey_extended hshort.1 0
    rw [extended_zero] at heq
    have hguard : ∀ earlier < rounds, (extended (usedKey key) earlier).length < 4 := by
      intro earlier he
      exact hearlier earlier (Nat.zero_le _) he
    refine ⟨rounds, ?_, heq, hguard, ?_⟩
    · by_contra hmany
      have hthree := hguard 3 (by omega)
      have hpos := List.length_pos_iff.mpr hshort.1
      rw [length_extended] at hthree
      omega
    · intro _
      rw [heq]
      exact hlong
  · next hlong =>
    refine ⟨0, by omega, rfl, by simp, ?_⟩
    intro hkey
    by_contra hshort
    exact hlong ⟨usedKey_ne_nil hkey, by omega⟩

theorem length_blowfishKey {key : Bytes} (h : key ≠ []) :
    4 ≤ (blowfishKey key).length ∧ (blowfishKey key).length ≤ 56 := by
  obtain ⟨rounds, -, heq, hearlier, hlong⟩ := blowfishKey_extended key
  refine ⟨hlong h, ?_⟩
  have hused : (usedKey key).length ≤ 56 := by
    rw [usedKey, List.length_take]
    omega
  rw [heq]
  cases rounds with
  | zero => exact hused
  | succ rounds =>
    have hlast := hearlier rounds (by omega)
    have hfirst := hearlier 0 (by omega)
    rw [extended_zero] at hfirst
    rw [extended_succ, List.length_append]
    omega

theorem cyclicAt_blowfishKey (key : Bytes) (i : ℕ) :
    cyclicAt (blowfishKey key) i = cyclicAt (usedKey key) i := by
  obtain ⟨rounds, -, heq, -, hlong⟩ := blowfishKey_extended key
  by_cases hkey : key = []
  · subst hkey
    rfl
  · have hne : extended (usedKey key) rounds ≠ [] := by
      have h := hlong hkey
      rw [heq] at h
      exact List.ne_nil_of_length_pos (by omega)
    rw [heq]
    exact (wholeCopies_extended (usedKey key) rounds).cyclicAt_eq hne i

end Blowfish

section Aes

def AesKey.bytes : AesKey → Bytes
  | .aes128 key => key.bytes
  | .aes192 key => key.bytes
  | .aes256 key => key.bytes

/-- The size to which a key of at most 32 bytes is filled up. -/
def keyTier (key : Bytes) : ℕ :=
  if key.length ≤ 16 then 16 else if key.length ≤ 24 then 24 else 32

/-- The three tiers of accepted keys. -/
theorem aesKey_cases {key : Bytes} (h : key.length ≤ 32) :
    (keyTier key = 16 ∧ key.length ≤ 16 ∧ aesKey key = .ok (.aes128 (fixed 16 key))) ∨
      (keyTier key = 24 ∧ key.length ≤ 24 ∧ aesKey key = .ok (.aes192 (fixed 24 key))) ∨
      (keyTier key = 32 ∧ key.length ≤ 32 ∧ aesKey key = .ok (.aes256 (fixed 32 key))) := by
  unfold keyTier aesKey
  by_cases h16 : key.length ≤ 16
  · exact Or.inl ⟨if_pos h16, h16, if_pos h16⟩
  · by_cases h24 : key.length ≤ 24
    · simp [h16, h24]
    · simp [h16, h24, h]

/-- Every byte of an accepted key is kept, at its place. -/
theorem aesKey_bytes {key : Bytes} (h : key.length ≤ 32) :
    ∃ normalized, aesKey key = .ok normalized ∧
      normalized.bytes = key ++ List.replicate (keyTier key - key.length) 0 := by
  rcases aesKey_cases h with ⟨htier, hle, heq⟩ | ⟨htier, hle, heq⟩ | ⟨htier, hle, heq⟩
  · exact ⟨_, heq, by rw [htier]; exact Block.fixed_bytes_of_ge hle⟩
  · exact ⟨_, heq, by rw [htier]; exact Block.fixed_bytes_of_ge hle⟩
  · exact ⟨_, heq, by rw [htier]; exact Block.fixed_bytes_of_ge hle⟩

theorem aesKey_eq_aesKey_iff {key key' : Bytes} (h : key.length ≤ 32) (h' : key'.length ≤ 32) :
    aesKey key = aesKey key' ↔ keyTier key = keyTier key' ∧ stripZeros key = stripZeros key' := by
  rcases aesKey_cases h with ⟨htier, hle, heq⟩ | ⟨htier, hle, heq⟩ | ⟨htier, hle, heq⟩
  · rcases aesKey_cases h' with ⟨htier', hle', heq'⟩ | ⟨htier', -, heq'⟩ | ⟨htier', -, heq'⟩
    · simp [heq, heq', htier, htier', fixed, Block.fixed_eq_fixed_iff hle hle']
    · simp [heq, heq', htier, htier']
    · simp [heq, heq', htier, htier']
  · rcases aesKey_cases h' with ⟨htier', -, heq'⟩ | ⟨htier', hle', heq'⟩ | ⟨htier', -, heq'⟩
    · simp [heq, heq', htier, htier']
    · simp [heq, heq', htier, htier', fixed, Block.fixed_eq_fixed_iff hle hle']
    · simp [heq, heq', htier, htier']
  · rcases aesKey_cases h' with ⟨htier', -, heq'⟩ | ⟨htier', -, heq'⟩ | ⟨htier', hle', heq'⟩
    · simp [heq, heq', htier, htier']
    · simp [heq, heq', htier, htier']
    · simp [heq, heq', htier, htier', fixed, Block.fixed_eq_fixed_iff hle hle']

end Aes

/-- Normalization keeps the effective key. The loop that extends a Blowfish key ends, and
for a non-empty key gives 4 to 56 bytes that repeat to the same sequence as the first
bytes of the key; AES keys are told apart up to the zeros at their end, tier by tier,
and no byte of an accepted one is dropped. -/
theorem keys_normalized :
    (∀ key, ∃ rounds ≤ 3, blowfishKey key = extended (usedKey key) rounds ∧
      (∀ earlier < rounds, (extended (usedKey key) earlier).length < 4) ∧
      (key ≠ [] → 4 ≤ (blowfishKey key).length)) ∧
    (∀ key, key ≠ [] → 4 ≤ (blowfishKey key).length ∧ (blowfishKey key).length ≤ 56 ∧
      ∀ i, cyclicAt (blowfishKey key) i = cyclicAt (key.take (min key.length 56)) i) ∧
    (∀ key, key.length ≤ 32 → ∃ normalized, aesKey key = .ok normalized ∧
      normalized.bytes = key ++ List.replicate (keyTier key - key.length) 0) ∧
    ∀ key key', key.length ≤ 32 → key'.length ≤ 32 →
      (aesKey key = aesKey key' ↔ keyTier key = keyTier key' ∧ stripZeros key = stripZeros key') := by
  refine ⟨blowfishKey_extended, ?_, ?_, ?_⟩
  · intro key hkey
    obtain ⟨hlow, hhigh⟩ := length_blowfishKey hkey
    exact ⟨hlow, hhigh, cyclicAt_blowfishKey key⟩
  · intro key hkey
    exact aesKey_bytes hkey
  · intro key key' hkey hkey'
    exact aesKey_eq_aesKey_iff hkey hkey'

/-- A three-byte key is repeated past the fourth byte, and 16 bytes and the same with a
zero after them are different keys. -/
theorem keys_normalized_boundary :
    (4 ≤ (blowfishKey [1, 2, 3]).length ∧ cyclicAt (blowfishKey [1, 2, 3]) 4 = some 2) ∧
      aesKey (List.replicate 16 7) ≠ aesKey (List.replicate 16 7 ++ [0]) ∧
      aesKey [7, 0] = aesKey [7] := by
  obtain ⟨-, hblowfish, -, haes⟩ := keys_normalized
  obtain ⟨hlow, -, hcyclic⟩ := hblowfish [1, 2, 3] (by decide)
  refine ⟨⟨hlow, (hcyclic 4).trans (by decide)⟩, ?_, ?_⟩
  · rw [Ne, haes _ _ (by decide) (by decide)]
    decide
  · exact (haes _ _ (by decide) (by decide)).mpr (by decide)

end PgCrypto.Raw
