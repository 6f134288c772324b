import PgCrypto.Cipher.Chaining
import PgCrypto.Raw.Failure

/-! # Raw ciphers on parts of a message

A message may be encrypted in parts: the last ciphertext block of one part is the IV of
the next, and only the last part is padded. What the modes leak and what they do not
detect follows from this. Under one key, IV and type the common beginning of two
messages shows, ECB shows equal blocks, and a changed ciphertext block or IV decrypts
without an error to a plaintext that differs in a predictable place.
-/
namespace PgCrypto.Raw
open Str Cipher

section Runs
variable {C : Ciphers} {n : ℕ} (cipher : Equiv.Perm (Block n)) (iv : Block n)

/-- What one block goes through, given the ciphertext block before it. -/
def stepOf : Mode → Block n → Equiv.Perm (Block n)
  | .cbc => cbcStep cipher
  | .cfb => cfbStep cipher
  | .ecb => ecbStep cipher

theorem blockMode_eq_chained {mode : Mode} (h : mode ≠ .cfb) :
    blockMode cipher iv mode = some (chained (stepOf cipher mode) iv) := by
  cases mode with
  | cbc => exact congrArg some (cbc_eq_chained cipher iv)
  | cfb => exact absurd rfl h
  | ecb => exact congrArg some (ecb_eq_chained cipher iv)

theorem encryptWith_eq_chained {mode : Mode} (h : mode ≠ .cfb) (padding : Padding) (data : Bytes) :
    encryptWith C cipher iv mode padding data =
      encryptPaddedVec C (chained (stepOf cipher mode) iv) (scheme padding) data := by
  rw [encryptWith, blockMode_eq_chained cipher iv h]

theorem decryptWith_eq_chained {mode : Mode} (h : mode ≠ .cfb) (padding : Padding) (data : Bytes) :
    decryptWith cipher iv mode padding data = orRawError (match padding with
      | .pkcs => "invalid ciphertext or padding"
      | .none => "ciphertext is not block aligned")
        (decryptPadded (chained (stepOf cipher mode) iv) (scheme padding) data) := by
  have hmode := blockMode_eq_chained cipher iv h
  unfold decryptWith
  generalize blockMode cipher iv mode = found at hmode
  cases hmode
  rfl

theorem encryptPaddedVec_agree {mode mode' : BlockMode (Block n)} {scheme : PaddingScheme}
    {data data' out : Bytes}
    (h : encryptPadded mode scheme data = (encryptPadded mode' scheme data').map (out ++ ·)) :
    Agree (encryptPaddedVec C mode scheme data)
      (encryptPaddedVec C mode' scheme data' >>= fun rest => .ok (out ++ rest)) := by
  rw [encryptPaddedVec, encryptPaddedVec, h]
  cases encryptPadded mode' scheme data' with
  | none => exact Or.inr ⟨⟨_, rfl⟩, _, rfl⟩
  | some rest => exact Or.inl rfl

theorem orRawError_map {message : String} {x : Option Bytes} {out : Bytes} :
    orRawError message (x.map (out ++ ·)) = orRawError message x >>= fun rest => .ok (out ++ rest) := by
  cases x with
  | none => rfl
  | some rest => rfl

theorem encryptWith_append (hn : 0 < n) {first : Bytes} (h : n ∣ first.length) (mode : Mode)
    (padding : Padding) (second : Bytes) :
    Agree (encryptWith C cipher iv mode padding (first ++ second))
      (encryptWith C cipher iv mode .none first >>= fun out =>
        encryptWith C cipher (feedback iv out) mode padding second >>= fun rest => .ok (out ++ rest)) := by
  by_cases hmode : mode = .cfb
  · subst hmode
    exact Or.inl (congrArg Except.ok (cfbEncryptBytes_append cipher iv hn h second))
  · obtain ⟨out, hout⟩ : ∃ out, encryptPadded (chained (stepOf cipher mode) iv) .noPadding first = some out :=
      exists_encryptPadded_iff.mpr (fun _ => h)
    have hfirst : encryptWith C cipher iv mode .none first = .ok out := by
      rw [encryptWith_eq_chained cipher iv hmode]
      exact encryptPaddedVec_eq_ok.mpr hout
    rw [hfirst, ok_bind, encryptWith_eq_chained cipher iv hmode, encryptWith_eq_chained cipher _ hmode]
    exact encryptPaddedVec_agree (encryptPadded_append (stepOf cipher mode) iv hn h hout second)

theorem decryptWith_append (hn : 0 < n) {first second : Bytes} (h : n ∣ first.length) {mode : Mode}
    {padding : Padding} (hne : mode ≠ .cfb → padding = .pkcs → second ≠ []) :
    decryptWith cipher iv mode padding (first ++ second) =
      decryptWith cipher iv mode .none first >>= fun out =>
        decryptWith cipher (feedback iv first) mode padding second >>= fun rest => .ok (out ++ rest) := by
  by_cases hmode : mode = .cfb
  · subst hmode
    exact congrArg Except.ok (cfbDecryptBytes_append cipher iv hn h second)
  · obtain ⟨out, hout⟩ : ∃ out, decryptPadded (chained (stepOf cipher mode) iv) .noPadding first = some out :=
      ⟨_, decryptPadded_noPadding _ h⟩
    have hfirst : decryptWith cipher iv mode .none first = .ok out := by
      rw [decryptWith_eq_chained cipher iv hmode]
      exact orRawError_eq_ok.mpr hout
    have hsecond : scheme padding = .pkcs7 → second ≠ [] := by
      intro hscheme
      exact hne hmode (scheme_eq_pkcs7_iff.mp hscheme)
    rw [hfirst, ok_bind, decryptWith_eq_chained cipher iv hmode, decryptWith_eq_chained cipher _ hmode,
      decryptPadded_append (stepOf cipher mode) iv hn h hout hsecond, orRawError_map]

/-- The beginning of a ciphertext is the ciphertext of the beginning, at every byte in
CFB and at the blocks in the other modes. -/
theorem encryptWith_take (hn : 0 < n) {mode : Mode} {padding : Padding} {data out : Bytes}
    (h : encryptWith C cipher iv mode padding data = .ok out) {k : ℕ} (hk : k ≤ data.length)
    (hunit : mode = .cfb ∨ n ∣ k) :
    encryptWith C cipher iv mode .none (data.take k) = .ok (out.take k) := by
  by_cases hmode : mode = .cfb
  · subst hmode
    cases h
    exact congrArg Except.ok (cfbEncryptBytes_take cipher iv hn data hk).symm
  · have hlength : (data.take k).length = k := by
      rw [List.length_take]
      omega
    have haligned : n ∣ (data.take k).length := by
      rw [hlength]
      exact hunit.resolve_left hmode
    have hsplit := encryptWith_append (C := C) cipher iv hn haligned mode padding (data.drop k)
    rw [List.take_append_drop] at hsplit
    obtain ⟨first, hfirst, hrest⟩ := bind_eq_ok.mp (hsplit.eq_ok h)
    obtain ⟨rest, -, hout⟩ := bind_eq_ok.mp hrest
    cases hout
    have hk' := length_encryptWith cipher iv hn hfirst
    rw [hlength] at hk'
    have hfirstLength : first.length = k := by
      rw [hk']
      cases mode <;> rfl
    rw [hfirst, List.take_left' hfirstLength]

theorem encryptWith_drop (hn : 0 < n) {mode : Mode} {padding : Padding} {data out : Bytes}
    (h : encryptWith C cipher iv mode padding data = .ok out) {k : ℕ} (hk : k ≤ data.length)
    (hunit : n ∣ k) : encryptWith C cipher (feedback iv (out.take k)) mode padding (data.drop k) =
      .ok (out.drop k) := by
  have hlength : (data.take k).length = k := by
    rw [List.length_take]
    omega
  have haligned : n ∣ (data.take k).length := by rwa [hlength]
  have hsplit := encryptWith_append (C := C) cipher iv hn haligned mode padding (data.drop k)
  rw [List.take_append_drop, encryptWith_take cipher iv hn h hk (.inr hunit), ok_bind] at hsplit
  obtain ⟨rest, hrest, hout⟩ := bind_eq_ok.mp (hsplit.eq_ok h)
  rw [Except.ok.injEq] at hout
  have hdrop : out.take k ++ rest = out.take k ++ out.drop k := by rw [hout, List.take_append_drop]
  rw [hrest, List.append_cancel_left hdrop]

theorem encryptWith_injective (hn : 0 < n) (hn' : n < 256) {mode : Mode} {padding : Padding}
    {data data' out out' : Bytes} (h : encryptWith C cipher iv mode padding data = .ok out)
    (h' : encryptWith C cipher iv mode padding data' = .ok out') : out = out' ↔ data = data' := by
  have hinverse := encryptWith_inverse (C := C) cipher iv hn hn' mode padding
  constructor
  · rintro rfl
    have hback := (hinverse data out).mp h
    rw [(hinverse data' out).mp h'] at hback
    exact (Except.ok.inj hback).symm
  · rintro rfl
    rw [h] at h'
    exact Except.ok.inj h'

theorem decryptWith_join (hn : 0 < n) (mode : Mode) (cs : List (Block n)) :
    decryptWith cipher iv mode .none (join cs) = .ok (join (unchain (stepOf cipher mode) iv cs)) := by
  obtain ⟨haligned, hblocks⟩ := blocks_join_length hn cs
  by_cases hmode : mode = .cfb
  · subst hmode
    change Except.ok (cfbDecryptBytes cipher iv (join cs)) = _
    rw [cfbDecryptBytes_eq, hblocks, tail_eq_nil haligned]
    exact congrArg Except.ok (List.append_nil _)
  · rw [decryptWith_eq_chained cipher iv hmode]
    refine orRawError_eq_ok.mpr ?_
    rw [scheme, decryptPadded_noPadding _ haligned, hblocks]
    rfl

end Runs

section Calls
variable {C : Ciphers} {key iv : Bytes} {cipherType : String} {algorithm : Algorithm} {mode : Mode}
  {padding : Padding}

theorem encryptIv_eq (hparse : parseType cipherType = .ok (algorithm, mode, padding)) (data : Bytes) :
    encryptIv C data key iv cipherType = keyedCipher C algorithm key >>= fun cipher =>
      encryptWith C cipher (fixed (blockSize algorithm) iv) mode padding data := by
  rw [encryptIv, transform_eq, hparse, ok_bind]
  rfl

theorem decryptIv_eq (hparse : parseType cipherType = .ok (algorithm, mode, padding)) (data : Bytes) :
    decryptIv C data key iv cipherType = keyedCipher C algorithm key >>= fun cipher =>
      decryptWith cipher (fixed (blockSize algorithm) iv) mode padding data := by
  rw [decryptIv, transform_eq, hparse, ok_bind]
  rfl

/-- The IV for what comes after a ciphertext: its last block, or the IV itself. -/
def nextIv (size : ℕ) (iv out : Bytes) : Bytes :=
  if out = [] then iv else out.drop (out.length - size)

theorem fixed_nextIv (size : ℕ) (iv out : Bytes) :
    fixed size (nextIv size iv out) = feedback (fixed size iv) out := by
  unfold nextIv feedback
  split
  · rfl
  · rfl

end Calls

/-- A message may be encrypted and decrypted in parts. The first part is whole blocks and
goes through the type without padding; the last ciphertext block is the IV of the second
part. The two ways agree on every outcome, errors included; when data that is padded is
decrypted, the padding must be in the second part. -/
theorem encryptIv_append (C : Ciphers) (key iv : Bytes) {cipherType unpaddedType : String}
    {algorithm : Algorithm} {mode : Mode} {padding : Padding}
    (hparse : parseType cipherType = .ok (algorithm, mode, padding))
    (hunpadded : parseType unpaddedType = .ok (algorithm, mode, .none)) :
    (∀ first second, blockSize algorithm ∣ first.length →
      Agree (encryptIv C (first ++ second) key iv cipherType) (do
        let out ← encryptIv C first key iv unpaddedType
        let rest ← encryptIv C second key (nextIv (blockSize algorithm) iv out) cipherType
        .ok (out ++ rest))) ∧
    (∀ first second, blockSize algorithm ∣ first.length →
      (mode ≠ .cfb → padding = .pkcs → second ≠ []) →
      decryptIv C (first ++ second) key iv cipherType = (do
        let out ← decryptIv C first key iv unpaddedType
        let rest ← decryptIv C second key (nextIv (blockSize algorithm) iv first) cipherType
        .ok (out ++ rest))) := by
  simp only [encryptIv_eq hparse, encryptIv_eq hunpadded, decryptIv_eq hparse, decryptIv_eq hunpadded,
    fixed_nextIv]
  cases keyedCipher C algorithm key with
  | error e => exact ⟨fun _ _ _ => Or.inl rfl, fun _ _ _ _ => rfl⟩
  | ok cipher =>
    constructor
    · intro first second h
      exact encryptWith_append cipher _ (blockSize_pos algorithm) h mode padding second
    · intro first second h hne
      exact decryptWith_append cipher _ (blockSize_pos algorithm) h hne

theorem encryptIv_append_knownAnswer :
    Agree (encryptIv knownAnswer (aesPlain.bytes ++ [1, 2, 3]) aesTestKey.bytes [] "aes") (do
      let out ← encryptIv knownAnswer aesPlain.bytes aesTestKey.bytes [] "aes-cbc/pad:none"
      let rest ← encryptIv knownAnswer [1, 2, 3] aesTestKey.bytes (nextIv 16 [] out) "aes"
      .ok (out ++ rest)) := by
  have hparse : parseType "aes" = .ok (.aes, .cbc, .pkcs) := by rfl
  have hunpadded : parseType "aes-cbc/pad:none" = .ok (.aes, .cbc, .none) := by rfl
  exact (encryptIv_append knownAnswer aesTestKey.bytes [] hparse hunpadded).1 aesPlain.bytes [1, 2, 3]
    (by decide)

section Leakage
variable {C : Ciphers} {data data' out out' key iv iv' : Bytes} {cipherType : String}
  {algorithm : Algorithm} {mode : Mode} {padding : Padding}

/-- Two ciphertexts under one key, IV and type agree up to a byte exactly when the
messages do: at every byte in CFB, and at the end of every whole block in CBC and ECB. -/
theorem encryptIv_take_eq_iff (hparse : parseType cipherType = .ok (algorithm, mode, padding))
    (h : encryptIv C data key iv cipherType = .ok out)
    (h' : encryptIv C data' key iv cipherType = .ok out') {k : ℕ} (hk : k ≤ data.length)
    (hk' : k ≤ data'.length) (hunit : mode = .cfb ∨ blockSize algorithm ∣ k) :
    out.take k = out'.take k ↔ data.take k = data'.take k := by
  rw [encryptIv_eq hparse] at h h'
  obtain ⟨cipher, hcipher, hrun⟩ := bind_eq_ok.mp h
  rw [hcipher, ok_bind] at h'
  have hpos := blockSize_pos algorithm
  exact encryptWith_injective cipher _ hpos (blockSize_lt algorithm)
    (encryptWith_take cipher _ hpos hrun hk hunit) (encryptWith_take cipher _ hpos h' hk' hunit)

theorem encryptIv_take_eq_iff_knownAnswer : ∃ out out',
    encryptIv knownAnswer (aesPlain.bytes ++ [1, 2]) aesTestKey.bytes [] "aes-cfb" = .ok out ∧
      encryptIv knownAnswer (aesPlain.bytes ++ [1, 3]) aesTestKey.bytes [] "aes-cfb" = .ok out' ∧
      out.take 17 = out'.take 17 := by
  have hparse : parseType "aes-cfb" = .ok (.aes, .cfb, .pkcs) := by rfl
  have hkey : keyedCipher knownAnswer .aes aesTestKey.bytes = .ok (knownAnswer.aes128 aesTestKey) := by rfl
  have hrun : ∀ data, encryptIv knownAnswer data aesTestKey.bytes [] "aes-cfb" =
      .ok (cfbEncryptBytes (knownAnswer.aes128 aesTestKey) (fixed 16 []) data) := by
    intro data
    rw [encryptIv_eq hparse, hkey]
    rfl
  refine ⟨_, _, hrun _, hrun _, ?_⟩
  exact (encryptIv_take_eq_iff hparse (hrun _) (hrun _) (by decide) (by decide) (.inl rfl)).mpr (by decide)

def blockAt (size : ℕ) (data : Bytes) (i : ℕ) : Bytes := (data.drop (i * size)).take size

theorem encryptWith_ecb {n : ℕ} (cipher : Equiv.Perm (Block n)) (iv f : Block n) :
    encryptWith C cipher iv .ecb = encryptWith C cipher f .ecb := rfl

theorem encryptWith_blockAt {n : ℕ} (cipher : Equiv.Perm (Block n)) (iv f : Block n) (hn : 0 < n)
    (h : encryptWith C cipher iv .ecb padding data = .ok out) {i : ℕ} (hi : (i + 1) * n ≤ data.length) :
    encryptWith C cipher f .ecb .none (blockAt n data i) = .ok (blockAt n out i) := by
  rw [Nat.succ_mul] at hi
  have hrest := encryptWith_drop cipher iv hn h (k := i * n) (by omega) (Nat.dvd_mul_left n i)
  rw [encryptWith_ecb cipher _ f] at hrest
  exact encryptWith_take cipher f hn hrest (by rw [List.length_drop]; omega) (.inr (Nat.dvd_refl n))

/-- ECB shows equal blocks: within one message, between messages and across IVs, two
blocks of ciphertext under one key are equal exactly when the blocks of plaintext are. -/
theorem encryptIv_ecb_blockAt_eq_iff (hparse : parseType cipherType = .ok (algorithm, .ecb, padding))
    (h : encryptIv C data key iv cipherType = .ok out)
    (h' : encryptIv C data' key iv' cipherType = .ok out') {i j : ℕ}
    (hi : (i + 1) * blockSize algorithm ≤ data.length)
    (hj : (j + 1) * blockSize algorithm ≤ data'.length) :
    blockAt (blockSize algorithm) out i = blockAt (blockSize algorithm) out' j ↔
      blockAt (blockSize algorithm) data i = blockAt (blockSize algorithm) data' j := by
  rw [encryptIv_eq hparse] at h h'
  obtain ⟨cipher, hcipher, hrun⟩ := bind_eq_ok.mp h
  rw [hcipher, ok_bind] at h'
  have hpos := blockSize_pos algorithm
  exact encryptWith_injective cipher 0 hpos (blockSize_lt algorithm)
    (encryptWith_blockAt cipher _ 0 hpos hrun hi) (encryptWith_blockAt cipher _ 0 hpos h' hj)

theorem encryptIv_ecb_blockAt_knownAnswer :
    blockAt 16 aesOut.bytes 0 = blockAt 16 (aesOut.bytes ++ aesOut.bytes) 1 := by
  have hparse : parseType "aes-ecb/pad:none" = .ok (.aes, .ecb, .none) := by rfl
  have hone : encryptIv knownAnswer aesPlain.bytes aesTestKey.bytes [7] "aes-ecb/pad:none" =
      .ok aesOut.bytes := by rfl
  have htwo : encryptIv knownAnswer (aesPlain.bytes ++ aesPlain.bytes) aesTestKey.bytes [] "aes-ecb/pad:none" =
      .ok (aesOut.bytes ++ aesOut.bytes) := by rfl
  exact (encryptIv_ecb_blockAt_eq_iff hparse hone htwo (by decide) (by decide)).mpr (by decide)

end Leakage

section Vectors
variable {C : Ciphers} {n : ℕ} (cipher : Equiv.Perm (Block n))

/-- The IV meets the first block of the padded message only. -/
theorem encryptWith_firstBlock (hn : 0 < n) (mode : Mode) (padding : Padding) (data : Bytes) :
    ∃ b : Block n, ∀ iv out, encryptWith C cipher iv mode padding data = .ok out → n ≤ out.length →
      out.take n = (stepOf cipher mode iv b).bytes := by
  by_cases hmode : mode = .cfb
  · subst hmode
    refine ⟨Block.fixed n data, ?_⟩
    rintro iv _ ⟨⟩ hlong
    rw [length_cfbEncryptBytes cipher iv hn] at hlong
    have hfirst : (data.take n).length ≤ n := List.length_take_le n data
    rw [cfbEncryptBytes_take cipher iv hn data hlong, cfbEncryptBytes_of_le cipher iv hn hfirst,
      ← Block.fixed_bytes_of_le hlong, ← Block.bytes_add]
    rfl
  · refine ⟨((pad n (scheme padding) data).elim [] (fun padded =>
      blocks n (padded.length / n) padded)).headD 0, ?_⟩
    intro iv out h hlong
    rw [encryptWith_eq_chained cipher iv hmode, encryptPaddedVec_eq_ok, encryptPadded,
      Option.map_eq_some_iff] at h
    obtain ⟨padded, hpad, rfl⟩ := h
    rw [hpad, Option.elim_some]
    generalize blocks n (padded.length / n) padded = bs at hlong ⊢
    cases bs with
    | nil => exact absurd hlong (Nat.not_le.mpr hn)
    | cons b bs => exact List.take_left' (Block.length_eq _)

theorem stepOf_eq_stepOf_iff {mode : Mode} {f f' b : Block n} :
    stepOf cipher mode f b = stepOf cipher mode f' b ↔ mode = .ecb ∨ f = f' := by
  cases mode with
  | cbc => simp [stepOf, cbcStep_apply]
  | cfb => simp [stepOf, cfbStep_apply]
  | ecb => simp [stepOf, ecbStep]

theorem fixed_take (n : ℕ) (input : Bytes) : Block.fixed n (input.take n) = fixed n input := by
  have hlength : n - (input.take n).length = n - input.length := by
    rw [List.length_take]
    omega
  ext1
  simp only [fixed, Block.fixed, hlength, List.take_take, Nat.min_self]

end Vectors

theorem exists_encryptIv {C : Ciphers} {data out key iv : Bytes} {cipherType : String}
    (h : encryptIv C data key iv cipherType = .ok out) (iv' : Bytes) :
    ∃ out', encryptIv C data key iv' cipherType = .ok out' := by
  obtain ⟨algorithm, mode, padding, hparse, hkey, hdata⟩ := exists_transform_iff.mp ⟨out, h⟩
  refine exists_transform_iff.mpr ⟨algorithm, mode, padding, hparse, hkey, ?_⟩
  intro cipher hcipher
  cases mode <;> exact hdata cipher hcipher

/-- Encryption under another IV returns as well. The IV counts up to its zeros at the end of
the first block, and not at all in ECB: two IVs give one ciphertext, of at least a block,
exactly when they are the same there. -/
theorem encryptIv_iv_eq_iff {C : Ciphers} {data out key iv : Bytes} {cipherType : String}
    {algorithm : Algorithm} {mode : Mode} {padding : Padding}
    (hparse : parseType cipherType = .ok (algorithm, mode, padding))
    (h : encryptIv C data key iv cipherType = .ok out) (iv' : Bytes) :
    ∃ out', encryptIv C data key iv' cipherType = .ok out' ∧ (blockSize algorithm ≤ out.length →
      (out = out' ↔ mode = .ecb ∨
        stripZeros (iv.take (blockSize algorithm)) = stripZeros (iv'.take (blockSize algorithm)))) := by
  obtain ⟨out', h'⟩ := exists_encryptIv h iv'
  refine ⟨out', h', ?_⟩
  intro hlong
  rw [encryptIv_eq hparse] at h h'
  obtain ⟨cipher, hcipher, hrun⟩ := bind_eq_ok.mp h
  rw [hcipher, ok_bind] at h'
  rw [← Block.fixed_eq_fixed_iff (List.length_take_le _ iv) (List.length_take_le _ iv'), fixed_take, fixed_take]
  constructor
  · rintro rfl
    obtain ⟨b, hb⟩ := encryptWith_firstBlock cipher (blockSize_pos algorithm) mode padding data
    rw [← stepOf_eq_stepOf_iff cipher (b := b)]
    exact Block.ext ((hb _ _ hrun hlong).symm.trans (hb _ _ h' hlong))
  · rintro (rfl | heq)
    · rw [encryptWith_ecb cipher _ (fixed (blockSize algorithm) iv), hrun] at h'
      exact Except.ok.inj h'
    · rw [← heq, hrun] at h'
      exact Except.ok.inj h'

/-- A zero after the IV is lost in CBC, and one in front of it is not. -/
theorem encryptIv_iv_eq_iff_knownAnswer : ∃ out out' out'',
    encryptIv knownAnswer [1] aesTestKey.bytes [7] "aes" = .ok out ∧
      encryptIv knownAnswer [1] aesTestKey.bytes [7, 0] "aes" = .ok out' ∧
      encryptIv knownAnswer [1] aesTestKey.bytes [0, 7] "aes" = .ok out'' ∧ out = out' ∧ out ≠ out'' := by
  have hparse : parseType "aes" = .ok (.aes, .cbc, .pkcs) := by rfl
  have haccepted : KeyAccepted .aes aesTestKey.bytes := by
    change aesTestKey.bytes.length ≤ 32
    decide
  obtain ⟨out, h⟩ := exists_transform_iff.mpr (show Returns knownAnswer [1] aesTestKey.bytes [7] "aes" false
    from ⟨.aes, .cbc, .pkcs, hparse, haccepted, fun cipher _ h => by cases h⟩)
  obtain ⟨algorithm, mode, padding, hparsed, hlength⟩ := length_transform h
  rw [hparse] at hparsed
  cases hparsed
  have hlong : 16 ≤ out.length := Nat.le_of_eq hlength.symm
  obtain ⟨out', h', hsame⟩ := encryptIv_iv_eq_iff hparse h [7, 0]
  obtain ⟨out'', h'', hother⟩ := encryptIv_iv_eq_iff hparse h [0, 7]
  refine ⟨out, out', out'', h, h', h'', ?_, ?_⟩
  · exact (hsame hlong).mpr (.inr (by decide))
  · intro heq
    exact absurd ((hother hlong).mp heq) (by decide)

section Tampering
variable {C : Ciphers} {key : Bytes} {cipherType : String} {algorithm : Algorithm} {mode : Mode}
  {padding : Padding}

/-- What adding `δ` to a ciphertext block does to its plaintext block `p` and to the next
one `q`: CBC adds `δ` to the next block, CFB to the block itself, and ECB leaves the next
block alone. -/
def Tampered {n : ℕ} (δ p q p' q' : Block n) : Mode → Prop
  | .cbc => q' = q + δ
  | .cfb => p' = p + δ
  | .ecb => q' = q

theorem tampered_unchain {n : ℕ} (cipher : Equiv.Perm (Block n)) (mode : Mode) (f c d δ : Block n) :
    ∃ p q p' q', unchain (stepOf cipher mode) f [c, d] = [p, q] ∧
      unchain (stepOf cipher mode) f [c + δ, d] = [p', q'] ∧ Tampered δ p q p' q' mode := by
  refine ⟨_, _, _, _, rfl, rfl, ?_⟩
  cases mode with
  | cbc =>
    change (cbcStep cipher (c + δ)).symm d = (cbcStep cipher c).symm d + δ
    rw [cbcStep_symm_apply, cbcStep_symm_apply, Block.sub_eq_add, Block.sub_eq_add, add_assoc]
  | cfb =>
    change (cfbStep cipher f).symm (c + δ) = (cfbStep cipher f).symm c + δ
    rw [cfbStep_symm_apply, cfbStep_symm_apply, add_sub_right_comm]
  | ecb => rfl

theorem length_decryptWith_none (C : Ciphers) {n : ℕ} (cipher : Equiv.Perm (Block n)) (iv : Block n)
    (hn : 0 < n) (hn' : n < 256) {data out : Bytes} (h : decryptWith cipher iv mode .none data = .ok out) :
    out.length = data.length := by
  have hback := (encryptWith_inverse (C := C) cipher iv hn hn' mode .none out data).mpr h
  rw [length_encryptWith cipher iv hn hback]
  cases mode <;> rfl

/-- The parts of a decryption around two blocks only depend on the last of the two. -/
theorem decryptWith_around {n : ℕ} (cipher : Equiv.Perm (Block n)) (iv : Block n) (hn : 0 < n)
    {before after : Bytes} (hbefore : n ∣ before.length)
    (hafter : mode ≠ .cfb → padding = .pkcs → after ≠ []) (c d : Block n) :
    decryptWith cipher iv mode padding (before ++ (join [c, d] ++ after)) =
      decryptWith cipher iv mode .none before >>= fun front =>
        decryptWith cipher d mode padding after >>= fun back =>
          .ok (front ++ (join (unchain (stepOf cipher mode) (feedback iv before) [c, d]) ++ back)) := by
  have hrest : mode ≠ .cfb → padding = .pkcs → join [c, d] ++ after ≠ [] := by
    intro hmode hpadding hnil
    exact hafter hmode hpadding (List.append_eq_nil_iff.mp hnil).2
  have hlast : feedback (feedback iv before) (join [c, d]) = d := feedback_join hn _ [c, d]
  rw [decryptWith_append cipher iv hn hbefore hrest]
  apply bind_congr
  intro front
  rw [decryptWith_append cipher _ hn (blocks_join_length hn [c, d]).1 hafter, decryptWith_join _ _ hn,
    ok_bind, hlast]
  cases decryptWith cipher d mode padding after with
  | error e => rfl
  | ok back => rfl

/-- Decryption does not detect a changed block. If a ciphertext decrypts, so does the one
with `δ` added to a block, as long as the padding is in a later block than the next one.
All other blocks decrypt as before, and one of the two changes by `δ` or not at all. -/
theorem decryptIv_tampered (hparse : parseType cipherType = .ok (algorithm, mode, padding))
    {iv before after out : Bytes} {c d : Block (blockSize algorithm)}
    (hbefore : blockSize algorithm ∣ before.length)
    (hafter : mode ≠ .cfb → padding = .pkcs → after ≠ [])
    (h : decryptIv C (before ++ (join [c, d] ++ after)) key iv cipherType = .ok out)
    (δ : Block (blockSize algorithm)) :
    ∃ front p q p' q' back, front.length = before.length ∧ out = front ++ (join [p, q] ++ back) ∧
      decryptIv C (before ++ (join [c + δ, d] ++ after)) key iv cipherType =
        .ok (front ++ (join [p', q'] ++ back)) ∧ Tampered δ p q p' q' mode := by
  have hpos := blockSize_pos algorithm
  rw [decryptIv_eq hparse] at h
  obtain ⟨cipher, hcipher, hrun⟩ := bind_eq_ok.mp h
  rw [decryptWith_around cipher _ hpos hbefore hafter] at hrun
  obtain ⟨front, hfront, hrun⟩ := bind_eq_ok.mp hrun
  obtain ⟨back, hback, hout⟩ := bind_eq_ok.mp hrun
  obtain ⟨p, q, p', q', hold, hnew, htampered⟩ := tampered_unchain cipher mode
    (feedback (fixed (blockSize algorithm) iv) before) c d δ
  rw [hold, Except.ok.injEq] at hout
  refine ⟨front, p, q, p', q', back, ?_, hout.symm, ?_, htampered⟩
  · exact length_decryptWith_none C cipher _ hpos (blockSize_lt algorithm) hfront
  · rw [decryptIv_eq hparse, hcipher, ok_bind, decryptWith_around cipher _ hpos hbefore hafter, hfront,
      ok_bind, hback, ok_bind, hnew]

theorem decryptIv_tampered_knownAnswer : ∃ front p q p' q' back, front.length = 0 ∧
    join [aesPlain, aesPlain] = front ++ (join [p, q] ++ back) ∧
      decryptIv knownAnswer (join [aesOut + aesPlain, aesOut]) aesTestKey.bytes [] "aes-ecb/pad:none" =
        .ok (front ++ (join [p', q'] ++ back)) ∧ Tampered aesPlain p q p' q' .ecb := by
  have hparse : parseType "aes-ecb/pad:none" = .ok (.aes, .ecb, .none) := by rfl
  have hopen : decryptIv knownAnswer ([] ++ (join [aesOut, aesOut] ++ [])) aesTestKey.bytes []
      "aes-ecb/pad:none" = .ok (join [aesPlain, aesPlain]) := by rfl
  refine decryptIv_tampered hparse ?_ (by simp) hopen aesPlain
  exact Nat.dvd_zero 16

theorem decryptWith_cbc_append {n : ℕ} (cipher : Equiv.Perm (Block n)) (iv c : Block n) (hn : 0 < n)
    {after : Bytes} (hafter : padding = .pkcs → after ≠ []) :
    decryptWith cipher iv .cbc padding (c.bytes ++ after) =
      decryptWith cipher c .cbc padding after >>= fun back => .ok ((cipher.symm c + iv).bytes ++ back) := by
  have hjoin : join [c] = c.bytes := List.append_nil _
  have haligned := (blocks_join_length hn [c]).1
  have hlast : feedback iv (join [c]) = c := feedback_join hn iv [c]
  have hfirst : join (unchain (stepOf cipher .cbc) iv [c]) = (cipher.symm c + iv).bytes := by
    rw [← Block.sub_eq_add, ← cbcStep_symm_apply]
    exact List.append_nil _
  rw [← hjoin, decryptWith_append cipher iv hn haligned (fun _ => hafter), decryptWith_join cipher iv hn,
    ok_bind, hlast, hfirst]

/-- Nor does CBC detect a changed IV, as long as the padding is in a later block than the
first: that block changes by the difference of the IVs, and the rest is decrypted as before. -/
theorem decryptIv_cbc_iv_changed (hparse : parseType cipherType = .ok (algorithm, .cbc, padding))
    {iv after out : Bytes} {c : Block (blockSize algorithm)} (hafter : padding = .pkcs → after ≠ [])
    (h : decryptIv C (c.bytes ++ after) key iv cipherType = .ok out) (iv' : Bytes) :
    ∃ p back, out = Block.bytes p ++ back ∧ decryptIv C (c.bytes ++ after) key iv' cipherType =
      .ok ((p + (fixed (blockSize algorithm) iv + fixed (blockSize algorithm) iv')).bytes ++ back) := by
  have hpos := blockSize_pos algorithm
  rw [decryptIv_eq hparse] at h
  obtain ⟨cipher, hcipher, hrun⟩ := bind_eq_ok.mp h
  rw [decryptWith_cbc_append cipher _ c hpos hafter] at hrun
  obtain ⟨back, hback, hout⟩ := bind_eq_ok.mp hrun
  rw [Except.ok.injEq] at hout
  refine ⟨cipher.symm c + fixed (blockSize algorithm) iv, back, hout.symm, ?_⟩
  have hcancel : cipher.symm c + fixed (blockSize algorithm) iv + (fixed (blockSize algorithm) iv +
      fixed (blockSize algorithm) iv') = cipher.symm c + fixed (blockSize algorithm) iv' := by
    rw [← add_assoc, ← Block.sub_eq_add (cipher.symm c + _), add_sub_cancel_right]
  rw [decryptIv_eq hparse, hcipher, ok_bind, decryptWith_cbc_append cipher _ c hpos hafter, hback, ok_bind,
    hcancel]

theorem decryptIv_cbc_iv_changed_knownAnswer : ∃ p back, aesPlain.bytes = Block.bytes p ++ back ∧
    decryptIv knownAnswer (aesOut.bytes ++ (fixed 16 (List.replicate 16 16) + aesOut).bytes)
        aesTestKey.bytes [1] "aes" = .ok ((p + (fixed 16 [] + fixed 16 [1])).bytes ++ back) := by
  have hparse : parseType "aes" = .ok (.aes, .cbc, .pkcs) := by rfl
  have hopen : decryptIv knownAnswer (aesOut.bytes ++ (fixed 16 (List.replicate 16 16) + aesOut).bytes)
      aesTestKey.bytes [] "aes" = .ok aesPlain.bytes := by rfl
  have hafter : (fixed 16 (List.replicate 16 16) + aesOut).bytes ≠ [] := by decide
  exact decryptIv_cbc_iv_changed hparse (fun _ => hafter) hopen [1]

end Tampering

end PgCrypto.Raw
