import PgCrypto.Cipher.Modes

/-! # Padding

PKCS#7 fills the last block with copies of the number of bytes added, at least one and
at most a block; the other scheme adds nothing and takes aligned data only. Unpadding
checks every byte, so on aligned data it succeeds exactly on padded data, and a
padded run of a block mode is inverted by its unpadded inverse run.
-/
namespace PgCrypto.Cipher

inductive PaddingScheme where
  | pkcs7
  | noPadding
  deriving DecidableEq, Repr

variable {n : ℕ}

def padLength (n length : ℕ) : ℕ := n - length % n

def pad (n : ℕ) : PaddingScheme → Bytes → Option Bytes
  | .pkcs7, data =>
    let count := padLength n data.length
    some (data ++ List.replicate count count.toUInt8)
  | .noPadding, data => if n ∣ data.length then some data else none

/-- Unpadding of decrypted data, which is aligned: the last block of PKCS#7 tells how
many bytes were added, and all of them are checked. -/
def unpad (n : ℕ) : PaddingScheme → Bytes → Option Bytes
  | .pkcs7, data =>
    match data.getLast? with
    | none => none
    | some value =>
      if value = 0 ∨ n < value.toNat then none
      else if (data.drop (data.length - value.toNat)).all (· == value) then
        some (data.take (data.length - value.toNat))
      else none
  | .noPadding, data => some data

theorem padLength_pos (hn : 0 < n) (length : ℕ) : 0 < padLength n length := by
  have h := Nat.mod_lt length hn
  unfold padLength
  omega

theorem padLength_le (n length : ℕ) : padLength n length ≤ n := Nat.sub_le _ _

theorem add_padLength (hn : 0 < n) (length : ℕ) : length + padLength n length = (length / n + 1) * n := by
  have hmod := Nat.mod_lt length hn
  have hdiv := Nat.div_add_mod length n
  rw [padLength, Nat.succ_mul, Nat.mul_comm]
  omega

/-- An aligned length less a count within the block has that count to fill up. -/
theorem padLength_sub {total count : ℕ} (hcount : 0 < count) (hle : count ≤ n) (htotal : n ∣ total)
    (hsub : count ≤ total) : padLength n (total - count) = count := by
  obtain ⟨k, rfl⟩ := htotal
  cases k with
  | zero => omega
  | succ k =>
    have hrest : n * (k + 1) - count = (n - count) + n * k := by
      rw [Nat.mul_succ]
      omega
    rw [padLength, hrest, Nat.add_mul_mod_self_left, Nat.mod_eq_of_lt (by omega)]
    omega

theorem toNat_toUInt8_of_lt {count : ℕ} (h : count < 256) : count.toUInt8.toNat = count := by
  simpa using h

theorem pad_noPadding_eq_some {data padded : Bytes} :
    pad n .noPadding data = some padded ↔ n ∣ data.length ∧ data = padded := by
  rw [pad, Option.ite_none_right_eq_some, Option.some.injEq]

def paddedLength (n : ℕ) : PaddingScheme → ℕ → ℕ
  | .pkcs7, length => (length / n + 1) * n
  | .noPadding, length => length

theorem length_of_pad {scheme : PaddingScheme} {data padded : Bytes} (hn : 0 < n)
    (h : pad n scheme data = some padded) : padded.length = paddedLength n scheme data.length := by
  cases scheme with
  | pkcs7 =>
    cases h
    rw [List.length_append, List.length_replicate, add_padLength hn]
    rfl
  | noPadding =>
    obtain ⟨-, rfl⟩ := pad_noPadding_eq_some.mp h
    rfl

theorem dvd_length_of_pad {scheme : PaddingScheme} {data padded : Bytes} (hn : 0 < n)
    (h : pad n scheme data = some padded) : n ∣ padded.length := by
  cases scheme with
  | pkcs7 =>
    rw [length_of_pad hn h]
    exact Nat.dvd_mul_left n _
  | noPadding =>
    obtain ⟨hd, rfl⟩ := pad_noPadding_eq_some.mp h
    exact hd

theorem unpad_pad {scheme : PaddingScheme} {data padded : Bytes} (hn : 0 < n) (hn' : n < 256)
    (h : pad n scheme data = some padded) : unpad n scheme padded = some data := by
  cases scheme with
  | noPadding =>
    obtain ⟨-, rfl⟩ := pad_noPadding_eq_some.mp h
    rfl
  | pkcs7 =>
    cases h
    have hpos := padLength_pos hn data.length
    have hle := padLength_le n data.length
    generalize padLength n data.length = count at hpos hle ⊢
    have hvalue : count.toUInt8.toNat = count := toNat_toUInt8_of_lt (by omega)
    have hlast : (data ++ List.replicate count count.toUInt8).getLast? = some count.toUInt8 := by
      rw [List.getLast?_append, List.getLast?_replicate, if_neg (by omega)]
      rfl
    have hzero : ¬ (count.toUInt8 = 0 ∨ n < count.toUInt8.toNat) := by
      rw [hvalue, ← UInt8.toNat_inj, hvalue]
      change ¬ (count = 0 ∨ n < count)
      omega
    have hlength : (data ++ List.replicate count count.toUInt8).length - count = data.length := by
      rw [List.length_append, List.length_replicate]
      omega
    rw [unpad, hlast]
    dsimp only
    rw [if_neg hzero, hvalue, hlength, List.drop_left, List.take_left, if_pos (by simp)]

/-- What unpadding has checked: a count within the block, and that many copies of it at
the end. -/
theorem unpad_pkcs7_eq_some {data padded : Bytes} (h : unpad n .pkcs7 padded = some data) :
    ∃ value : UInt8, 0 < value.toNat ∧ value.toNat ≤ n ∧ padded ≠ [] ∧
      (∀ b ∈ padded.drop (padded.length - value.toNat), b = value) ∧
      data = padded.take (padded.length - value.toNat) := by
  unfold unpad at h
  dsimp only at h
  split at h
  · cases h
  · next value hlast =>
    split at h
    · cases h
    · next hrange =>
      split at h
      · next hall =>
        cases h
        rw [not_or, ← UInt8.toNat_inj] at hrange
        have hne : padded ≠ [] := by
          intro hnil
          rw [hnil] at hlast
          cases hlast
        refine ⟨value, Nat.pos_of_ne_zero hrange.1, Nat.le_of_not_lt hrange.2, hne, ?_, rfl⟩
        intro b hb
        simpa using List.all_eq_true.mp hall b hb
      · cases h

theorem pad_unpad {scheme : PaddingScheme} {data padded : Bytes} (haligned : n ∣ padded.length)
    (h : unpad n scheme padded = some data) : pad n scheme data = some padded := by
  cases scheme with
  | noPadding =>
    cases h
    exact if_pos haligned
  | pkcs7 =>
    obtain ⟨value, hpos, hle, hne, hall, rfl⟩ := unpad_pkcs7_eq_some h
    have hfit : value.toNat ≤ padded.length :=
      Nat.le_trans hle (Nat.le_of_dvd (List.length_pos_iff.mpr hne) haligned)
    have hcount : padLength n (padded.length - value.toNat) = value.toNat :=
      padLength_sub hpos hle haligned hfit
    have hdrop : padded.drop (padded.length - value.toNat) = List.replicate value.toNat value := by
      rw [List.eq_replicate_iff]
      exact ⟨by rw [List.length_drop]; omega, hall⟩
    have htake : (padded.take (padded.length - value.toNat)).length = padded.length - value.toNat := by
      rw [List.length_take]
      omega
    have hback : value.toNat.toUInt8 = value := by simp
    simp only [pad, htake, hcount, Option.some.injEq]
    rw [hback, ← hdrop, List.take_append_drop]

/-- The data ends in a count within the block, written that many times. -/
def EndsInPadding (n : ℕ) (data : Bytes) : Prop :=
  ∃ rest count, 0 < count ∧ count ≤ n ∧ data = rest ++ List.replicate count count.toUInt8

theorem exists_unpad_pkcs7_iff (hn : 0 < n) (hn' : n < 256) {padded : Bytes}
    (haligned : n ∣ padded.length) :
    (∃ data, unpad n .pkcs7 padded = some data) ↔ EndsInPadding n padded := by
  constructor
  · rintro ⟨data, h⟩
    have hpad := pad_unpad haligned h
    cases hpad
    exact ⟨data, _, padLength_pos hn _, padLength_le n _, rfl⟩
  · rintro ⟨rest, count, hpos, hle, rfl⟩
    rw [List.length_append, List.length_replicate] at haligned
    have hcount := padLength_sub hpos hle haligned (by omega)
    rw [Nat.add_sub_cancel] at hcount
    refine ⟨rest, unpad_pad hn hn' ?_⟩
    rw [pad, hcount]

/-- A padded run of a block mode; the padding may refuse the data. -/
def encryptPadded (mode : BlockMode (Block n)) (scheme : PaddingScheme) (data : Bytes) : Option Bytes :=
  (pad n scheme data).map (fun padded => join (mode.encrypt (blocks n (padded.length / n) padded)))

def decryptPadded (mode : BlockMode (Block n)) (scheme : PaddingScheme) (data : Bytes) : Option Bytes :=
  if n ∣ data.length then unpad n scheme (join (mode.decrypt (blocks n (data.length / n) data)))
  else none

/-- Joined blocks are aligned and cut into the same blocks again. -/
theorem blocks_join_length (hn : 0 < n) (bs : List (Block n)) :
    n ∣ (join bs).length ∧ blocks n ((join bs).length / n) (join bs) = bs := by
  have hdvd : n ∣ (join bs).length := by
    rw [length_join]
    exact Nat.dvd_mul_left n _
  have hk : (join bs).length / n = bs.length := by rw [length_join, Nat.mul_div_cancel _ hn]
  exact ⟨hdvd, by rw [hk, blocks_join]⟩

theorem encryptPadded_eq_some_iff (hn : 0 < n) (hn' : n < 256) (mode : BlockMode (Block n))
    (scheme : PaddingScheme) {data out : Bytes} :
    encryptPadded mode scheme data = some out ↔ decryptPadded mode scheme out = some data := by
  constructor
  · intro h
    obtain ⟨padded, hpad, rfl⟩ := Option.map_eq_some_iff.mp h
    have haligned := dvd_length_of_pad hn hpad
    obtain ⟨hdvd, hblocks⟩ := blocks_join_length hn (mode.encrypt (blocks n (padded.length / n) padded))
    rw [decryptPadded, if_pos hdvd, hblocks, mode.decrypt_encrypt, join_blocks_aligned haligned]
    exact unpad_pad hn hn' hpad
  · intro h
    unfold decryptPadded at h
    split at h
    · next haligned =>
      obtain ⟨hdvd, hblocks⟩ := blocks_join_length hn (mode.decrypt (blocks n (out.length / n) out))
      rw [encryptPadded, pad_unpad hdvd h, Option.map_some, hblocks, mode.encrypt_decrypt,
        join_blocks_aligned haligned]
    · cases h

/-- A padded run refuses unaligned data when it adds nothing, and only then. -/
theorem exists_encryptPadded_iff {mode : BlockMode (Block n)} {scheme : PaddingScheme} {data : Bytes} :
    (∃ out, encryptPadded mode scheme data = some out) ↔ (scheme = .noPadding → n ∣ data.length) := by
  cases scheme with
  | pkcs7 => simp [encryptPadded, pad]
  | noPadding => simp [encryptPadded, pad]

theorem exists_decryptPadded_iff (hn : 0 < n) (hn' : n < 256) {mode : BlockMode (Block n)}
    {scheme : PaddingScheme} {data : Bytes} :
    (∃ out, decryptPadded mode scheme data = some out) ↔ n ∣ data.length ∧ (scheme = .pkcs7 →
      EndsInPadding n (join (mode.decrypt (blocks n (data.length / n) data)))) := by
  have hdvd := (blocks_join_length hn (mode.decrypt (blocks n (data.length / n) data))).1
  rw [← exists_unpad_pkcs7_iff hn hn' hdvd]
  unfold decryptPadded
  split
  · next haligned =>
    cases scheme with
    | pkcs7 => simp [haligned]
    | noPadding => simp [haligned, unpad]
  · next haligned => simp [haligned]

theorem length_encryptPadded (hn : 0 < n) {mode : BlockMode (Block n)} {scheme : PaddingScheme}
    {data out : Bytes} (h : encryptPadded mode scheme data = some out) :
    out.length = paddedLength n scheme data.length := by
  obtain ⟨padded, hpad, rfl⟩ := Option.map_eq_some_iff.mp h
  have haligned := dvd_length_of_pad hn hpad
  rw [length_join, mode.length_encrypt, length_blocks, Nat.div_mul_cancel haligned]
  exact length_of_pad hn hpad

end PgCrypto.Cipher
