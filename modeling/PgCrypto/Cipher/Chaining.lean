import Mathlib.Algebra.Group.Units.Equiv
import PgCrypto.Cipher.Padding

/-! # Chaining

ECB, CBC and CFB are instances of one scheme: a block is sent through a permutation that
the ciphertext block before it selects. A chained run over a concatenation is therefore
the run over the first part followed by a run over the second that starts from the last
ciphertext block, and each plaintext block depends on two ciphertext blocks only. The
same holds on byte strings, padded or with a partial last segment.
-/
namespace PgCrypto.Cipher

section Blocks
variable {G : Type} (S : G → Equiv.Perm G)

/-- Each block through the permutation selected by the ciphertext block before it. -/
def chain : G → List G → List G
  | _, [] => []
  | f, p :: ps => S f p :: chain (S f p) ps

def unchain : G → List G → List G
  | _, [] => []
  | f, c :: cs => (S f).symm c :: unchain c cs

theorem unchain_chain (f : G) (ps : List G) : unchain S f (chain S f ps) = ps := by
  induction ps generalizing f with
  | nil => rfl
  | cons p ps ih => rw [chain, unchain, ih, Equiv.symm_apply_apply]

theorem chain_unchain (f : G) (cs : List G) : chain S f (unchain S f cs) = cs := by
  induction cs generalizing f with
  | nil => rfl
  | cons c cs ih => rw [unchain, chain, Equiv.apply_symm_apply, ih]

theorem length_chain (f : G) (ps : List G) : (chain S f ps).length = ps.length := by
  induction ps generalizing f with
  | nil => rfl
  | cons p ps ih => rw [chain, List.length_cons, List.length_cons, ih]

theorem length_unchain (f : G) (cs : List G) : (unchain S f cs).length = cs.length := by
  rw [← length_chain S f, chain_unchain]

theorem chain_append (f : G) (ps qs : List G) :
    chain S f (ps ++ qs) = chain S f ps ++ chain S ((chain S f ps).getLastD f) qs := by
  induction ps generalizing f with
  | nil => rfl
  | cons p ps ih => rw [List.cons_append, chain, chain, ih, List.cons_append, List.getLastD_cons]

theorem unchain_append (f : G) (cs ds : List G) :
    unchain S f (cs ++ ds) = unchain S f cs ++ unchain S (cs.getLastD f) ds := by
  induction cs generalizing f with
  | nil => rfl
  | cons c cs ih => rw [List.cons_append, unchain, unchain, ih, List.cons_append, List.getLastD_cons]

/-- The block mode of a chain. -/
def chained (f : G) : BlockMode G where
  encrypt := chain S f
  decrypt := unchain S f
  decrypt_encrypt := unchain_chain S f
  encrypt_decrypt := chain_unchain S f
  length_encrypt := length_chain S f

end Blocks

section Modes
variable {G : Type} [AddGroup G] (E : Equiv.Perm G)

def ecbStep (_ : G) : Equiv.Perm G := E
def cbcStep (f : G) : Equiv.Perm G := (Equiv.addRight f).trans E
def cfbStep (f : G) : Equiv.Perm G := Equiv.addRight (E f)

theorem cbcStep_apply (f p : G) : cbcStep E f p = E (p + f) := rfl
theorem cbcStep_symm_apply (f c : G) : (cbcStep E f).symm c = E.symm c - f := by
  rw [Equiv.symm_apply_eq, cbcStep_apply, sub_add_cancel, E.apply_symm_apply]
theorem cfbStep_apply (f p : G) : cfbStep E f p = p + E f := rfl
theorem cfbStep_symm_apply (f c : G) : (cfbStep E f).symm c = c - E f := by
  rw [Equiv.symm_apply_eq, cfbStep_apply, sub_add_cancel]

theorem cbcEncrypt_eq_chain (iv : G) (ps : List G) : cbcEncrypt E iv ps = chain (cbcStep E) iv ps := by
  induction ps generalizing iv with
  | nil => rfl
  | cons p ps ih => rw [cbcEncrypt, chain, cbcStep_apply, ih]

theorem cbcDecrypt_eq_unchain (iv : G) (cs : List G) :
    cbcDecrypt E iv cs = unchain (cbcStep E) iv cs := by
  induction cs generalizing iv with
  | nil => rfl
  | cons c cs ih => rw [cbcDecrypt, unchain, cbcStep_symm_apply, ih]

theorem cbc_eq_chained (iv : G) : cbc E iv = chained (cbcStep E) iv := by
  have henc : cbcEncrypt E iv = chain (cbcStep E) iv := funext (cbcEncrypt_eq_chain E iv)
  have hdec : cbcDecrypt E iv = unchain (cbcStep E) iv := funext (cbcDecrypt_eq_unchain E iv)
  simp only [cbc, chained, henc, hdec]

omit [AddGroup G] in
/-- ECB forgets the feedback. -/
theorem ecb_eq_chained (f : G) : ecb E = chained (ecbStep E) f := by
  have henc : ∀ f, List.map E = chain (ecbStep E) f := by
    intro f
    funext ps
    induction ps generalizing f with
    | nil => rfl
    | cons p ps ih => rw [List.map_cons, ih (E p)]; rfl
  have hdec : ∀ f, List.map E.symm = unchain (ecbStep E) f := by
    intro f
    funext cs
    induction cs generalizing f with
    | nil => rfl
    | cons c cs ih => rw [List.map_cons, ih c]; rfl
  simp only [ecb, chained, henc f, hdec f]

theorem cfbEncrypt_eq_chain (iv : G) (ps : List G) :
    cfbEncrypt E iv ps = (chain (cfbStep E) iv ps, (chain (cfbStep E) iv ps).getLastD iv) := by
  induction ps generalizing iv with
  | nil => rfl
  | cons p ps ih => rw [cfbEncrypt, chain, ih, cfbStep_apply, List.getLastD_cons]

theorem cfbDecrypt_eq_unchain (iv : G) (cs : List G) :
    cfbDecrypt E iv cs = (unchain (cfbStep E) iv cs, cs.getLastD iv) := by
  induction cs generalizing iv with
  | nil => rfl
  | cons c cs ih => rw [cfbDecrypt, unchain, ih, cfbStep_symm_apply, List.getLastD_cons]

end Modes

/-- A block is its own inverse under XOR. -/
theorem Block.sub_eq_add {n : ℕ} (x y : Block n) : x - y = x + y := sub_eq_add_neg x y

section Cutting
variable {n : ℕ}

theorem getLastD_append {α : Type} (xs ys : List α) (a : α) :
    (xs ++ ys).getLastD a = ys.getLastD (xs.getLastD a) := by
  induction xs generalizing a with
  | nil => rfl
  | cons x xs ih => rw [List.cons_append, List.getLastD_cons, ih, List.getLastD_cons]

/-- The block that feeds what comes after the data: its last one, or the given one. -/
def feedback (f : Block n) (data : Bytes) : Block n :=
  if data = [] then f else Block.fixed n (data.drop (data.length - n))

theorem feedback_join (hn : 0 < n) (f : Block n) (bs : List (Block n)) :
    feedback f (join bs) = bs.getLastD f := by
  rcases List.eq_nil_or_concat bs with rfl | ⟨front, b, rfl⟩
  · rfl
  · have hb := b.length_eq
    have hjoin : join (front.concat b) = join front ++ b.bytes := by simp [join]
    have hne : join front ++ b.bytes ≠ [] := by
      intro h
      have hlength := congrArg List.length h
      rw [List.length_append, hb, List.length_nil] at hlength
      omega
    have hdrop : (join front ++ b.bytes).drop ((join front ++ b.bytes).length - n) = b.bytes := by
      rw [List.length_append, hb, Nat.add_sub_cancel, List.drop_left]
    have hfixed := Block.fixed_append b []
    rw [List.append_nil] at hfixed
    rw [hjoin, feedback, if_neg hne, hdrop, hfixed, List.concat_eq_append, List.getLastD_concat]

theorem join_append (bs cs : List (Block n)) : join (bs ++ cs) = join bs ++ join cs :=
  List.flatMap_append

/-- Aligned data is cut on its own, whatever follows. -/
theorem cut_append (hn : 0 < n) {first : Bytes} (h : n ∣ first.length) (second : Bytes) :
    blocks n ((first ++ second).length / n) (first ++ second) =
        blocks n (first.length / n) first ++ blocks n (second.length / n) second ∧
      tail n (first ++ second) = tail n second := by
  have hfirst := join_blocks_aligned h
  have hsecond := join_blocks_append_tail (n := n) second
  have hdata : first ++ second = join (blocks n (first.length / n) first ++
      blocks n (second.length / n) second) ++ tail n second := by
    rw [join_append, hfirst, List.append_assoc, hsecond]
  obtain ⟨hlen, hblocks, htail⟩ := cut_join_append (b := blocks n (first.length / n) first ++
    blocks n (second.length / n) second) (length_tail hn second)
  rw [← hdata] at hlen hblocks htail
  exact ⟨by rw [hlen, hblocks], htail⟩

theorem blocks_append (hn : 0 < n) {first : Bytes} (h : n ∣ first.length) (second : Bytes) :
    blocks n ((first ++ second).length / n) (first ++ second) =
      blocks n (first.length / n) first ++ blocks n (second.length / n) second := (cut_append hn h second).1

theorem tail_eq_nil {data : Bytes} (h : n ∣ data.length) : tail n data = [] := by
  rw [tail, Nat.div_mul_cancel h, List.drop_length]

theorem pad_append {scheme : PaddingScheme} {first : Bytes} (h : n ∣ first.length) (second : Bytes) :
    pad n scheme (first ++ second) = (pad n scheme second).map (first ++ ·) := by
  obtain ⟨k, hk⟩ := h
  cases scheme with
  | pkcs7 =>
    have hcount : padLength n (first ++ second).length = padLength n second.length := by
      rw [padLength, padLength, List.length_append, hk, Nat.mul_add_mod]
    simp only [pad, hcount, Option.map_some, List.append_assoc]
  | noPadding =>
    have hdvd : n ∣ (first ++ second).length ↔ n ∣ second.length := by
      rw [List.length_append, hk, Nat.dvd_add_right (Nat.dvd_mul_right n k)]
    simp only [pad, hdvd]
    split
    · rfl
    · rfl

/-- Unpadding looks at the last block only. -/
theorem unpad_append {scheme : PaddingScheme} {second : Bytes} (h : n ∣ second.length)
    (hne : scheme = .pkcs7 → second ≠ []) (first : Bytes) :
    unpad n scheme (first ++ second) = (unpad n scheme second).map (first ++ ·) := by
  cases scheme with
  | noPadding => rfl
  | pkcs7 =>
    have hlast : (first ++ second).getLast? = second.getLast? := by
      rw [List.getLast?_append, List.getLast?_eq_some_getLast (hne rfl)]
      rfl
    have hlong : n ≤ second.length := Nat.le_of_dvd (List.length_pos_iff.mpr (hne rfl)) h
    simp only [unpad, hlast]
    cases second.getLast? with
    | none => rfl
    | some value =>
      dsimp only
      split
      · rfl
      · next hrange =>
        have hcount : (first ++ second).length - value.toNat =
            first.length + (second.length - value.toNat) := by
          rw [List.length_append]
          omega
        rw [hcount, List.drop_length_add_append, List.take_length_add_append]
        split
        · rfl
        · rfl

end Cutting

section Padded
variable {n : ℕ} (S : Block n → Equiv.Perm (Block n)) (f : Block n)

theorem encryptPadded_noPadding (mode : BlockMode (Block n)) {data : Bytes} (h : n ∣ data.length) :
    encryptPadded mode .noPadding data = some (join (mode.encrypt (blocks n (data.length / n) data))) := by
  rw [encryptPadded, pad, if_pos h, Option.map_some]

theorem decryptPadded_noPadding (mode : BlockMode (Block n)) {data : Bytes} (h : n ∣ data.length) :
    decryptPadded mode .noPadding data = some (join (mode.decrypt (blocks n (data.length / n) data))) := by
  rw [decryptPadded, if_pos h, unpad]

theorem encryptPadded_append (hn : 0 < n) {scheme : PaddingScheme} {first out : Bytes}
    (h : n ∣ first.length) (hout : encryptPadded (chained S f) .noPadding first = some out)
    (second : Bytes) : encryptPadded (chained S f) scheme (first ++ second) =
      (encryptPadded (chained S (feedback f out)) scheme second).map (out ++ ·) := by
  rw [encryptPadded_noPadding _ h, Option.some.injEq] at hout
  rw [encryptPadded, pad_append h, encryptPadded, Option.map_map, Option.map_map]
  congr 1
  funext padded
  have hlast : feedback f out = (chain S f (blocks n (first.length / n) first)).getLastD f := by
    rw [← hout]
    exact feedback_join hn f _
  rw [Function.comp_apply, Function.comp_apply, blocks_append hn h, hlast, ← hout]
  simp only [chained, chain_append, join_append]

theorem decryptPadded_append (hn : 0 < n) {scheme : PaddingScheme} {first out : Bytes}
    (h : n ∣ first.length) (hout : decryptPadded (chained S f) .noPadding first = some out)
    {second : Bytes} (hne : scheme = .pkcs7 → second ≠ []) :
    decryptPadded (chained S f) scheme (first ++ second) =
      (decryptPadded (chained S (feedback f first)) scheme second).map (out ++ ·) := by
  rw [decryptPadded_noPadding _ h, Option.some.injEq] at hout
  have hdvd : n ∣ (first ++ second).length ↔ n ∣ second.length := by
    rw [List.length_append, Nat.dvd_add_right h]
  have hlast : feedback f first = (blocks n (first.length / n) first).getLastD f := by
    rw [← feedback_join hn, join_blocks_aligned h]
  unfold decryptPadded
  simp only [hdvd]
  split
  · next haligned =>
    have hsecond : n ∣ (join ((chained S (feedback f first)).decrypt
        (blocks n (second.length / n) second))).length := (blocks_join_length hn _).1
    have hpart : scheme = .pkcs7 → join ((chained S (feedback f first)).decrypt
        (blocks n (second.length / n) second)) ≠ [] := by
      intro hscheme hnil
      have hlength := congrArg List.length hnil
      rw [length_join, chained, length_unchain, length_blocks, Nat.div_mul_cancel haligned] at hlength
      exact hne hscheme (List.length_eq_zero_iff.mp hlength)
    rw [← unpad_append hsecond hpart, blocks_append hn h, ← hout]
    simp only [chained, unchain_append, join_append, hlast]
  · rfl

end Padded

section Segments
variable {n : ℕ} (E : Equiv.Perm (Block n)) (iv : Block n)

theorem cfbEncryptBytes_eq (data : Bytes) : cfbEncryptBytes E iv data =
    join (chain (cfbStep E) iv (blocks n (data.length / n) data)) ++ xorBytes (tail n data)
      (E ((chain (cfbStep E) iv (blocks n (data.length / n) data)).getLastD iv)).bytes := by
  simp only [cfbEncryptBytes, segmentBytes, cfbEncrypt_eq_chain]

theorem cfbDecryptBytes_eq (data : Bytes) : cfbDecryptBytes E iv data =
    join (unchain (cfbStep E) iv (blocks n (data.length / n) data)) ++ xorBytes (tail n data)
      (E ((blocks n (data.length / n) data).getLastD iv)).bytes := by
  simp only [cfbDecryptBytes, segmentBytes, cfbDecrypt_eq_unchain]

theorem cfbEncryptBytes_append (hn : 0 < n) {first : Bytes} (h : n ∣ first.length) (second : Bytes) :
    cfbEncryptBytes E iv (first ++ second) = cfbEncryptBytes E iv first ++
      cfbEncryptBytes E (feedback iv (cfbEncryptBytes E iv first)) second := by
  have hfirst : cfbEncryptBytes E iv first =
      join (chain (cfbStep E) iv (blocks n (first.length / n) first)) := by
    rw [cfbEncryptBytes_eq, tail_eq_nil h]
    exact List.append_nil _
  obtain ⟨hblocks, htail⟩ := cut_append hn h second
  rw [hfirst, feedback_join hn, cfbEncryptBytes_eq, cfbEncryptBytes_eq, hblocks, htail, chain_append,
    join_append, List.append_assoc]
  rw [getLastD_append]

theorem cfbDecryptBytes_append (hn : 0 < n) {first : Bytes} (h : n ∣ first.length) (second : Bytes) :
    cfbDecryptBytes E iv (first ++ second) = cfbDecryptBytes E iv first ++
      cfbDecryptBytes E (feedback iv first) second := by
  have hfirst : cfbDecryptBytes E iv first =
      join (unchain (cfbStep E) iv (blocks n (first.length / n) first)) := by
    rw [cfbDecryptBytes_eq, tail_eq_nil h]
    exact List.append_nil _
  have hlast : feedback iv first = (blocks n (first.length / n) first).getLastD iv := by
    rw [← feedback_join hn, join_blocks_aligned h]
  obtain ⟨hblocks, htail⟩ := cut_append hn h second
  rw [hfirst, hlast, cfbDecryptBytes_eq, cfbDecryptBytes_eq, hblocks, htail, unchain_append,
    join_append, List.append_assoc, getLastD_append]

/-- Up to a block of data only meets the first keystream block. -/
theorem cfbEncryptBytes_of_le (hn : 0 < n) {data : Bytes} (h : data.length ≤ n) :
    cfbEncryptBytes E iv data = xorBytes data (E iv).bytes := by
  rcases Nat.lt_or_eq_of_le h with h | h
  · have hzero : data.length / n = 0 := Nat.div_eq_of_lt h
    have htail : tail n data = data := by rw [tail, hzero, Nat.zero_mul, List.drop_zero]
    rw [cfbEncryptBytes_eq, hzero, htail]
    rfl
  · have hone : data.length / n = 1 := by rw [h, Nat.div_self hn]
    have hwhole : n ∣ data.length := ⟨1, by omega⟩
    have hblock : (Block.fixed n data).bytes = data := by
      rw [Block.fixed_bytes_of_le (Nat.le_of_eq h.symm), ← h, List.take_length]
    rw [cfbEncryptBytes_eq, hone, tail_eq_nil hwhole]
    change (Block.fixed n data + E iv).bytes ++ [] ++ [] = xorBytes data (E iv).bytes
    rw [Block.bytes_add, hblock, List.append_nil, List.append_nil]

theorem cfbEncryptBytes_take_of_le (hn : 0 < n) (data : Bytes) {k : ℕ} (hk : k ≤ n) :
    (cfbEncryptBytes E iv data).take k = cfbEncryptBytes E iv (data.take k) := by
  have hfirst : ∀ d : Bytes, d.length ≤ n →
      (cfbEncryptBytes E iv d).take k = cfbEncryptBytes E iv (d.take k) := by
    intro d hd
    have hle : (d.take k).length ≤ n := by
      rw [List.length_take]
      omega
    rw [cfbEncryptBytes_of_le E iv hn hd, cfbEncryptBytes_of_le E iv hn hle]
    apply List.ext_getElem
    · rw [List.length_take, length_xorBytes, length_xorBytes, List.length_take, Block.length_eq]
      omega
    · intro i _ _
      simp [xorBytes]
  rcases Nat.le_total data.length n with hd | hd
  · exact hfirst data hd
  · have hlength : (data.take n).length = n := by
      rw [List.length_take]
      omega
    have hwhole : n ∣ (data.take n).length := ⟨1, by omega⟩
    have hsplit := cfbEncryptBytes_append E iv hn hwhole (data.drop n)
    rw [List.take_append_drop] at hsplit
    rw [hsplit, List.take_append_of_le_length (by rw [length_cfbEncryptBytes E iv hn]; omega),
      hfirst (data.take n) (Nat.le_of_eq hlength), List.take_take, Nat.min_eq_left hk]

/-- CFB is a stream: the beginning of a ciphertext is the ciphertext of the beginning. -/
theorem cfbEncryptBytes_take (hn : 0 < n) (data : Bytes) {k : ℕ} (hk : k ≤ data.length) :
    (cfbEncryptBytes E iv data).take k = cfbEncryptBytes E iv (data.take k) := by
  -- the whole blocks before byte `k` are encrypted on their own; the rest meets one block
  obtain ⟨m, r, rfl, hm, hr⟩ : ∃ m r, k = m + r ∧ n ∣ m ∧ r ≤ n :=
    ⟨n * (k / n), k % n, (Nat.div_add_mod k n).symm, Nat.dvd_mul_right n _, (Nat.mod_lt k hn).le⟩
  have hlength : (data.take m).length = m := by
    rw [List.length_take]
    omega
  have haligned : n ∣ (data.take m).length := by rwa [hlength]
  have hfirst := cfbEncryptBytes_append E iv hn haligned
  have hhead := length_cfbEncryptBytes E iv hn (data.take m)
  rw [hlength] at hhead
  have hdata := hfirst (data.drop m)
  rw [List.take_append_drop] at hdata
  calc (cfbEncryptBytes E iv data).take (m + r)
      = cfbEncryptBytes E iv (data.take m) ++ (cfbEncryptBytes E
          (feedback iv (cfbEncryptBytes E iv (data.take m))) (data.drop m)).take r := by
        rw [hdata]
        nth_rewrite 1 [← hhead]
        rw [List.take_length_add_append]
    _ = cfbEncryptBytes E iv (data.take m ++ (data.drop m).take r) := by
        rw [cfbEncryptBytes_take_of_le E _ hn _ hr, hfirst]
    _ = cfbEncryptBytes E iv (data.take (m + r)) := by rw [List.take_add]

end Segments

end PgCrypto.Cipher
