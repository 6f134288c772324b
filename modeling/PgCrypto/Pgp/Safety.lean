import PgCrypto.Pgp.Symmetric

/-! # Accepted options configure a safe encryption run

The ranges checked by the option parser are exactly what the encryption path relies
on without checking again: the S2K mode is one of the three arms, the iteration
count is encodable, the compression level is accepted, and a message whose session
key is derived from the password names the cipher that the key was derived for.
-/
namespace PgCrypto.Pgp
open Str

/-- The item asks for messages without integrity protection. -/
def AsksDisableMdc (item : String) : Prop :=
  ∃ name value, splitOnce item '=' = some (name, value) ∧
    toAsciiLowercase (trim name) = "disable-mdc" ∧ trim value = "1"

/-- What the parser guarantees of the options it returns for a string and a flag. -/
structure SafeOptions (o : String) (text : Bool) (P : PgpOptions) : Prop where
  textInput : P.textInput = text
  s2kMode : P.s2kMode = 0 ∨ P.s2kMode = 1 ∨ P.s2kMode = 3
  s2kCount : ∀ count, P.s2kCount = some count → 1024 ≤ count ∧ count ≤ 65011712 ∧ P.s2kMode = 3
  compressionLevel : P.compressionLevel ≤ 9
  integrity : ∀ item ∈ optionItems o, ¬ AsksDisableMdc item

/-- What the guarantees mean for the runs that use the options. A count is only ever
passed in range: the outcome does not change when the constructor of iterated
specifiers is replaced by one that differs on every other count. -/
structure SafeRuns (S : Sequoia) (o : String) (text : Bool) (P : PgpOptions) : Prop where
  s2k_reached : ∀ rng, ∃ made, makeS2k S P rng = .ok made
  noPanic : ∀ data password rng, NoPanic (symEncrypt S data password o text rng)
  count_range : ∀ rng count rng', s2kCountOrDefault S P rng = .ok (count, rng') →
    1024 ≤ count ∧ count ≤ 65011712
  count_only : ∀ newIterated : HashAlgorithm → UInt32 → S.Rng → Except String (S2K × S.Rng),
    (∀ hash count rng, 1024 ≤ count → count ≤ 65011712 →
      newIterated hash count rng = S.newIterated hash count rng) →
    ∀ data password rng, symEncrypt { S with newIterated := newIterated } data password o text rng =
      symEncrypt S data password o text rng
  default_count : ∀ rng count rng', defaultS2kCount S rng = .ok (count, rng') →
    65536 ≤ count ∧ count ≤ 253952 ∧ ∃ drawn, S.random 4 rng = .ok (drawn, rng') ∧
      count.toNat = 65536 + (u32FromLeBytes drawn).toNat % 188417
  compressionLevel : ∃ level, S.compressionLevel P.compressionLevel = .ok level
  keySize : ∃ n, S.keySize P.cipher = .ok n
  derived_key : ∀ password rng skesk key rng', symSession S P password rng = .ok (skesk, key, rng') →
    P.useSessionKey = false → ∃ s2k n, S.keySize P.cipher = .ok n ∧
      S.skesk4New P.cipher s2k none = .ok skesk ∧ S.deriveKey s2k password n = .ok key ∧ key.length = n

variable {S : Sequoia}

theorem parseOptions_safeOptions {o : String} {text : Bool} {P : PgpOptions}
    (h : parseOptions o text = .ok P) : SafeOptions o text P := by
  have hc := parseOptions_checked h
  refine ⟨hc.textInput, hc.s2kMode, ?_, hc.compressionLevel, ?_⟩
  · intro count hcount
    obtain ⟨hlo, hhi⟩ := hc.s2kCount count hcount
    exact ⟨hlo, hhi, (parseOptions_eq_ok.mp h).2 (by simp [hcount])⟩
  · rintro item hi ⟨name, value, hsplit, hname, hvalue⟩
    obtain ⟨s, hs⟩ := parseOptions_readSetting h hi
    exact readSetting_disableMdc hsplit hname hs hvalue

/-- The drawn default stays in its interval, and the sum does not wrap. -/
theorem defaultS2kCount_toNat {rng rng' : S.Rng} {count : UInt32}
    (h : defaultS2kCount S rng = .ok (count, rng')) :
    ∃ drawn, S.random 4 rng = .ok (drawn, rng') ∧
      count.toNat = 65536 + (u32FromLeBytes drawn).toNat % 188417 := by
  unfold defaultS2kCount at h
  obtain ⟨⟨drawn, rng₁⟩, hdrawn, h⟩ := bind_eq_ok.mp h
  simp only [Except.ok.injEq, Prod.mk.injEq] at h
  obtain ⟨hcount, rfl⟩ := h
  refine ⟨drawn, hdrawn, ?_⟩
  have hspan : maxCount - minCount + 1 = (188417 : UInt32) := by decide
  rw [← hcount, hspan, UInt32.toNat_add, UInt32.toNat_mod]
  change (65536 + _ % 188417) % 4294967296 = _
  omega

theorem defaultS2kCount_range {rng rng' : S.Rng} {count : UInt32}
    (h : defaultS2kCount S rng = .ok (count, rng')) : 65536 ≤ count ∧ count ≤ 253952 := by
  obtain ⟨drawn, -, hd⟩ := defaultS2kCount_toNat h
  have hm := Nat.mod_lt (u32FromLeBytes drawn).toNat (show 0 < 188417 by decide)
  rw [UInt32.le_iff_toNat_le, UInt32.le_iff_toNat_le, hd]
  change 65536 ≤ _ ∧ _ ≤ 253952
  omega

theorem s2kCountOrDefault_range {text : Bool} {P : PgpOptions} (hP : P.Checked text)
    {rng rng' : S.Rng} {count : UInt32} (h : s2kCountOrDefault S P rng = .ok (count, rng')) :
    1024 ≤ count ∧ count ≤ 65011712 := by
  unfold s2kCountOrDefault at h
  split at h
  · next c hc =>
    cases h
    exact hP.s2kCount _ hc
  · obtain ⟨hlo, hhi⟩ := defaultS2kCount_range h
    exact ⟨UInt32.le_trans (by decide) hlo, UInt32.le_trans hhi (by decide)⟩

theorem makeS2k_simple {P : PgpOptions} (h : P.s2kMode = 0) (rng : S.Rng) :
    makeS2k S P rng = .ok (.ok (.simple P.s2kDigest, rng)) := by
  unfold makeS2k
  rw [h]
  rfl

theorem makeS2k_salted {P : PgpOptions} (h : P.s2kMode = 1) (rng : S.Rng) :
    makeS2k S P rng = .ok (S.random 8 rng >>= fun p => .ok (.salted P.s2kDigest p.1, p.2)) := by
  unfold makeS2k
  rw [h]
  rfl

theorem makeS2k_iterated {P : PgpOptions} (h : P.s2kMode = 3) (rng : S.Rng) :
    makeS2k S P rng =
      .ok (s2kCountOrDefault S P rng >>= fun p => S.newIterated P.s2kDigest p.1 p.2) := by
  unfold makeS2k
  rw [h]
  rfl

/-- The unreachable arm is not reached. -/
theorem makeS2k_ok {text : Bool} {P : PgpOptions} (hP : P.Checked text) (rng : S.Rng) :
    ∃ made, makeS2k S P rng = .ok made := by
  rcases hP.s2kMode with h | h | h
  · exact ⟨_, makeS2k_simple h rng⟩
  · exact ⟨_, makeS2k_salted h rng⟩
  · exact ⟨_, makeS2k_iterated h rng⟩

theorem makeS2k_replace {text : Bool} {P : PgpOptions} (hP : P.Checked text)
    {newIterated : HashAlgorithm → UInt32 → S.Rng → Except String (S2K × S.Rng)}
    (hn : ∀ hash count rng, 1024 ≤ count → count ≤ 65011712 →
      newIterated hash count rng = S.newIterated hash count rng) (rng : S.Rng) :
    makeS2k { S with newIterated := newIterated } P rng = makeS2k S P rng := by
  rcases hP.s2kMode with h | h | h
  · rw [makeS2k_simple h, makeS2k_simple h]
  · rw [makeS2k_salted h, makeS2k_salted h]
  · rw [makeS2k_iterated h, makeS2k_iterated h]
    change Except.ok (s2kCountOrDefault S P rng >>= fun p => newIterated P.s2kDigest p.1 p.2) = _
    cases hc : s2kCountOrDefault S P rng with
    | error e => rfl
    | ok drawn =>
      obtain ⟨count, rng'⟩ := drawn
      obtain ⟨hlo, hhi⟩ := s2kCountOrDefault_range hP hc
      rw [ok_bind, ok_bind, hn _ _ _ hlo hhi]

/-- No run passes a count outside the checked interval. -/
theorem symEncrypt_replace {o : String} {text : Bool}
    {newIterated : HashAlgorithm → UInt32 → S.Rng → Except String (S2K × S.Rng)}
    (hn : ∀ hash count rng, 1024 ≤ count → count ≤ 65011712 →
      newIterated hash count rng = S.newIterated hash count rng)
    (data : Bytes) (password : String) (rng : S.Rng) :
    symEncrypt { S with newIterated := newIterated } data password o text rng =
      symEncrypt S data password o text rng := by
  unfold symEncrypt
  cases hP : parseOptions o text with
  | error e => rfl
  | ok P =>
    have hm := makeS2k_replace (parseOptions_checked hP) hn rng
    have hs : symSession { S with newIterated := newIterated } P password rng =
        symSession S P password rng := by
      unfold symSession
      rw [hm]
      rfl
    rw [ok_bind, ok_bind, hs]
    rfl

theorem symSessionKey_noPanic (P : PgpOptions) (s2k : S2K) (password : String) (rng : S.Rng) :
    NoPanic (symSessionKey S P s2k password rng) := by
  refine (noPanic_orRaise _ _).bind ?_
  intro size _
  split
  · exact noPanic_orRaise _ _
  · refine (noPanic_orRaise _ _).bind ?_
    intro key _
    exact noPanic_ok _

theorem symSkesk_noPanic (P : PgpOptions) (s2kCipher : SymmetricAlgorithm) (s2k : S2K)
    (sessionKey : SessionKey) (password : String) :
    NoPanic (symSkesk S P s2kCipher s2k sessionKey password) := by
  unfold symSkesk
  split
  · exact noPanic_orRaise _ _
  · exact noPanic_orRaise _ _

theorem symSession_noPanic {text : Bool} {P : PgpOptions} (hP : P.Checked text) (password : String)
    (rng : S.Rng) : NoPanic (symSession S P password rng) := by
  obtain ⟨made, hm⟩ := makeS2k_ok hP rng
  rw [symSession, hm, ok_bind]
  refine (noPanic_orRaise _ _).bind ?_
  intro s2k _
  dsimp only
  split
  · exact noPanic_raise _
  · refine (symSessionKey_noPanic P _ password _).bind ?_
    intro session _
    refine (symSkesk_noPanic P _ _ _ password).bind ?_
    intro skesk _
    exact noPanic_ok _

theorem symEncrypt_noPanic (data : Bytes) (password o : String) (text : Bool) (rng : S.Rng) :
    NoPanic (symEncrypt S data password o text rng) := by
  refine (parseOptions_noPanic o text).bind ?_
  intro P hP
  refine (symSession_noPanic (parseOptions_checked hP) password rng).bind ?_
  intro session _
  refine (noPanic_orRaise _ _).bind ?_
  intro message _
  refine (noPanic_orRaise _ _).bind ?_
  intro encryptor _
  exact noPanic_orRaise _ _

/-- Without a separate session key the packet names the payload cipher, and the
derived key has that cipher's size. -/
theorem symSession_derived (hS : S.SizeLaws) {P : PgpOptions} {password : String} {rng rng' : S.Rng}
    {skesk : Skesk4} {key : SessionKey} (h : symSession S P password rng = .ok (skesk, key, rng'))
    (hk : P.useSessionKey = false) :
    ∃ s2k n, S.keySize P.cipher = .ok n ∧ S.skesk4New P.cipher s2k none = .ok skesk ∧
      S.deriveKey s2k password n = .ok key ∧ key.length = n := by
  obtain ⟨s2k, n, hn, ⟨ht, -⟩ | ⟨-, hskesk, hd⟩⟩ := symSession_cases h
  · rw [hk] at ht
    cases ht
  · exact ⟨s2k, n, hn, hskesk, hd, hS.deriveKey_length _ _ _ _ hd⟩

/-- Every accepted option string leads to a safe configuration and safe runs. -/
theorem parseOptions_safe (hS : S.SizeLaws) (o : String) (text : Bool) (P : PgpOptions)
    (h : parseOptions o text = .ok P) : SafeOptions o text P ∧ SafeRuns S o text P := by
  have hP := parseOptions_checked h
  refine ⟨parseOptions_safeOptions h, ?_⟩
  constructor
  · intro rng
    exact makeS2k_ok hP rng
  · intro data password rng
    exact symEncrypt_noPanic data password o text rng
  · intro rng count rng' hc
    exact s2kCountOrDefault_range hP hc
  · intro newIterated hn data password rng
    exact symEncrypt_replace hn data password rng
  · intro rng count rng' hc
    obtain ⟨hlo, hhi⟩ := defaultS2kCount_range hc
    exact ⟨hlo, hhi, defaultS2kCount_toNat hc⟩
  · exact hS.compressionLevel_ok _ hP.compressionLevel
  · exact hS.keySize_ok _ hP.cipher
  · intro password rng skesk key rng' hs hk
    exact symSession_derived hS hs hk

theorem parseOptions_safe_iterated : ∃ P,
    parseOptions "S2K-mode=3, s2k-count = 1024,compress-level=9" true = .ok P ∧
    SafeOptions "S2K-mode=3, s2k-count = 1024,compress-level=9" true P ∧
    SafeRuns Recorded.transcript.replay "S2K-mode=3, s2k-count = 1024,compress-level=9" true P := by
  have h : parseOptions "S2K-mode=3, s2k-count = 1024,compress-level=9" true =
      .ok { textInput := true, s2kMode := 3, s2kCount := some 1024, compressionLevel := 9 } := by rfl
  exact ⟨_, h, parseOptions_safe (Transcript.replay_sizeLaws _) _ _ _ h⟩

end PgCrypto.Pgp
