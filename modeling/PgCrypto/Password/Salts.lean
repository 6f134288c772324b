import PgCrypto.Password.Setting

/-! # Generated salts and the hashes made with them

The library's hashes are settings it writes, followed by their checksums; given back as a
salt, a written setting is kept, with or without a checksum after it. A generated salt is
then the setting of the hash it was cut from, with the rounds that were asked for, and a
hash made with it begins with it and verifies.
-/
namespace PgCrypto.Password
open Str Utf8

/-- The iteration count of a scheme when none is asked for. -/
def defaultRounds (lib : Pwhash) (algorithm : String) : ℕ :=
  match algorithm with
  | "bf" => 6
  | "des" => 25
  | "xdes" => 725
  | "md5" => 1000
  | "sha256crypt" => lib.sha256DefaultRounds.toNat
  | "sha512crypt" => lib.sha512DefaultRounds.toNat
  | _ => 0

/-- The rounds asked for, where zero asks for the default. -/
def requestedRounds (lib : Pwhash) (algorithm : String) (rounds : Int32) : ℤ :=
  if rounds = 0 then defaultRounds lib algorithm else rounds.toInt

section Laws
variable (lib : Pwhash) (writes : Setting → Prop) (checksum : Setting → Bytes → Word)

/-- A hash of the password by a scheme of the library, with the given rounds. -/
def IsHash (algorithm : String) (rounds : ℕ) (password : Bytes) (hash : String) : Prop :=
  ∃ z, writes z ∧ z.algorithm = algorithm ∧ z.rounds lib = rounds ∧
    hash = String.ofList (z.text ++ (checksum z password).chars)

/-- What the library documents: the formats of its hashes, for the rounds each scheme has, and
that `unixCrypt` hashes under the setting at the front of its second argument. -/
structure Pwhash.Laws : Prop where
  bcryptHashWith : ∀ cost password rng hash, 4 ≤ cost → cost ≤ 31 →
    lib.bcryptHashWith { cost := some cost, variant := some .v2a } password rng = .ok hash →
    IsHash lib writes checksum "bf" cost.toNat password hash
  unixCryptHash : ∀ password rng hash, lib.unixCryptHash password rng = .ok hash →
    IsHash lib writes checksum "des" 25 password hash
  bsdiCryptHashWith : ∀ rounds password rng hash, rounds ≤ 16777215 → rounds % 2 ≠ 0 →
    lib.bsdiCryptHashWith { rounds := some rounds } password rng = .ok hash →
    IsHash lib writes checksum "xdes" rounds.toNat password hash
  md5CryptHash : ∀ password rng hash, lib.md5CryptHash password rng = .ok hash →
    IsHash lib writes checksum "md5" 1000 password hash
  sha256CryptHashWith : ∀ rounds password rng hash, 1000 ≤ rounds → rounds ≤ 999999999 →
    lib.sha256CryptHashWith { rounds := some rounds } password rng = .ok hash →
    IsHash lib writes checksum "sha256crypt" rounds.toNat password hash
  sha512CryptHashWith : ∀ rounds password rng hash, 1000 ≤ rounds → rounds ≤ 999999999 →
    lib.sha512CryptHashWith { rounds := some rounds } password rng = .ok hash →
    IsHash lib writes checksum "sha512crypt" rounds.toNat password hash
  unixCrypt_setting : ∀ z password, writes z →
    lib.unixCrypt password (String.ofList z.text) =
      .ok (String.ofList (z.text ++ (checksum z password).chars))
  unixCrypt_hash : ∀ z password other, writes z →
    lib.unixCrypt password (String.ofList (z.text ++ (checksum z other).chars)) =
      .ok (String.ofList (z.text ++ (checksum z password).chars))

end Laws

section Rounds

theorem toNat_toUInt32 {x : Int32} (h : 0 ≤ x) : (x.toUInt32.toNat : ℤ) = x.toInt := by
  rw [Int32.toNat_toUInt32_of_le h]
  exact Int.toNat_of_nonneg (Int32.le_iff_toInt_le.mp h)

theorem roundsOrDefault_eq_ok {rounds : Int32} {default actual : UInt32}
    (h : roundsOrDefault rounds default = .ok actual) :
    (actual.toNat : ℤ) = if rounds = 0 then (default.toNat : ℤ) else rounds.toInt := by
  unfold roundsOrDefault at h
  split at h
  · next hzero =>
    cases h
    rw [if_pos hzero]
  · next hzero =>
    rw [if_neg hzero]
    split at h
    · next hpos =>
      cases h
      exact toNat_toUInt32 (Int32.le_of_lt hpos)
    · simp at h

theorem roundsOrDefault_noPanic (rounds : Int32) (default : UInt32) :
    NoPanic (roundsOrDefault rounds default) := by
  unfold roundsOrDefault
  split
  · exact noPanic_ok _
  · split
    · exact noPanic_ok _
    · exact noPanic_raise _

end Rounds

theorem shaHash_eq_ok {name : String} {default : UInt32} {hashWith : HashSetup → Except String String}
    {rounds : Int32} {hash : String} (h : shaHash name default hashWith rounds = .ok hash) :
    ∃ actual, 1000 ≤ actual ∧ actual ≤ 999999999 ∧ hashWith { rounds := some actual } = .ok hash ∧
      (actual.toNat : ℤ) = if rounds = 0 then (default.toNat : ℤ) else rounds.toInt := by
  obtain ⟨actual, hactual, h⟩ := bind_eq_ok.mp h
  obtain ⟨hrange, h⟩ := guard_eq_ok.mp h
  obtain ⟨hmin, hmax⟩ := not_not.mp hrange
  exact ⟨actual, hmin, hmax, orRaise_eq_ok.mp h, roundsOrDefault_eq_ok hactual⟩

theorem shaHash_noPanic (name : String) (default : UInt32) (hashWith : HashSetup → Except String String)
    (rounds : Int32) : NoPanic (shaHash name default hashWith rounds) := by
  refine (roundsOrDefault_noPanic rounds default).bind ?_
  intro actual _
  exact (noPanic_orRaise _ _).guard

theorem saltHash_noPanic (lib : Pwhash) (rng : lib.Rng) (algorithm : String) (rounds : Int32) :
    NoPanic (saltHash lib rng algorithm rounds) := by
  unfold saltHash
  split
  · exact (noPanic_orRaise _ _).guard
  · exact (noPanic_orRaise _ _).guard
  · refine (roundsOrDefault_noPanic rounds 725).bind ?_
    intro actual _
    exact (noPanic_orRaise _ _).guard
  · exact (noPanic_orRaise _ _).guard
  · exact shaHash_noPanic _ _ _ _
  · exact shaHash_noPanic _ _ _ _
  · exact noPanic_raise _

section Generated
variable {lib : Pwhash} {writes : Setting → Prop} {checksum : Setting → Bytes → Word}

/-- The hash behind a salt has the algorithm and the rounds that were asked for. -/
theorem saltHash_isHash (laws : lib.Laws writes checksum) {rng : lib.Rng} {algorithm : String}
    {rounds : Int32} {hash : String} (h : saltHash lib rng algorithm rounds = .ok hash) :
    ∃ actual : ℕ, (actual : ℤ) = requestedRounds lib algorithm rounds ∧
      IsHash lib writes checksum algorithm actual [] hash := by
  unfold saltHash at h
  unfold requestedRounds
  split at h
  case h_1 =>
    obtain ⟨hrange, h⟩ := guard_eq_ok.mp h
    obtain ⟨hmin, hmax⟩ := not_not.mp hrange
    have hnonneg : 0 ≤ if rounds = 0 then 6 else rounds := Int32.le_trans (by decide) hmin
    refine ⟨_, ?_, laws.bcryptHashWith _ _ _ _ (Int32.toUInt32_le (by decide) hmin)
      (Int32.toUInt32_le hnonneg hmax) (orRaise_eq_ok.mp h)⟩
    rw [toNat_toUInt32 hnonneg]
    split <;> rfl
  case h_2 =>
    obtain ⟨hrange, h⟩ := guard_eq_ok.mp h
    refine ⟨25, ?_, laws.unixCryptHash _ _ _ (orRaise_eq_ok.mp h)⟩
    rcases not_not.mp hrange with rfl | rfl
    · rfl
    · rfl
  case h_3 =>
    obtain ⟨actual, hactual, h⟩ := bind_eq_ok.mp h
    obtain ⟨hrange, h⟩ := guard_eq_ok.mp h
    rw [not_or] at hrange
    exact ⟨actual.toNat, roundsOrDefault_eq_ok hactual,
      laws.bsdiCryptHashWith _ _ _ _ (UInt32.not_lt.mp hrange.1) hrange.2 (orRaise_eq_ok.mp h)⟩
  case h_4 =>
    obtain ⟨hrange, h⟩ := guard_eq_ok.mp h
    refine ⟨1000, ?_, laws.md5CryptHash _ _ _ (orRaise_eq_ok.mp h)⟩
    rcases not_not.mp hrange with rfl | rfl
    · rfl
    · rfl
  case h_5 =>
    obtain ⟨actual, hmin, hmax, hash, hrounds⟩ := shaHash_eq_ok h
    exact ⟨actual.toNat, hrounds, laws.sha256CryptHashWith _ _ _ _ hmin hmax hash⟩
  case h_6 =>
    obtain ⟨actual, hmin, hmax, hash, hrounds⟩ := shaHash_eq_ok h
    exact ⟨actual.toNat, hrounds, laws.sha512CryptHashWith _ _ _ _ hmin hmax hash⟩
  case h_7 => simp at h

/-- A salt that is a written setting is kept, and so is a hash made with it. -/
theorem crypt_verifies (laws : lib.Laws writes checksum) {z : Setting} (hz : writes z) (password : String) :
    ∃ hash, crypt lib password (String.ofList z.text) = .ok hash ∧ z.text <+: hash.toList ∧
      crypt lib password hash = .ok hash := by
  refine ⟨String.ofList (z.text ++ (checksum z (utf8 password)).chars), ?_, ?_, ?_⟩
  · rw [crypt, laws.unixCrypt_setting z (utf8 password) hz, orUnwind_ok]
  · rw [String.toList_ofList]
    exact List.prefix_append _ _
  · rw [crypt, laws.unixCrypt_hash z (utf8 password) (utf8 password) hz, orUnwind_ok]

/-- The salt is cut from the hash behind it at the end of its setting. -/
theorem genSalt_of_saltHash (laws : lib.Laws writes checksum) {rng : lib.Rng} {algorithm : String}
    {rounds : Int32} {hash : String} (h : saltHash lib rng (toAsciiLowercase algorithm) rounds = .ok hash) :
    ∃ z, writes z ∧ z.algorithm = toAsciiLowercase algorithm ∧
      (z.rounds lib : ℤ) = requestedRounds lib (toAsciiLowercase algorithm) rounds ∧
      hash = String.ofList (z.text ++ (checksum z []).chars) ∧
      genSalt lib rng algorithm rounds = .ok (String.ofList z.text) := by
  obtain ⟨actual, hactual, z, hz, halgorithm, hrounds, rfl⟩ := saltHash_isHash laws h
  refine ⟨z, hz, halgorithm, ?_, rfl, ?_⟩
  · rw [hrounds, hactual]
  · rw [genSalt, generateSalt, h, ok_bind, ← halgorithm, saltPrefix_text]

theorem genSalt_noPanic (laws : lib.Laws writes checksum) (rng : lib.Rng) (algorithm : String)
    (rounds : Int32) : NoPanic (genSalt lib rng algorithm rounds) := by
  cases h : saltHash lib rng (toAsciiLowercase algorithm) rounds with
  | ok hash =>
    obtain ⟨z, -, -, -, -, hsalt⟩ := genSalt_of_saltHash laws h
    rw [hsalt]
    exact noPanic_ok _
  | error e =>
    have hnoPanic := saltHash_noPanic lib rng (toAsciiLowercase algorithm) rounds
    rw [h] at hnoPanic
    rw [genSalt, generateSalt, h, error_bind]
    intro m he
    cases he
    exact hnoPanic m rfl

end Generated

/-- Generated salts are the settings of their schemes, and hashes made with them verify. -/
theorem genSalt_setting (lib : Pwhash) (writes : Setting → Prop) (checksum : Setting → Bytes → Word)
    (laws : lib.Laws writes checksum) :
    (∀ (z : Setting) (w : Word),
      saltPrefix (String.ofList (z.text ++ w.chars)) z.algorithm = .ok (String.ofList z.text)) ∧
    ∀ (rng : lib.Rng) (algorithm : String) (rounds : Int32),
      NoPanic (genSalt lib rng algorithm rounds) ∧
      (∀ hash, saltHash lib rng (toAsciiLowercase algorithm) rounds = .ok hash →
        ∃ (z : Setting) (w : Word), hash = String.ofList (z.text ++ w.chars) ∧
          z.algorithm = toAsciiLowercase algorithm ∧
          (z.rounds lib : ℤ) = requestedRounds lib (toAsciiLowercase algorithm) rounds ∧
          genSalt lib rng algorithm rounds = .ok (String.ofList z.text)) ∧
      ∀ salt, genSalt lib rng algorithm rounds = .ok salt →
        ∀ password, ∃ hash, crypt lib password salt = .ok hash ∧ salt.toList <+: hash.toList ∧
          crypt lib password hash = .ok hash := by
  refine ⟨saltPrefix_text, ?_⟩
  intro rng algorithm rounds
  refine ⟨genSalt_noPanic laws rng algorithm rounds, ?_, ?_⟩
  · intro hash hhash
    obtain ⟨z, -, halgorithm, hrounds, hsplit, hsalt⟩ := genSalt_of_saltHash laws hhash
    exact ⟨z, checksum z [], hsplit, halgorithm, hrounds, hsalt⟩
  · intro salt hsalt password
    obtain ⟨hash, hhash, -⟩ := bind_eq_ok.mp hsalt
    obtain ⟨z, hz, -, -, -, htext⟩ := genSalt_of_saltHash laws hhash
    rw [hsalt] at htext
    cases htext
    rw [String.toList_ofList]
    exact crypt_verifies laws hz password

/-! ## Recorded answers

One setting of SHA-256 crypt with the checksums of the empty password and of the published
test password.
-/
namespace Recorded

def word (s : String) (h : s.toList.all isCryptChar = true) : Word := ⟨s.toList, List.all_eq_true.mp h⟩

def setting : Setting := .sha .sha256 (some 10000) (word "saltstringsaltst" rfl)

def checksum (_ : Setting) (password : Bytes) : Word :=
  if password = utf8 "Hello world!" then word "3xv.VbSHBb41AL9AvLeujZkZRBAwqFMz2.opqey6IcA" rfl
  else word "sDnWwZ0qdQHPqtZu31j2fTtF2j2HEn5hOEwtvixOSE0" rfl

def pwhash : Pwhash where
  Rng := Unit
  bcryptHashWith _ _ _ := .error "not recorded"
  unixCryptHash _ _ := .error "not recorded"
  bsdiCryptHashWith _ _ _ := .error "not recorded"
  md5CryptHash _ _ := .error "not recorded"
  sha256CryptHashWith setup password _ :=
    if setup = { rounds := some 10000 } then
      .ok (String.ofList (setting.text ++ (checksum setting password).chars))
    else .error "not recorded"
  sha512CryptHashWith _ _ _ := .error "not recorded"
  sha256DefaultRounds := 5000
  sha512DefaultRounds := 5000
  unixCrypt password salt :=
    if setting.text.isPrefixOf salt.toList then
      .ok (String.ofList (setting.text ++ (checksum setting password).chars))
    else raise "not recorded"

theorem unixCrypt_append (password : Bytes) (tail : List Char) :
    pwhash.unixCrypt password (String.ofList (setting.text ++ tail)) =
      .ok (String.ofList (setting.text ++ (checksum setting password).chars)) := by
  have hprefix : setting.text.isPrefixOf (String.ofList (setting.text ++ tail)).toList := by
    rw [String.toList_ofList, List.isPrefixOf_iff_prefix]
    exact List.prefix_append _ _
  exact if_pos hprefix

theorem pwhash_laws : pwhash.Laws (· = setting) checksum where
  bcryptHashWith := by
    intro cost password rng hash _ _ h
    cases h
  unixCryptHash := by
    intro password rng hash h
    cases h
  bsdiCryptHashWith := by
    intro rounds password rng hash _ _ h
    cases h
  md5CryptHash := by
    intro password rng hash h
    cases h
  sha256CryptHashWith := by
    intro rounds password rng hash _ _ h
    simp only [pwhash] at h
    split at h
    · next hsetup =>
      cases h
      cases hsetup
      exact ⟨setting, rfl, rfl, rfl, rfl⟩
    · cases h
  sha512CryptHashWith := by
    intro rounds password rng hash _ _ h
    cases h
  unixCrypt_setting := by
    rintro z password rfl
    have h := unixCrypt_append password []
    rw [List.append_nil] at h
    exact h
  unixCrypt_hash := by
    rintro z password other rfl
    exact unixCrypt_append password _

end Recorded

/-- The rounds field moves the cut by one separator. -/
theorem genSalt_setting_recorded :
    genSalt Recorded.pwhash () "SHA256crypt" 10000 = .ok "$5$rounds=10000$saltstringsaltst$" ∧
      ∃ hash, crypt Recorded.pwhash "Hello world!" "$5$rounds=10000$saltstringsaltst$" = .ok hash ∧
        "$5$rounds=10000$saltstringsaltst$".toList <+: hash.toList ∧
        crypt Recorded.pwhash "Hello world!" hash = .ok hash := by
  have hsalt : genSalt Recorded.pwhash () "SHA256crypt" 10000 = .ok "$5$rounds=10000$saltstringsaltst$" := by
    decide +kernel
  have h := (genSalt_setting Recorded.pwhash _ _ Recorded.pwhash_laws).2 () "SHA256crypt" 10000
  exact ⟨hsalt, h.2.2 _ hsalt "Hello world!"⟩

end PgCrypto.Password
