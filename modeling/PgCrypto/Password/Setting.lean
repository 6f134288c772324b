import PgCrypto.Password.Crypt

/-! # The settings of the crypt schemes

A hash is a setting followed by a checksum over the crypt alphabet. The setting names the
scheme and holds the salt and, where the scheme has them, the rounds; its text is what a
generated salt should be. Cutting a hash by the scheme's offsets or separators returns
exactly the setting, for salts of any length.
-/
namespace PgCrypto.Password
open Str

/-- The crypt alphabet `./0-9A-Za-z`; the two marks come right before the digits. -/
def isCryptChar (c : Char) : Bool :=
  let n := c.toNat
  (46 ≤ n && n ≤ 57) || (65 ≤ n && n ≤ 90) || (97 ≤ n && n ≤ 122)

structure Word where
  chars : List Char
  valid : ∀ c ∈ chars, isCryptChar c
  deriving DecidableEq

structure FixedWord (n : ℕ) extends Word where
  length_eq : chars.length = n
  deriving DecidableEq

inductive ShaDigest where
  | sha256
  | sha512
  deriving DecidableEq, Repr

/-- A setting, with the rounds of SHA crypt left out or written. -/
inductive Setting where
  | bcrypt (cost : Fin 100) (salt : FixedWord 22)
  | des (salt : FixedWord 2)
  | bsdi (rounds : Fin 16777216) (salt : FixedWord 4)
  | md5 (salt : Word)
  | sha (digest : ShaDigest) (rounds : Option ℕ) (salt : Word)
  deriving DecidableEq

def cryptDigits : List Char := "./0123456789ABCDEFGHIJKLMNOPQRSTUVWXYZabcdefghijklmnopqrstuvwxyz".toList

def cryptDigit (n : ℕ) : Char := cryptDigits.getD (n % 64) '.'

/-- Four base 64 digits, the lowest first. -/
def encode24 (n : ℕ) : List Char :=
  [cryptDigit n, cryptDigit (n / 64), cryptDigit (n / 4096), cryptDigit (n / 262144)]

def twoDigits (n : ℕ) : List Char := [Nat.digitChar (n / 10), Nat.digitChar (n % 10)]

def roundsField : Option ℕ → List Char
  | none => []
  | some n => "rounds=".toList ++ Nat.toDigits 10 n ++ ['$']

@[simp] theorem roundsField_none : roundsField none = [] := rfl
@[simp] theorem roundsField_some (n : ℕ) :
    roundsField (some n) = "rounds=".toList ++ Nat.toDigits 10 n ++ ['$'] := rfl

def ShaDigest.magic : ShaDigest → List Char
  | .sha256 => "$5$".toList
  | .sha512 => "$6$".toList

def Setting.text : Setting → List Char
  | .bcrypt cost salt => "$2a$".toList ++ twoDigits cost ++ '$' :: salt.chars
  | .des salt => salt.chars
  | .bsdi rounds salt => '_' :: encode24 rounds ++ salt.chars
  | .md5 salt => "$1$".toList ++ salt.chars ++ ['$']
  | .sha digest rounds salt => digest.magic ++ roundsField rounds ++ salt.chars ++ ['$']

/-- The name a setting's scheme has in the salt generator. -/
def Setting.algorithm : Setting → String
  | .bcrypt _ _ => "bf"
  | .des _ => "des"
  | .bsdi _ _ => "xdes"
  | .md5 _ => "md5"
  | .sha .sha256 _ _ => "sha256crypt"
  | .sha .sha512 _ _ => "sha512crypt"

/-- The iteration count of a setting: written in it, fixed by the scheme, or the default of
the library. -/
def Setting.rounds (lib : Pwhash) : Setting → ℕ
  | .bcrypt cost _ => cost
  | .des _ => 25
  | .bsdi rounds _ => rounds
  | .md5 _ => 1000
  | .sha .sha256 rounds _ => rounds.getD lib.sha256DefaultRounds.toNat
  | .sha .sha512 rounds _ => rounds.getD lib.sha512DefaultRounds.toNat

section Characters

theorem utf8Size_of_isCryptChar {c : Char} (h : isCryptChar c) : c.utf8Size = 1 := by
  simp only [isCryptChar, Bool.or_eq_true, Bool.and_eq_true, decide_eq_true_eq] at h
  apply utf8Size_of_toNat_le
  omega

theorem Word.byteLen_chars (w : Word) : byteLen w.chars = w.chars.length :=
  byteLen_eq_length (fun c hc => utf8Size_of_isCryptChar (w.valid c hc))

theorem FixedWord.byteLen_chars {n : ℕ} (w : FixedWord n) : byteLen w.chars = n :=
  w.toWord.byteLen_chars.trans w.length_eq

theorem Word.not_mem (w : Word) {c : Char} (hc : isCryptChar c = false) : c ∉ w.chars := by
  intro h
  rw [w.valid c h] at hc
  cases hc

theorem isCryptChar_cryptDigit (n : ℕ) : isCryptChar (cryptDigit n) := by
  have h : ∀ k < 64, isCryptChar (cryptDigits.getD k '.') := by decide +kernel
  exact h (n % 64) (Nat.mod_lt n (by decide))

theorem byteLen_encode24 (n : ℕ) : byteLen (encode24 n) = 4 := by
  simp only [encode24, byteLen_cons, byteLen_nil, utf8Size_of_isCryptChar (isCryptChar_cryptDigit _)]

theorem utf8Size_digitChar {n : ℕ} (h : n < 10) : (Nat.digitChar n).utf8Size = 1 := by
  have hall : ∀ k < 10, (Nat.digitChar k).utf8Size = 1 := by decide
  exact hall n h

theorem byteLen_twoDigits (cost : Fin 100) : byteLen (twoDigits cost) = 2 := by
  have hhigh := utf8Size_digitChar (n := cost / 10) (by omega)
  have hlow := utf8Size_digitChar (n := cost % 10) (by omega)
  rw [twoDigits, byteLen_cons, byteLen_cons, byteLen_nil, hhigh, hlow]

theorem not_mem_toDigits {c : Char} (hc : c.isDigit = false) (n : ℕ) : c ∉ Nat.toDigits 10 n := by
  intro h
  rw [Nat.isDigit_of_mem_toDigits (by decide) (by decide) h] at hc
  cases hc

end Characters

section Cutting

/-- No `$2b$` occurs in a bcrypt setting, whose inner separators follow `a` and a digit. -/
theorem not_infix_bcrypt (cost : Fin 100) (salt : FixedWord 22) :
    ¬ "$2b$".toList <:+: (Setting.bcrypt cost salt).text := by
  have hsalt : '$' ∉ salt.chars := salt.toWord.not_mem (by decide)
  intro h
  have hcases : ((cost : ℕ) / 10 = 2 ∧ (cost : ℕ) % 10 = 11) ∨ ['2', 'b', '$'] <+: salt.chars ∨
      ['$', '2', 'b', '$'] <:+: salt.chars := by
    simpa [Setting.text, twoDigits, List.infix_cons_iff] using h
  rcases hcases with hdigits | hstart | hinner
  · omega
  · exact hsalt (hstart.subset (by simp))
  · exact hsalt (hinner.subset (by simp))

theorem saltPrefix_bcrypt (cost : Fin 100) (salt : FixedWord 22) (w : Word) :
    saltPrefix (String.ofList ((Setting.bcrypt cost salt).text ++ w.chars)) "bf" =
      .ok (String.ofList (Setting.bcrypt cost salt).text) := by
  have hlen : byteLen (Setting.bcrypt cost salt).text = 29 := by
    have hmagic : byteLen "$2a$".toList = 4 := by decide
    have hdollar : '$'.utf8Size = 1 := by decide
    rw [Setting.text, byteLen_append, byteLen_append, byteLen_cons, hmagic, hdollar, byteLen_twoDigits,
      salt.byteLen_chars]
  show (textTo _ 29 >>= fun start => pure (replace start "$2b$" "$2a$")) = _
  rw [textTo_append _ _ hlen, ok_bind, replace_ofList (not_infix_bcrypt cost salt), pure_eq_ok]

theorem saltPrefix_des (salt : FixedWord 2) (w : Word) :
    saltPrefix (String.ofList ((Setting.des salt).text ++ w.chars)) "des" =
      .ok (String.ofList (Setting.des salt).text) := by
  exact textTo_append _ _ salt.byteLen_chars

theorem saltPrefix_bsdi (rounds : Fin 16777216) (salt : FixedWord 4) (w : Word) :
    saltPrefix (String.ofList ((Setting.bsdi rounds salt).text ++ w.chars)) "xdes" =
      .ok (String.ofList (Setting.bsdi rounds salt).text) := by
  have hlen : byteLen (Setting.bsdi rounds salt).text = 9 := by
    have hunderscore : '_'.utf8Size = 1 := by decide
    rw [Setting.text, byteLen_append, byteLen_cons, hunderscore, byteLen_encode24, salt.byteLen_chars]
  exact textTo_append _ _ hlen

/-- The first separator after the magic ends the setting. -/
theorem saltPrefix_md5 (salt w : Word) :
    saltPrefix (String.ofList ((Setting.md5 salt).text ++ w.chars)) "md5" =
      .ok (String.ofList (Setting.md5 salt).text) := by
  have hmagic : byteLen "$1$".toList = 3 := by decide
  have hdollar : '$'.utf8Size = 1 := by decide
  have hsalt : '$' ∉ salt.chars := salt.not_mem (by decide)
  have hlen : byteLen (Setting.md5 salt).text = byteLen salt.chars + 4 := by
    rw [Setting.text, byteLen_append, byteLen_append, byteLen_cons, byteLen_nil, hmagic, hdollar]
    omega
  have hfrom : textFrom (String.ofList ((Setting.md5 salt).text ++ w.chars)) 3 =
      .ok (String.ofList (salt.chars ++ '$' :: w.chars)) := by
    rw [Setting.text, List.append_assoc, List.append_assoc]
    exact textFrom_append _ _ hmagic
  have hfind : find (String.ofList (salt.chars ++ '$' :: w.chars)) '$' = some (byteLen salt.chars) := by
    rw [find, matchIndices, String.toList_ofList, indicesFrom_append_cons hsalt, List.head?_cons, Nat.zero_add]
  show (textFrom _ 3 >>= fun rest => textTo _ _) = _
  rw [hfrom, ok_bind, hfind]
  exact textTo_append _ _ hlen

end Cutting

section ShaCrypt
variable (digest : ShaDigest) (salt w : Word)

theorem byteLen_magic : byteLen digest.magic = 3 := by
  cases digest with
  | sha256 => decide
  | sha512 => decide

theorem matchIndices_magic (rest : List Char) :
    matchIndices (String.ofList (digest.magic ++ rest)) '$' = 0 :: 2 :: indicesFrom '$' 3 rest := by
  rw [matchIndices, String.toList_ofList]
  cases digest with
  | sha256 => rfl
  | sha512 => rfl

theorem byteLen_sha (rounds : Option ℕ) :
    byteLen (Setting.sha digest rounds salt).text =
      3 + byteLen (roundsField rounds) + byteLen salt.chars + 1 := by
  have hdollar : '$'.utf8Size = 1 := by decide
  rw [Setting.text, byteLen_append, byteLen_append, byteLen_append, byteLen_magic, byteLen_cons, byteLen_nil,
    hdollar]

theorem byteLen_ne_zero_of_matchIndices {hash : String} {sep : Char} {index : ℕ} {rest : List ℕ}
    (h : matchIndices hash sep = index :: rest) : byteLen hash.toList ≠ 0 := by
  rw [matchIndices] at h
  cases hcs : hash.toList with
  | nil =>
    rw [hcs] at h
    cases h
  | cons c cs =>
    have hc := c.utf8Size_pos
    rw [byteLen_cons]
    omega

/-- Without a rounds field the third separator ends the setting. -/
theorem shaSettingEnd_third {hash : String} {first second third : ℕ} {rest : List ℕ}
    (hindices : matchIndices hash '$' = first :: second :: third :: rest)
    (hget : textGet hash 3 10 ≠ some "rounds=") : shaSettingEnd hash = .ok third := by
  rw [shaSettingEnd, if_neg (byteLen_ne_zero_of_matchIndices hindices), hindices]
  simp [hget]

/-- With a rounds field it is the fourth. -/
theorem shaSettingEnd_fourth {hash : String} {first second third fourth : ℕ} {rest : List ℕ}
    (hindices : matchIndices hash '$' = first :: second :: third :: fourth :: rest)
    (hget : textGet hash 3 10 = some "rounds=") : shaSettingEnd hash = .ok fourth := by
  rw [shaSettingEnd, if_neg (byteLen_ne_zero_of_matchIndices hindices), hindices]
  simp [hget]

theorem textGet_rounds (rest : List Char) :
    textGet (String.ofList (digest.magic ++ ("rounds=".toList ++ rest))) 3 10 = some "rounds=" := by
  have hfield : byteLen "rounds=".toList = 7 := by decide
  have hstop : byteLen digest.magic + byteLen "rounds=".toList = 10 := by rw [byteLen_magic, hfield]
  exact textGet_append digest.magic "rounds=".toList rest (byteLen_magic digest) hstop

/-- No salt without a rounds field imitates one. -/
theorem textGet_none :
    textGet (String.ofList (digest.magic ++ (salt.chars ++ '$' :: w.chars))) 3 10 ≠ some "rounds=" := by
  intro h
  have hmem := mem_of_textGet h (c := '=') (by decide)
  have hmagic : '=' ∉ digest.magic := by
    cases digest with
    | sha256 => decide
    | sha512 => decide
  rw [String.toList_ofList, List.mem_append, List.mem_append, List.mem_cons] at hmem
  rcases hmem with hmem | hmem | hmem | hmem
  · exact hmagic hmem
  · exact salt.not_mem (by decide) hmem
  · cases hmem
  · exact w.not_mem (by decide) hmem

theorem shaSettingEnd_none :
    shaSettingEnd (String.ofList ((Setting.sha digest none salt).text ++ w.chars)) =
      .ok (3 + byteLen salt.chars) := by
  have hhash : (Setting.sha digest none salt).text ++ w.chars =
      digest.magic ++ (salt.chars ++ '$' :: w.chars) := by
    rw [Setting.text, roundsField_none, List.append_nil]
    simp only [List.append_assoc, List.singleton_append]
  have hsalt : '$' ∉ salt.chars := salt.not_mem (by decide)
  have hindices := matchIndices_magic digest (salt.chars ++ '$' :: w.chars)
  rw [indicesFrom_append_cons hsalt] at hindices
  rw [hhash]
  exact shaSettingEnd_third hindices (textGet_none digest salt w)

theorem shaSettingEnd_some (n : ℕ) :
    shaSettingEnd (String.ofList ((Setting.sha digest (some n) salt).text ++ w.chars)) =
      .ok (3 + byteLen (roundsField (some n)) + byteLen salt.chars) := by
  have hhash : (Setting.sha digest (some n) salt).text ++ w.chars =
      digest.magic ++ ("rounds=".toList ++ (Nat.toDigits 10 n ++ '$' :: (salt.chars ++ '$' :: w.chars))) := by
    rw [Setting.text, roundsField_some]
    simp only [List.append_assoc, List.cons_append, List.nil_append]
  have hlen : byteLen (roundsField (some n)) =
      byteLen ("rounds=".toList ++ Nat.toDigits 10 n) + '$'.utf8Size := by
    rw [roundsField_some, byteLen_append, byteLen_cons, byteLen_nil, Nat.add_zero]
  have hdigits : '$' ∉ "rounds=".toList ++ Nat.toDigits 10 n := by
    rw [List.mem_append, not_or]
    exact ⟨by decide, not_mem_toDigits (by decide) n⟩
  have hsalt : '$' ∉ salt.chars := salt.not_mem (by decide)
  have hindices := matchIndices_magic digest
    ("rounds=".toList ++ (Nat.toDigits 10 n ++ '$' :: (salt.chars ++ '$' :: w.chars)))
  rw [← List.append_assoc "rounds=".toList, indicesFrom_append_cons hdigits, indicesFrom_append_cons hsalt,
    List.append_assoc "rounds=".toList] at hindices
  rw [hhash, hlen, ← Nat.add_assoc]
  exact shaSettingEnd_fourth hindices (textGet_rounds digest _)

theorem saltPrefix_sha (rounds : Option ℕ) :
    saltPrefix (String.ofList ((Setting.sha digest rounds salt).text ++ w.chars))
        (Setting.sha digest rounds salt).algorithm =
      .ok (String.ofList (Setting.sha digest rounds salt).text) := by
  have hend : shaSettingEnd (String.ofList ((Setting.sha digest rounds salt).text ++ w.chars)) =
      .ok (3 + byteLen (roundsField rounds) + byteLen salt.chars) := by
    cases rounds with
    | none => exact shaSettingEnd_none digest salt w
    | some n => exact shaSettingEnd_some digest salt w n
  have hcut : (shaSettingEnd (String.ofList ((Setting.sha digest rounds salt).text ++ w.chars)) >>= fun stop =>
      textTo (String.ofList ((Setting.sha digest rounds salt).text ++ w.chars)) (stop + 1)) =
      .ok (String.ofList (Setting.sha digest rounds salt).text) := by
    rw [hend, ok_bind]
    exact textTo_append _ _ (byteLen_sha digest salt rounds)
  cases digest with
  | sha256 => exact hcut
  | sha512 => exact hcut

end ShaCrypt

/-- The cut returns the setting and nothing of the checksum. -/
theorem saltPrefix_text (z : Setting) (w : Word) :
    saltPrefix (String.ofList (z.text ++ w.chars)) z.algorithm = .ok (String.ofList z.text) := by
  cases z with
  | bcrypt cost salt => exact saltPrefix_bcrypt cost salt w
  | des salt => exact saltPrefix_des salt w
  | bsdi rounds salt => exact saltPrefix_bsdi rounds salt w
  | md5 salt => exact saltPrefix_md5 salt w
  | sha digest rounds salt => exact saltPrefix_sha digest salt w rounds

end PgCrypto.Password
