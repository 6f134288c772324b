import PgCrypto.Raw.Cipher

/-! # The names of cipher types

The source lists the names of algorithm and mode as whole words. They are the words of a
small grammar: a name of the algorithm, a mode that may be left out for CBC, and a padding
that may be left out for PKCS, in any case. Nothing else is accepted, and what is refused
is refused before key and data are looked at.
-/
namespace PgCrypto.Raw
open Str

def Algorithm.names : Algorithm → List String
  | .aes => ["aes", "rijndael"]
  | .blowfish => ["bf", "blowfish"]

def Mode.suffixes : Mode → List String
  | .cbc => ["", "-cbc"]
  | .cfb => ["-cfb"]
  | .ecb => ["-ecb"]

/-- The words after the slash. -/
def Padding.words : Padding → List String
  | .pkcs => ["pad:pkcs"]
  | .none => ["pad:none"]

/-- A word for algorithm and mode. -/
def NamesCipher (word : String) (algorithm : Algorithm) (mode : Mode) : Prop :=
  ∃ name ∈ algorithm.names, ∃ suffix ∈ mode.suffixes, word = name ++ suffix

/-- The type is spelled by a word for algorithm and mode, and a padding after a slash,
which may be missing for PKCS. -/
def Spells (cipherType : String) (algorithm : Algorithm) (mode : Mode) (padding : Padding) : Prop :=
  ∃ word, NamesCipher word algorithm mode ∧
    ((padding = .pkcs ∧ toAsciiLowercase cipherType = word) ∨
      ∃ pad ∈ padding.words, toAsciiLowercase cipherType = word ++ "/" ++ pad)

section Words

theorem parseCipherMode_eq_ok {word : String} {algorithm : Algorithm} {mode : Mode} :
    parseCipherMode word = .ok (algorithm, mode) ↔ NamesCipher word algorithm mode := by
  constructor
  · intro h
    unfold parseCipherMode at h
    split at h
    case h_17 => cases h
    all_goals
      cases h
      unfold NamesCipher
      decide +kernel
  · rintro ⟨name, hname, suffix, hsuffix, rfl⟩
    revert name suffix
    cases algorithm with
    | aes => cases mode <;> decide +kernel
    | blowfish => cases mode <;> decide +kernel

theorem parsePadding_eq_ok {right : String} {padding : Padding} :
    parsePadding right = .ok padding ↔ right ∈ padding.words := by
  constructor
  · intro h
    unfold parsePadding at h
    split at h
    case h_3 => cases h
    all_goals
      cases h
      decide
  · intro h
    revert right
    cases padding <;> decide +kernel

/-- No word has a slash, so the padding is what follows the first one. -/
theorem slash_not_mem {word : String} {algorithm : Algorithm} {mode : Mode}
    (h : NamesCipher word algorithm mode) : '/' ∉ word.toList := by
  obtain ⟨name, hname, suffix, hsuffix, rfl⟩ := h
  revert name suffix
  cases algorithm with
  | aes => cases mode <;> decide +kernel
  | blowfish => cases mode <;> decide +kernel

end Words

section Types
variable {cipherType : String}

/-- Without a slash the whole type is the word. -/
theorem spells_iff_of_none (h : splitOnce (toAsciiLowercase cipherType) '/' = none) {algorithm : Algorithm}
    {mode : Mode} {padding : Padding} : Spells cipherType algorithm mode padding ↔
      NamesCipher (toAsciiLowercase cipherType) algorithm mode ∧ padding = .pkcs := by
  have hslash := splitOnce_eq_none_iff.mp h
  constructor
  · rintro ⟨word, hword, ⟨hpadding, rfl⟩ | ⟨pad, -, heq⟩⟩
    · exact ⟨hword, hpadding⟩
    · rw [heq] at hslash
      simp at hslash
  · rintro ⟨hword, hpadding⟩
    exact ⟨_, hword, .inl ⟨hpadding, rfl⟩⟩

/-- With a slash the padding is what follows the first one. -/
theorem spells_iff_of_some {left right : String}
    (h : splitOnce (toAsciiLowercase cipherType) '/' = some (left, right)) {algorithm : Algorithm}
    {mode : Mode} {padding : Padding} : Spells cipherType algorithm mode padding ↔
      NamesCipher left algorithm mode ∧ right ∈ padding.words := by
  have hsingleton : String.singleton '/' = "/" := by decide
  constructor
  · rintro ⟨word, hword, ⟨-, rfl⟩ | ⟨pad, hpad, heq⟩⟩
    · rw [splitOnce_eq_none_iff.mpr (slash_not_mem hword)] at h
      cases h
    · have hsplit : splitOnce (toAsciiLowercase cipherType) '/' = some (word, pad) :=
        splitOnce_eq_some_iff.mpr ⟨slash_not_mem hword, by rw [heq, hsingleton]⟩
      rw [h] at hsplit
      cases hsplit
      exact ⟨hword, hpad⟩
  · rintro ⟨hword, hpad⟩
    have heq := (splitOnce_eq_some_iff.mp h).2
    rw [hsingleton] at heq
    exact ⟨left, hword, .inr ⟨right, hpad, heq⟩⟩

theorem parseType_eq_ok {algorithm : Algorithm} {mode : Mode} {padding : Padding} :
    parseType cipherType = .ok (algorithm, mode, padding) ↔ Spells cipherType algorithm mode padding := by
  unfold parseType
  dsimp only
  cases hsplit : splitOnce (toAsciiLowercase cipherType) '/' with
  | none =>
    rw [spells_iff_of_none hsplit, ← parseCipherMode_eq_ok]
    simp only [ok_bind, bind_eq_ok, Prod.exists, Except.ok.injEq, Prod.mk.injEq]
    constructor
    · rintro ⟨a, m, hparse, rfl, rfl, rfl⟩
      exact ⟨hparse, rfl⟩
    · rintro ⟨hparse, rfl⟩
      exact ⟨_, _, hparse, rfl, rfl, rfl⟩
  | some parts =>
    obtain ⟨left, right⟩ := parts
    rw [spells_iff_of_some hsplit, ← parseCipherMode_eq_ok, ← parsePadding_eq_ok]
    simp only [bind_eq_ok, Prod.exists, Except.ok.injEq, Prod.mk.injEq]
    constructor
    · rintro ⟨p, hpad, _, _, ⟨rfl, rfl⟩, a, m, hparse, rfl, rfl, rfl⟩
      exact ⟨hparse, hpad⟩
    · rintro ⟨hparse, hpad⟩
      exact ⟨_, hpad, _, _, ⟨rfl, rfl⟩, _, _, hparse, rfl, rfl, rfl⟩

/-- The two messages of a type that is refused. -/
def typeMessages : List String :=
  ["padding must be pad:pkcs or pad:none", "cipher must be aes or bf with cbc, cfb, or ecb mode"]

theorem parseCipherMode_eq_error {α : Type} {word : String} {failure : Failure}
    (h : parseCipherMode word = .error failure) :
    (.error failure : Outcome α) = rawError "cipher must be aes or bf with cbc, cfb, or ecb mode" := by
  unfold parseCipherMode at h
  split at h
  case h_17 =>
    cases h
    rfl
  all_goals cases h

theorem parsePadding_eq_error {α : Type} {right : String} {failure : Failure}
    (h : parsePadding right = .error failure) :
    (.error failure : Outcome α) = rawError "padding must be pad:pkcs or pad:none" := by
  unfold parsePadding at h
  split at h
  case h_3 =>
    cases h
    rfl
  all_goals cases h

/-- The padding is read first, and nothing fails after the word. -/
theorem parseType_failure {failure : Failure} (h : parseType cipherType = .error failure) :
    (∃ word, parseCipherMode word = .error failure) ∨ ∃ right, parsePadding right = .error failure := by
  have hword : ∀ word (padding : Padding), (parseCipherMode word >>= fun parsed =>
      .ok (parsed.1, parsed.2, padding)) = .error failure → parseCipherMode word = .error failure := by
    intro word padding hbind
    rcases bind_eq_error.mp hbind with hbind | ⟨parsed, -, hbind⟩
    · exact hbind
    · cases hbind
  unfold parseType at h
  dsimp only at h
  split at h
  · exact .inl ⟨_, hword _ .pkcs h⟩
  · rcases bind_eq_error.mp h with h | ⟨padding, -, h⟩
    · exact .inr ⟨_, h⟩
    · exact .inl ⟨_, hword _ padding h⟩

theorem parseType_eq_error {failure : Failure} (h : parseType cipherType = .error failure) :
    ∃ message ∈ typeMessages, parseType cipherType = rawError message := by
  rw [h]
  rcases parseType_failure h with ⟨word, hword⟩ | ⟨right, hright⟩
  · exact ⟨_, .tail _ (.head _), parseCipherMode_eq_error hword⟩
  · exact ⟨_, .head _, parsePadding_eq_error hright⟩

end Types

/-- The parsed types are exactly the words of the grammar, each read in one way. Spellings
of one type are the same to every call, and a type that is none is refused with one of
two messages whatever the other arguments are. -/
theorem parseType_grammar (cipherType : String) :
    (∀ algorithm mode padding, parseType cipherType = .ok (algorithm, mode, padding) ↔
      Spells cipherType algorithm mode padding) ∧
    (∀ other algorithm mode padding, Spells cipherType algorithm mode padding →
      Spells other algorithm mode padding → ∀ C data key iv decrypting,
        transform C data key iv cipherType decrypting = transform C data key iv other decrypting) ∧
    ((¬ ∃ algorithm mode padding, Spells cipherType algorithm mode padding) →
      ∃ message ∈ typeMessages, ∀ C data key iv decrypting,
        transform C data key iv cipherType decrypting = rawError message) := by
  refine ⟨fun _ _ _ => parseType_eq_ok, ?_, ?_⟩
  · intro other algorithm mode padding h hother C data key iv decrypting
    rw [transform, transform, parseType_eq_ok.mpr h, parseType_eq_ok.mpr hother]
  · intro h
    cases hparse : parseType cipherType with
    | ok parsed =>
      obtain ⟨algorithm, mode, padding⟩ := parsed
      exact absurd ⟨algorithm, mode, padding, parseType_eq_ok.mp hparse⟩ h
    | error failure =>
      obtain ⟨message, hmessage, heq⟩ := parseType_eq_error hparse
      refine ⟨message, hmessage, ?_⟩
      intro C data key iv decrypting
      rw [transform, heq]
      rfl

theorem parseType_grammar_spellings :
    parseType "Rijndael/PAD:none" = .ok (.aes, .cbc, .none) ∧
      (∀ C data key iv decrypting, transform C data key iv "Rijndael/PAD:none" decrypting =
        transform C data key iv "aes-cbc/pad:none" decrypting) ∧
      ¬ ∃ algorithm mode padding, Spells "aes-ctr" algorithm mode padding := by
  have hparse : parseType "Rijndael/PAD:none" = .ok (.aes, .cbc, .none) := by rfl
  have hother : parseType "aes-cbc/pad:none" = .ok (.aes, .cbc, .none) := by rfl
  have hrefused : parseType "aes-ctr" =
      rawError "cipher must be aes or bf with cbc, cfb, or ecb mode" := by rfl
  obtain ⟨hspells, hsame, -⟩ := parseType_grammar "Rijndael/PAD:none"
  refine ⟨hparse, ?_, ?_⟩
  · exact hsame _ _ _ _ ((hspells _ _ _).mp hparse) ((parseType_grammar _).1 _ _ _ |>.mp hother)
  · rintro ⟨algorithm, mode, padding, h⟩
    have hok := ((parseType_grammar "aes-ctr").1 algorithm mode padding).mpr h
    rw [hrefused] at hok
    cases hok

end PgCrypto.Raw
