import PgCrypto.Pgp.Meaning

/-! # The meaning of a decryption option string

The decryption parser looks at the values of two names only; the other known names are
accepted with any value. Its result is a function of the readings again, so decryption
options may be reordered and respelled like encryption options.
-/
namespace PgCrypto.Pgp
open Str

/-- The names that only matter for encryption. -/
def encryptionOnly : List String :=
  ["cipher-algo", "compress-algo", "compress-level", "disable-mdc", "sess-key", "s2k-mode", "s2k-count",
    "s2k-digest-algo", "s2k-cipher-algo", "unicode-mode"]

def DecryptAccepts (name value : String) : Prop :=
  name ∈ encryptionOnly ∨
    (name = "convert-crlf" ∨ name = "ignore-cipher-failure") ∧ (value = "0" ∨ value = "1")

theorem eq_flag_iff {value : String} {flag : Bool} :
    (value = if flag then "1" else "0") ↔ (value = "0" ∨ value = "1") ∧ flag = decide (value = "1") := by
  cases flag with
  | false =>
    constructor
    · rintro rfl
      simp
    · rintro ⟨h | h, hflag⟩ <;> simp_all
  | true =>
    constructor
    · rintro rfl
      simp
    · rintro ⟨h | h, hflag⟩ <;> simp_all

theorem decryptAccepts_flag_iff {name value : String}
    (h : name = "convert-crlf" ∨ name = "ignore-cipher-failure") :
    DecryptAccepts name value ↔ value = "0" ∨ value = "1" := by
  rcases h with rfl | rfl
  · simp [DecryptAccepts, encryptionOnly]
  · simp [DecryptAccepts, encryptionOnly]

section Items
variable {parsed parsed' : DecryptOptions} {item : String}

/-- What one accepted item does to the options. -/
theorem parseDecryptOption_eq_ok : parseDecryptOption parsed item = .ok parsed' ↔
    ∃ name value, reading item = some (name, value) ∧ DecryptAccepts name value ∧
      parsed' = if name = "convert-crlf" then { convertCrlf := value = "1" } else parsed := by
  rw [parseDecryptOption, reading]
  cases splitOnce item '=' with
  | none => simp
  | some p =>
    obtain ⟨name, value⟩ := p
    have hreading : (∃ n v, some (toAsciiLowercase (trim name), trim value) = some (n, v) ∧
        DecryptAccepts n v ∧ parsed' = if n = "convert-crlf" then { convertCrlf := v = "1" } else parsed) ↔
        DecryptAccepts (toAsciiLowercase (trim name)) (trim value) ∧
          parsed' = if toAsciiLowercase (trim name) = "convert-crlf" then
            { convertCrlf := trim value = "1" } else parsed := by
      simp
    rw [Option.map_some, hreading]
    dsimp only
    generalize toAsciiLowercase (trim name) = key
    split
    case h_1 =>
      rw [decryptAccepts_flag_iff (.inl rfl)]
      simp only [bind_eq_ok, parseBooleanOption_eq_ok, eq_flag_iff, pure_eq_ok, Except.ok.injEq]
      constructor
      · rintro ⟨_, ⟨hvalue, rfl⟩, rfl⟩
        exact ⟨hvalue, rfl⟩
      · rintro ⟨hvalue, rfl⟩
        exact ⟨_, ⟨hvalue, rfl⟩, rfl⟩
    case h_2 =>
      rw [decryptAccepts_flag_iff (.inr rfl)]
      simp only [bind_eq_ok, parseBooleanOption_eq_ok, eq_flag_iff, pure_eq_ok, Except.ok.injEq]
      constructor
      · rintro ⟨_, ⟨hvalue, -⟩, rfl⟩
        exact ⟨hvalue, rfl⟩
      · rintro ⟨hvalue, rfl⟩
        exact ⟨_, ⟨hvalue, rfl⟩, rfl⟩
    case h_13 =>
      refine iff_of_false (raise_ne_ok _ _) ?_
      rintro ⟨haccepts, -⟩
      simp only [DecryptAccepts, encryptionOnly, List.mem_cons, List.not_mem_nil, or_false] at haccepts
      tauto
    all_goals simp [DecryptAccepts, encryptionOnly, eq_comm]

theorem exists_parseDecryptOption_iff : (∃ parsed', parseDecryptOption parsed item = .ok parsed') ↔
    ∃ name value, reading item = some (name, value) ∧ DecryptAccepts name value := by
  simp only [parseDecryptOption_eq_ok]
  constructor
  · rintro ⟨_, name, value, hreading, haccepts, -⟩
    exact ⟨name, value, hreading, haccepts⟩
  · rintro ⟨name, value, hreading, haccepts⟩
    exact ⟨_, name, value, hreading, haccepts, rfl⟩

end Items

section Strings
variable {o o' : String}

theorem exists_parseDecryptOptions_iff : (∃ R, parseDecryptOptions o = .ok R) ↔
    ∀ r ∈ readings o, ∃ name value, r = some (name, value) ∧ DecryptAccepts name value := by
  rw [readings, List.forall_mem_map]
  refine exists_foldlM_iff ?_ (optionItems o) ({} : DecryptOptions)
  intro R item
  exact exists_parseDecryptOption_iff

theorem parseDecryptOptions_convertCrlf {R : DecryptOptions} (h : parseDecryptOptions o = .ok R) :
    R.convertCrlf = decide (lastValue o "convert-crlf" = some "1") := by
  have hkeep : ∀ Q item Q', parseDecryptOption Q item = .ok Q' → valueOf "convert-crlf" item = none →
      Q'.convertCrlf = Q.convertCrlf := by
    intro Q item Q' hstep hvalue
    obtain ⟨name, value, hreading, -, rfl⟩ := parseDecryptOption_eq_ok.mp hstep
    have hname : name ≠ "convert-crlf" := by
      rintro rfl
      simp [valueOf, hreading] at hvalue
    rw [if_neg hname]
  have hset : ∀ Q item Q' value, parseDecryptOption Q item = .ok Q' →
      valueOf "convert-crlf" item = some value → Q'.convertCrlf = decide (value = "1") := by
    intro Q item Q' value hstep hvalue
    obtain ⟨name, value', hreading, -, rfl⟩ := parseDecryptOption_eq_ok.mp hstep
    rw [valueOf_eq_some, hreading, Option.some.injEq, Prod.mk.injEq] at hvalue
    obtain ⟨rfl, rfl⟩ := hvalue
    rw [if_pos rfl]
  have hlast := @foldlM_last_write _ _ _ _ _ parseDecryptOption DecryptOptions.convertCrlf
    (valueOf "convert-crlf") (fun value flag => flag = decide (value = "1")) hkeep hset _ _ _ h
  rw [lastValue]
  generalize ((optionItems o).filterMap (valueOf "convert-crlf")).getLast? = last at hlast
  cases last with
  | none => simpa using hlast
  | some value => simpa using hlast

theorem parseDecryptOptions_congr (hmem : ∀ r, r ∈ readings o' ↔ r ∈ readings o)
    (hlast : lastValue o' "convert-crlf" = lastValue o "convert-crlf") :
    (parseDecryptOptions o').toOption = (parseDecryptOptions o).toOption := by
  have hiff : (∃ R, parseDecryptOptions o' = .ok R) ↔ ∃ R, parseDecryptOptions o = .ok R := by
    rw [exists_parseDecryptOptions_iff, exists_parseDecryptOptions_iff]
    simp only [hmem]
  cases h : parseDecryptOptions o with
  | ok R =>
    obtain ⟨R', h'⟩ := hiff.mpr ⟨R, h⟩
    have hflag : R'.convertCrlf = R.convertCrlf := by
      rw [parseDecryptOptions_convertCrlf h, parseDecryptOptions_convertCrlf h', hlast]
    have heq : R' = R := by
      obtain ⟨⟩ := R
      obtain ⟨⟩ := R'
      exact congrArg DecryptOptions.mk hflag
    rw [h', heq]
  | error e =>
    cases h' : parseDecryptOptions o' with
    | error e' => rfl
    | ok R' =>
      obtain ⟨R, hR⟩ := hiff.mp ⟨R', h'⟩
      rw [h] at hR
      cases hR

/-- What is the same for encryption is the same for decryption. -/
theorem parseDecryptOptions_of_sameOptions (h : SameOptions o o') :
    (parseDecryptOptions o').toOption = (parseDecryptOptions o).toOption := by
  have hreadings : ∀ {o o' : String}, readings o = readings o' →
      (parseDecryptOptions o').toOption = (parseDecryptOptions o).toOption := by
    intro o o' hreadings
    refine parseDecryptOptions_congr ?_ ?_
    · intro r
      rw [hreadings]
    · rw [lastValue_eq, lastValue_eq, hreadings]
  induction h with
  | @reorder o o' hperm horder =>
    refine parseDecryptOptions_congr ?_ ?_
    · intro r
      exact (hperm.map reading).mem_iff.symm
    · rw [lastValue, lastValue, ← filterMap_filter_isSome, ← horder, filterMap_filter_isSome]
  | @blanks o o' h => exact hreadings (by rw [readings_eq, readings_eq, h])
  | respell h => exact hreadings (readings_of_respelled h)
  | trans _ _ ih ih' => exact ih'.trans ih

end Strings

/-- The meaning of a decryption option string: it is accepted exactly when every item has a
known name, with a digit as value where the name is not one for encryption only; the flag
is the one of the last item naming it; and order, blank items and spelling do not matter. -/
theorem parseDecryptOptions_meaning (o : String) :
    ((∃ R, parseDecryptOptions o = .ok R) ↔ ∀ item ∈ optionItems o, ∃ name value,
      reading item = some (name, value) ∧ DecryptAccepts name value) ∧
    (∀ R, parseDecryptOptions o = .ok R →
      R.convertCrlf = decide (lastValue o "convert-crlf" = some "1")) ∧
    (∀ o', SameOptions o o' → (parseDecryptOptions o').toOption = (parseDecryptOptions o).toOption) := by
  refine ⟨?_, ?_, ?_⟩
  · rw [exists_parseDecryptOptions_iff, readings, List.forall_mem_map]
  · intro R hR
    exact parseDecryptOptions_convertCrlf hR
  · intro o' h
    exact parseDecryptOptions_of_sameOptions h

theorem parseDecryptOptions_meaning_respelled :
    lastValue "cipher-algo=none, Convert-CRLF = 0,convert-crlf=1" "convert-crlf" = some "1" ∧
      (parseDecryptOptions "cipher-algo=none, Convert-CRLF = 0,convert-crlf=1,,").toOption =
        some { convertCrlf := true } ∧
      ¬ ∃ R, parseDecryptOptions "convert-crlf=yes" = .ok R := by
  have hok : parseDecryptOptions "cipher-algo=none, Convert-CRLF = 0,convert-crlf=1" =
      .ok { convertCrlf := true } := by rfl
  refine ⟨?_, ?_, ?_⟩
  · exact of_decide_eq_true ((parseDecryptOptions_meaning _).2.1 _ hok).symm
  · refine ((parseDecryptOptions_meaning "cipher-algo=none, Convert-CRLF = 0,convert-crlf=1").2.2 _
      (.blanks (by decide +kernel))).trans ?_
    rw [hok]
    rfl
  · rw [(parseDecryptOptions_meaning _).1]
    intro h
    obtain ⟨name, value, hreading, haccepts⟩ := h "convert-crlf=yes" (by decide +kernel)
    have hvalue : reading "convert-crlf=yes" = some ("convert-crlf", "yes") := by rfl
    rw [hvalue] at hreading
    cases hreading
    simp [DecryptAccepts, encryptionOnly] at haccepts

end PgCrypto.Pgp
