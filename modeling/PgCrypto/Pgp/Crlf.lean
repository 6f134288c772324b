import PgCrypto.Base.LineEnds
import PgCrypto.Base.Utf8Check
import PgCrypto.Pgp.Settings

/-! # CRLF conversion and the text check on decryption

The two conversion loops are kept as they run, over indices and an output buffer.
Each computes its line-end function on every input, so the text check sees the
same characters with and without conversion, up to the carriage returns dropped.
-/
namespace PgCrypto.Pgp
open Utf8 LineEnds

/-- The encoding loop: a CR is pushed before every LF. -/
def crlfEncode (data : Bytes) : Bytes :=
  data.foldl (fun output byte => (if byte = 10 then output ++ [13] else output) ++ [byte]) []

/-- The decoding loop at an index. The second read is the one that could go out of
range, since the index has just been advanced past a CR. -/
def crlfDecodeLoop (data : Bytes) (index : ℕ) (output : Bytes) : Outcome Bytes :=
  if h : index < data.length then
    let next := if data[index] = 13 ∧ data[index + 1]? = some 10 then index + 1 else index
    match data[next]? with
    | some byte => crlfDecodeLoop data (next + 1) (output ++ [byte])
    | none => abort "index out of bounds"
  else .ok output
termination_by data.length - index
decreasing_by
  split <;> omega

def crlfDecode (data : Bytes) : Outcome Bytes := crlfDecodeLoop data 0 []

theorem crlfEncode_eq (data : Bytes) : crlfEncode data = expand 13 10 data := by
  have h : ∀ output : Bytes, data.foldl (fun output byte =>
      (if byte = 10 then output ++ [13] else output) ++ [byte]) output = output ++ expand 13 10 data := by
    induction data with
    | nil => simp
    | cons b data ih =>
      intro output
      rw [List.foldl_cons, ih, expand_cons]
      split <;> simp
  exact (h []).trans (List.nil_append _)

/-- The loop invariant: what is left of the input is collapsed onto the output. -/
theorem crlfDecodeLoop_eq (data : Bytes) (index : ℕ) (output : Bytes) :
    crlfDecodeLoop data index output = .ok (output ++ collapse 13 10 (data.drop index)) := by
  rw [crlfDecodeLoop]
  split
  · next h =>
    have hdrop : data.drop index = data[index] :: data.drop (index + 1) := List.drop_eq_getElem_cons h
    by_cases hpair : data[index] = 13 ∧ data[index + 1]? = some 10
    · obtain ⟨hlt, hlf⟩ := List.getElem?_eq_some_iff.mp hpair.2
      have hdrop' := List.drop_eq_getElem_cons hlt
      rw [if_pos hpair]
      dsimp only
      rw [hpair.2]
      dsimp only
      rw [crlfDecodeLoop_eq data (index + 1 + 1), hdrop, hpair.1, hdrop', hlf, collapse_pair]
      simp
    · rw [if_neg hpair]
      dsimp only
      rw [List.getElem?_eq_getElem h]
      dsimp only
      rw [crlfDecodeLoop_eq data (index + 1), hdrop]
      by_cases hcr : data[index] = 13
      · rw [collapse_cons_of_head_ne (fun hh => hpair ⟨hcr, by rw [← hh, List.head?_drop]⟩)]
        simp
      · rw [collapse_cons_of_ne hcr]
        simp
  · next h => simp [List.drop_eq_nil_of_le (not_lt.mp h)]
termination_by data.length - index

theorem crlfDecode_eq (data : Bytes) : crlfDecode data = .ok (collapse 13 10 data) := by
  rw [crlfDecode, crlfDecodeLoop_eq, List.nil_append, List.drop_zero]

/-- Decoding undoes encoding on every byte string, and encoding undoes decoding exactly on
the strings that have a CR directly before every LF, which are the encoded strings.
The decoding loop ends in range from every index. -/
theorem crlf_codec : (∀ x, crlfDecode (crlfEncode x) = .ok x) ∧
    (∀ y, ∃ x, crlfDecode y = .ok x ∧ (crlfEncode x = y ↔ Marked 13 10 y)) ∧
    (∀ y, (∃ x, crlfEncode x = y) ↔ Marked 13 10 y) ∧ Function.Injective crlfEncode ∧
    ∀ y index output, ∃ rest, crlfDecodeLoop y index output = .ok (output ++ rest) := by
  have hencode : crlfEncode = expand 13 10 := funext crlfEncode_eq
  have hne : (13 : UInt8) ≠ 10 := by decide
  rw [hencode]
  refine ⟨?_, ?_, ?_, expand_injective hne, ?_⟩
  · intro x
    rw [crlfDecode_eq, collapse_expand hne]
  · intro y
    exact ⟨collapse 13 10 y, crlfDecode_eq y, expand_collapse_iff hne⟩
  · intro y
    exact exists_expand_iff hne
  · intro y index output
    exact ⟨_, crlfDecodeLoop_eq y index output⟩

example : crlfDecode [13, 13, 10, 13] = .ok [13, 10, 13] := by
  rw [crlfDecode_eq]
  decide

def literalUnknown : UInt8 := 0
def literalBinary : UInt8 := 1
def literalText : UInt8 := 2
def literalUnicode : UInt8 := 3

def decryptedText (data : Bytes) (format : UInt8) (options : DecryptOptions) : Outcome String :=
  if ¬ (format = literalText ∨ format = literalUnicode) then
    raise "decrypted OpenPGP data is not text"
  else do
    let data ← (if options.convertCrlf then crlfDecode data else .ok data : Outcome Bytes)
    if data.contains 0 then raise "decrypted text contains a NUL byte"
    else orRaise "decrypted data is not valid UTF-8" (stringFromUtf8 data)

/-- Text as the database hands it over: valid UTF-8 without NUL. -/
abbrev PgText := {s : String // (0 : UInt8) ∉ utf8 s}

def decoded (options : DecryptOptions) (data : Bytes) : Bytes :=
  if options.convertCrlf then collapse 13 10 data else data

theorem decryptedText_eq_ok {data : Bytes} {format : UInt8} {options : DecryptOptions} {s : String} :
    decryptedText data format options = .ok s ↔
      (format = literalText ∨ format = literalUnicode) ∧ (0 : UInt8) ∉ decoded options data ∧
        utf8 s = decoded options data := by
  have hd : (if options.convertCrlf then crlfDecode data else .ok data) = .ok (decoded options data) := by
    unfold decoded
    split
    · exact crlfDecode_eq data
    · rfl
  unfold decryptedText
  rw [hd]
  by_cases hf : format = literalText ∨ format = literalUnicode
  · simp only [hf, not_true_eq_false, if_false, ok_bind, true_and]
    by_cases h0 : (0 : UInt8) ∈ decoded options data
    · simp [h0]
    · simp [h0, fromUtf8_eq_some]
  · simp [hf]

theorem decoded_isSome (options : DecryptOptions) (data : Bytes) :
    (fromUtf8 (decoded options data)).isSome ↔ (fromUtf8 data).isSome := by
  unfold decoded
  split
  · exact fromUtf8_collapse_isSome data
  · exact Iff.rfl

theorem zero_mem_decoded (options : DecryptOptions) (data : Bytes) :
    (0 : UInt8) ∈ decoded options data ↔ (0 : UInt8) ∈ data := by
  unfold decoded
  split
  · exact mem_collapse (by decide) data
  · exact Iff.rfl

theorem exists_decryptedText_iff {data : Bytes} {format : UInt8} {options : DecryptOptions} :
    (∃ s, decryptedText data format options = .ok s) ↔
      (format = literalText ∨ format = literalUnicode) ∧ (0 : UInt8) ∉ data ∧ (fromUtf8 data).isSome := by
  rw [← decoded_isSome options data, ← zero_mem_decoded options data, Option.isSome_iff_exists]
  simp only [decryptedText_eq_ok, fromUtf8_eq_some]
  constructor
  · rintro ⟨s, hformat, hzero, hs⟩
    exact ⟨hformat, hzero, s, hs⟩
  · rintro ⟨hformat, hzero, s, hs⟩
    exact ⟨s, hformat, hzero, hs⟩

theorem exists_decryptedText (t : PgText) (encoded : Bool) {format : UInt8}
    (hformat : format = literalText ∨ format = literalUnicode) (options : DecryptOptions) :
    ∃ s, decryptedText (if encoded then expand 13 10 (utf8 t.val) else utf8 t.val) format options = .ok s := by
  have hvalid : (fromUtf8 (utf8 t.val)).isSome := by simp
  refine exists_decryptedText_iff.mpr ⟨hformat, ?_, ?_⟩
  · split
    · rw [mem_expand (by decide)]
      exact t.property
    · exact t.property
  · split
    · exact (fromUtf8_expand_isSome _).mpr hvalid
    · exact hvalid

/-- CRLF conversion never changes whether decrypted data is accepted as text: both
conversions keep validity and NUL bytes, so that a text that was encrypted, converted
or not, is decrypted to a text under either setting. -/
theorem decryptedText_fails_iff (data : Bytes) (format : UInt8) :
    ((∃ e, decryptedText data format { convertCrlf := true } = .error e) ↔
      ∃ e, decryptedText data format { convertCrlf := false } = .error e) ∧
    (∃ plain, crlfDecode data = .ok plain ∧ ((fromUtf8 plain).isSome ↔ (fromUtf8 data).isSome) ∧
      ((0 : UInt8) ∈ plain ↔ (0 : UInt8) ∈ data)) ∧
    ((fromUtf8 (crlfEncode data)).isSome ↔ (fromUtf8 data).isSome) ∧
    ∀ (t : PgText) (encoded unicode : Bool) (options : DecryptOptions), ∃ s,
      decryptedText (if encoded then crlfEncode (utf8 t.val) else utf8 t.val)
        (if unicode then literalUnicode else literalText) options = .ok s := by
  refine ⟨?_, ?_, ?_, ?_⟩
  · rw [exists_error_iff, exists_error_iff, exists_decryptedText_iff, exists_decryptedText_iff]
  · exact ⟨collapse 13 10 data, crlfDecode_eq data, fromUtf8_collapse_isSome data,
      mem_collapse (by decide) data⟩
  · rw [crlfEncode_eq]
    exact fromUtf8_expand_isSome data
  · intro t encoded unicode options
    rw [crlfEncode_eq]
    exact exists_decryptedText t encoded (by cases unicode <;> decide) options

end PgCrypto.Pgp
