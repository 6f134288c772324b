import PgCrypto.Pgp.Options

/-! # What a single option item means

Whether an item is accepted never depends on the items before it, so each item
denotes a setting or fails, and the loops only apply settings in order. The
checked ranges are recorded on the setting, which is where every later invariant
of the parsed options comes from.
-/
namespace PgCrypto.Pgp
open Str

/-- The meaning of an accepted item. -/
inductive Setting where
  | cipherAlgo (cipher : SymmetricAlgorithm)
  | compressAlgo (compression : CompressionAlgorithm)
  | compressLevel (level : UInt8)
  | unicodeMode (flag : Bool)
  | convertCrlf (flag : Bool)
  | s2kMode (mode : UInt8)
  | s2kDigestAlgo (digest : HashAlgorithm)
  | s2kCipherAlgo (cipher : SymmetricAlgorithm)
  | s2kCount (count : UInt32)
  | sessKey (flag : Bool)
  | disableMdc (flag : Bool)
  | ignoreCipherFailure (flag : Bool)
  deriving DecidableEq, Repr

/-- Reading one name and value, as the encryption parser accepts them. -/
def readNamed (name value : String) : Outcome Setting :=
  match toAsciiLowercase (trim name) with
  | "cipher-algo" => .cipherAlgo <$> parseCipher value
  | "compress-algo" => .compressAlgo <$> parseCompression value
  | "compress-level" => .compressLevel <$> parseCompressionLevel value
  | "unicode-mode" => .unicodeMode <$> parseBooleanOption name value
  | "convert-crlf" => .convertCrlf <$> parseBooleanOption name value
  | "s2k-mode" => .s2kMode <$> parseS2kMode value
  | "s2k-digest-algo" => .s2kDigestAlgo <$> parseS2kDigest value
  | "s2k-cipher-algo" => .s2kCipherAlgo <$> parseS2kCipher value
  | "s2k-count" => .s2kCount <$> parseS2kCount value
  | "sess-key" => .sessKey <$> parseBooleanOption name value
  | "disable-mdc" => do
    if ← parseBooleanOption name value then
      raise "generating OpenPGP messages without integrity protection is not supported"
    pure (.disableMdc false)
  | "ignore-cipher-failure" => .ignoreCipherFailure <$> parseBooleanOption name value
  | other => raise ("unknown PGP option: " ++ other)

def readSetting (item : String) : Outcome Setting :=
  match splitOnce item '=' with
  | none => raise ("invalid PGP option: " ++ item)
  | some (name, value) => readNamed name value

def PgpOptions.apply (options : PgpOptions) : Setting → PgpOptions
  | .cipherAlgo cipher => { options with cipher := cipher }
  | .compressAlgo compression => { options with compression := compression }
  | .compressLevel level => { options with compressionLevel := level }
  | .unicodeMode flag => { options with unicodeMode := flag }
  | .convertCrlf flag => { options with convertCrlf := flag }
  | .s2kMode mode => { options with s2kMode := mode }
  | .s2kDigestAlgo digest => { options with s2kDigest := digest }
  | .s2kCipherAlgo cipher => { options with s2kCipher := some cipher }
  | .s2kCount count => { options with s2kCount := some count }
  | .sessKey flag => { options with useSessionKey := flag }
  | .disableMdc _ => options
  | .ignoreCipherFailure _ => options

def DecryptOptions.apply (options : DecryptOptions) : Setting → DecryptOptions
  | .convertCrlf flag => { options with convertCrlf := flag }
  | _ => options

/-- The encryption loop body reads a setting and applies it. -/
theorem parseOption_eq (parsed : PgpOptions) (item : String) :
    parseOption parsed item = parsed.apply <$> readSetting item := by
  rw [parseOption, readSetting]
  cases splitOnce item '=' with
  | none => rfl
  | some p =>
    obtain ⟨name, value⟩ := p
    simp only [readNamed]
    -- The key is generalized first, so that both tables are split on the same literals.
    generalize toAsciiLowercase (trim name) = key
    split
    case h_1 => cases parseCipher value <;> rfl
    case h_2 => cases parseCompression value <;> rfl
    case h_3 => cases parseCompressionLevel value <;> rfl
    case h_4 => cases parseBooleanOption name value <;> rfl
    case h_5 => cases parseBooleanOption name value <;> rfl
    case h_6 => cases parseS2kMode value <;> rfl
    case h_7 => cases parseS2kDigest value <;> rfl
    case h_8 => cases parseS2kCipher value <;> rfl
    case h_9 => cases parseS2kCount value <;> rfl
    case h_10 => cases parseBooleanOption name value <;> rfl
    case h_11 =>
      cases parseBooleanOption name value with
      | error e => rfl
      | ok flag => cases flag <;> rfl
    case h_12 => cases parseBooleanOption name value <;> rfl
    case h_13 => simp only [raise, Functor.map, Except.map]

theorem parseOption_eq_ok {parsed parsed' : PgpOptions} {item : String} :
    parseOption parsed item = .ok parsed' ↔
      ∃ s, readSetting item = .ok s ∧ parsed.apply s = parsed' := by
  rw [parseOption_eq, map_eq_ok]

/-- The option name of a setting. -/
def Setting.key : Setting → String
  | .cipherAlgo _ => "cipher-algo"
  | .compressAlgo _ => "compress-algo"
  | .compressLevel _ => "compress-level"
  | .unicodeMode _ => "unicode-mode"
  | .convertCrlf _ => "convert-crlf"
  | .s2kMode _ => "s2k-mode"
  | .s2kDigestAlgo _ => "s2k-digest-algo"
  | .s2kCipherAlgo _ => "s2k-cipher-algo"
  | .s2kCount _ => "s2k-count"
  | .sessKey _ => "sess-key"
  | .disableMdc _ => "disable-mdc"
  | .ignoreCipherFailure _ => "ignore-cipher-failure"

/-- The value a setting is read from. -/
def Setting.ReadFrom (value : String) : Setting → Prop
  | .cipherAlgo cipher => parseCipher value = .ok cipher
  | .compressAlgo compression => parseCompression value = .ok compression
  | .compressLevel level => parseCompressionLevel value = .ok level
  | .s2kMode mode => parseS2kMode value = .ok mode
  | .s2kDigestAlgo digest => parseS2kDigest value = .ok digest
  | .s2kCipherAlgo cipher => parseS2kCipher value = .ok cipher
  | .s2kCount count => parseS2kCount value = .ok count
  | .disableMdc flag => flag = false ∧ trim value = "0"
  | .unicodeMode flag | .convertCrlf flag | .sessKey flag | .ignoreCipherFailure flag =>
    trim value = if flag then "1" else "0"

/-- The name only goes into the message of a refused flag. -/
theorem parseBooleanOption_eq_ok {name value : String} {flag : Bool} :
    parseBooleanOption name value = .ok flag ↔ trim value = if flag then "1" else "0" := by
  unfold parseBooleanOption
  split
  · next h => cases flag <;> simp [h]
  · next h => cases flag <;> simp [h]
  · next h0 h1 =>
    refine iff_of_false (raise_ne_ok _ _) ?_
    cases flag with
    | false => exact h0
    | true => exact h1

/-- The table of names, inverted. -/
theorem readNamed_eq_ok {name value : String} {s : Setting} :
    readNamed name value = .ok s ↔ toAsciiLowercase (trim name) = s.key ∧ s.ReadFrom value := by
  constructor
  · intro h
    unfold readNamed at h
    split at h
    case h_11 hname =>
      obtain ⟨flag, hflag, h⟩ := bind_eq_ok.mp h
      cases flag with
      | true => simp at h
      | false =>
        simp only [Bool.false_eq_true, if_false, pure_eq_ok, Except.ok.injEq] at h
        subst h
        exact ⟨hname, rfl, parseBooleanOption_eq_ok.mp hflag⟩
    case h_13 => simp at h
    case h_4 hname | h_5 hname | h_10 hname | h_12 hname =>
      obtain ⟨flag, hflag, rfl⟩ := map_eq_ok.mp h
      exact ⟨hname, parseBooleanOption_eq_ok.mp hflag⟩
    case h_1 hname | h_2 hname | h_3 hname | h_6 hname | h_7 hname | h_8 hname | h_9 hname =>
      obtain ⟨a, ha, rfl⟩ := map_eq_ok.mp h
      exact ⟨hname, ha⟩
  · rintro ⟨hname, h⟩
    unfold readNamed
    rw [hname]
    cases s with
    | disableMdc flag =>
      obtain ⟨rfl, hvalue⟩ := h
      simp [Setting.key, parseBooleanOption, hvalue]
    | unicodeMode flag | convertCrlf flag | sessKey flag | ignoreCipherFailure flag =>
      simp only [Setting.key]
      exact map_eq_ok.mpr ⟨flag, parseBooleanOption_eq_ok.mpr h, rfl⟩
    | _ a =>
      simp only [Setting.key]
      exact map_eq_ok.mpr ⟨a, h, rfl⟩

theorem readSetting_inv {item : String} {s : Setting} (h : readSetting item = .ok s) :
    ∃ name value, splitOnce item '=' = some (name, value) ∧ toAsciiLowercase (trim name) = s.key ∧
      s.ReadFrom value := by
  unfold readSetting at h
  split at h
  · simp at h
  · next name value hsplit => exact ⟨name, value, hsplit, readNamed_eq_ok.mp h⟩

/-- The decryption loop body accepts every item the encryption loop accepts, and
applies the same setting to its one field. -/
theorem parseDecryptOption_of_readSetting {item : String} {s : Setting} (parsed : DecryptOptions)
    (h : readSetting item = .ok s) : parseDecryptOption parsed item = .ok (parsed.apply s) := by
  obtain ⟨name, value, hsplit, hkey, hread⟩ := readSetting_inv h
  rw [parseDecryptOption, hsplit]
  simp only [hkey]
  cases s with
  | convertCrlf flag | ignoreCipherFailure flag =>
    simp only [Setting.key]
    rw [parseBooleanOption_eq_ok.mpr hread]
    rfl
  | _ => rfl

/-- The ciphers that the option tables can name. -/
def SymmetricAlgorithm.Named : SymmetricAlgorithm → Prop
  | .other _ => False
  | _ => True

/-- The checked range of each setting. -/
def Setting.Valid : Setting → Prop
  | .cipherAlgo cipher => cipher.Named
  | .compressLevel level => level ≤ 9
  | .s2kMode mode => mode = 0 ∨ mode = 1 ∨ mode = 3
  | .s2kCipherAlgo cipher => cipher.Named
  | .s2kCount count => 1024 ≤ count ∧ count ≤ 65011712
  | .disableMdc flag => flag = false
  | _ => True

theorem parseCipher_named {value : String} {cipher : SymmetricAlgorithm}
    (h : parseCipher value = .ok cipher) : cipher.Named := by
  unfold parseCipher at h
  split at h <;> first | (cases h; trivial) | simp at h

theorem parseS2kCipher_named {value : String} {cipher : SymmetricAlgorithm}
    (h : parseS2kCipher value = .ok cipher) : cipher.Named := by
  unfold parseS2kCipher at h
  split at h <;> first | (cases h; trivial) | simp at h

theorem parseCompressionLevel_le {value : String} {level : UInt8}
    (h : parseCompressionLevel value = .ok level) : level ≤ 9 := by
  unfold parseCompressionLevel at h
  split at h
  · simp at h
  · split at h
    · simp at h
    · next hlt =>
      cases h
      exact UInt8.not_lt.mp hlt

theorem parseS2kMode_mem {value : String} {mode : UInt8}
    (h : parseS2kMode value = .ok mode) : mode = 0 ∨ mode = 1 ∨ mode = 3 := by
  unfold parseS2kMode at h
  split at h
  · simp at h
  · split at h
    · next hm => cases h; exact hm
    · simp at h

theorem parseS2kCount_range {value : String} {count : UInt32}
    (h : parseS2kCount value = .ok count) : 1024 ≤ count ∧ count ≤ 65011712 := by
  unfold parseS2kCount at h
  split at h
  · simp at h
  · split at h
    · next hc => cases h; exact hc
    · simp at h

/-- Every accepted item denotes a setting inside its checked range. -/
theorem Setting.ReadFrom.valid {value : String} {s : Setting} (h : s.ReadFrom value) : s.Valid := by
  cases s with
  | cipherAlgo cipher => exact parseCipher_named h
  | compressLevel level => exact parseCompressionLevel_le h
  | s2kMode mode => exact parseS2kMode_mem h
  | s2kCipherAlgo cipher => exact parseS2kCipher_named h
  | s2kCount count => exact parseS2kCount_range h
  | disableMdc flag => exact h.1
  | compressAlgo _ | unicodeMode _ | convertCrlf _ | s2kDigestAlgo _ | sessKey _ => trivial
  | ignoreCipherFailure _ => trivial

theorem readSetting_valid {item : String} {s : Setting} (h : readSetting item = .ok s) : s.Valid := by
  obtain ⟨name, value, -, -, hread⟩ := readSetting_inv h
  exact hread.valid

theorem parseBooleanOption_noPanic (name value : String) : NoPanic (parseBooleanOption name value) := by
  unfold parseBooleanOption
  split <;> simp

theorem parseCipher_noPanic (value : String) : NoPanic (parseCipher value) := by
  unfold parseCipher
  split <;> simp

theorem parseCompression_noPanic (value : String) : NoPanic (parseCompression value) := by
  unfold parseCompression
  split <;> simp

theorem parseCompressionLevel_noPanic (value : String) : NoPanic (parseCompressionLevel value) := by
  unfold parseCompressionLevel
  split
  · exact noPanic_raise _
  · split <;> simp

theorem parseS2kMode_noPanic (value : String) : NoPanic (parseS2kMode value) := by
  unfold parseS2kMode
  split
  · exact noPanic_raise _
  · split <;> simp

theorem parseS2kDigest_noPanic (value : String) : NoPanic (parseS2kDigest value) := by
  unfold parseS2kDigest
  split <;> simp

theorem parseS2kCipher_noPanic (value : String) : NoPanic (parseS2kCipher value) := by
  unfold parseS2kCipher
  split <;> simp

theorem parseS2kCount_noPanic (value : String) : NoPanic (parseS2kCount value) := by
  unfold parseS2kCount
  split
  · exact noPanic_raise _
  · split <;> simp

/-- Reading an item can fail, but only by raising. -/
theorem readNamed_noPanic (name value : String) : NoPanic (readNamed name value) := by
  have hbool := parseBooleanOption_noPanic name value
  unfold readNamed
  split
  case h_1 => exact (parseCipher_noPanic value).map _
  case h_2 => exact (parseCompression_noPanic value).map _
  case h_3 => exact (parseCompressionLevel_noPanic value).map _
  case h_6 => exact (parseS2kMode_noPanic value).map _
  case h_7 => exact (parseS2kDigest_noPanic value).map _
  case h_8 => exact (parseS2kCipher_noPanic value).map _
  case h_9 => exact (parseS2kCount_noPanic value).map _
  case h_11 =>
    refine hbool.bind ?_
    intro flag _
    cases flag with
    | true => exact noPanic_raise _
    | false => exact noPanic_ok _
  case h_13 => exact noPanic_raise _
  all_goals exact hbool.map _

theorem readSetting_noPanic (item : String) : NoPanic (readSetting item) := by
  unfold readSetting
  split
  · exact noPanic_raise _
  · exact readNamed_noPanic _ _

theorem parseOptions_noPanic (o : String) (text : Bool) : NoPanic (parseOptions o text) := by
  have hstep : ∀ P item, NoPanic (parseOption P item) := by
    intro P item
    rw [parseOption_eq]
    exact (readSetting_noPanic item).map _
  refine (NoPanic.foldlM hstep _ _).bind ?_
  intro P _
  dsimp only
  split
  · exact noPanic_raise _
  · exact noPanic_ok _

/-- What holds of the options before and after every item of the loop. -/
structure PgpOptions.Checked (text : Bool) (options : PgpOptions) : Prop where
  textInput : options.textInput = text
  cipher : options.cipher.Named
  compressionLevel : options.compressionLevel ≤ 9
  s2kMode : options.s2kMode = 0 ∨ options.s2kMode = 1 ∨ options.s2kMode = 3
  s2kCount : ∀ count, options.s2kCount = some count → 1024 ≤ count ∧ count ≤ 65011712
  s2kCipher : ∀ cipher, options.s2kCipher = some cipher → cipher.Named

theorem PgpOptions.checked_default (text : Bool) : Checked text { textInput := text } where
  textInput := rfl
  cipher := trivial
  compressionLevel := show (6 : UInt8) ≤ 9 by decide
  s2kMode := Or.inr (Or.inr rfl)
  s2kCount := by simp
  s2kCipher := by simp

theorem PgpOptions.Checked.apply {text : Bool} {options : PgpOptions} (h : Checked text options)
    {s : Setting} (hs : s.Valid) : Checked text (options.apply s) := by
  cases s with
  | cipherAlgo cipher => exact { h with cipher := hs }
  | compressLevel level => exact { h with compressionLevel := hs }
  | s2kMode mode => exact { h with s2kMode := hs }
  | s2kCipherAlgo cipher => exact { h with s2kCipher := by rintro c ⟨⟩; exact hs }
  | s2kCount count => exact { h with s2kCount := by rintro c ⟨⟩; exact hs }
  | compressAlgo _ | unicodeMode _ | convertCrlf _ | s2kDigestAlgo _ | sessKey _ => exact { h with }
  | disableMdc _ | ignoreCipherFailure _ => exact h

/-- The encryption parser as a loop followed by its one cross-field check. -/
theorem parseOptions_eq_ok {o : String} {text : Bool} {P : PgpOptions} :
    parseOptions o text = .ok P ↔
      (optionItems o).foldlM parseOption { textInput := text } = .ok P ∧
        (P.s2kCount.isSome → P.s2kMode = 3) := by
  unfold parseOptions
  simp only [bind_eq_ok, pure_eq_ok]
  constructor
  · rintro ⟨Q, hQ, h⟩
    split at h
    · simp at h
    · next hn =>
      simp only [Except.ok.injEq] at h
      subst h
      refine ⟨hQ, ?_⟩
      intro hc
      by_contra hm
      exact hn ⟨hc, hm⟩
  · rintro ⟨hP, hm⟩
    refine ⟨P, hP, ?_⟩
    rw [if_neg (fun hn => hn.2 (hm hn.1))]

theorem parseOptions_checked {o : String} {text : Bool} {P : PgpOptions}
    (h : parseOptions o text = .ok P) : P.Checked text := by
  refine foldlM_invariant (PgpOptions.Checked text) ?_ _ (PgpOptions.checked_default text)
    (parseOptions_eq_ok.mp h).1
  intro Q item Q' hQ he
  obtain ⟨s, hs, rfl⟩ := parseOption_eq_ok.mp he
  exact hQ.apply (readSetting_valid hs)

theorem parseOptions_readSetting {o : String} {text : Bool} {P : PgpOptions}
    (h : parseOptions o text = .ok P) {item : String} (hi : item ∈ optionItems o) :
    ∃ s, readSetting item = .ok s := by
  obtain ⟨Q, Q', hQ⟩ := foldlM_mem_ok (parseOptions_eq_ok.mp h).1 hi
  obtain ⟨s, hs, -⟩ := parseOption_eq_ok.mp hQ
  exact ⟨s, hs⟩

/-- An accepted item whose name is `disable-mdc` carries the value 0. -/
theorem readSetting_disableMdc {item name value : String} {s : Setting}
    (hsplit : splitOnce item '=' = some (name, value))
    (hname : toAsciiLowercase (trim name) = "disable-mdc") (h : readSetting item = .ok s) :
    trim value ≠ "1" := by
  intro hv
  simp [readSetting, hsplit, readNamed, hname, parseBooleanOption, hv] at h

/-- Both loops keep the same CRLF flag, and the decryption loop never fails first. -/
theorem parseDecryptOptions_of_parseOptions {o : String} {text : Bool} {P : PgpOptions}
    (h : parseOptions o text = .ok P) :
    ∃ R, parseDecryptOptions o = .ok R ∧ R.convertCrlf = P.convertCrlf := by
  refine foldlM_simulation (fun (P : PgpOptions) (R : DecryptOptions) => R.convertCrlf = P.convertCrlf)
    ?_ _ rfl (parseOptions_eq_ok.mp h).1
  intro Q R item Q' hQR he
  obtain ⟨s, hs, rfl⟩ := parseOption_eq_ok.mp he
  refine ⟨R.apply s, parseDecryptOption_of_readSetting R hs, ?_⟩
  cases s with
  | convertCrlf flag => rfl
  | _ => exact hQR

end PgCrypto.Pgp
