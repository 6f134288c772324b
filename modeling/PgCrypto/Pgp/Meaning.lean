import PgCrypto.Pgp.Settings

/-! # The meaning of an encryption option string

An item is read as a lower-case name and a trimmed value. Its acceptance and its effect
depend on that reading only, and the field it names keeps the value of the last item
naming it, so the parsed options are a function of the readings of each name. The one
check after the loop is a condition on the last readings of two names.
-/
namespace PgCrypto.Pgp
open Str

/-- The name and value an item is read as. -/
def reading (item : String) : Option (String × String) :=
  (splitOnce item '=').map (fun p => (toAsciiLowercase (trim p.1), trim p.2))

/-- The value an item gives to an option, if it names that option. -/
def valueOf (name item : String) : Option String :=
  (reading item).bind (fun p => if p.1 = name then some p.2 else none)

/-- The value of the last item naming an option. -/
def lastValue (o name : String) : Option String :=
  ((optionItems o).filterMap (valueOf name)).getLast?

section Readings

theorem valueOf_eq_some {name item value : String} :
    valueOf name item = some value ↔ reading item = some (name, value) := by
  unfold valueOf
  cases reading item with
  | none => simp
  | some p =>
    obtain ⟨key, v⟩ := p
    by_cases hkey : key = name
    · simp [hkey]
    · simp [hkey]

theorem Setting.readFrom_trim (value : String) (s : Setting) :
    s.ReadFrom (trim value) ↔ s.ReadFrom value := by
  cases s with
  | cipherAlgo c => unfold ReadFrom parseCipher; rw [trim_trim]
  | compressAlgo c => unfold ReadFrom parseCompression; rw [trim_trim]
  | compressLevel l => unfold ReadFrom parseCompressionLevel; rw [trim_trim]
  | s2kMode m => unfold ReadFrom parseS2kMode; rw [trim_trim]
  | s2kDigestAlgo d => unfold ReadFrom parseS2kDigest; rw [trim_trim]
  | s2kCipherAlgo c => unfold ReadFrom parseS2kCipher; rw [trim_trim]
  | s2kCount n => unfold ReadFrom parseS2kCount; rw [trim_trim]
  | disableMdc f | unicodeMode f | convertCrlf f | sessKey f | ignoreCipherFailure f =>
    simp only [ReadFrom, trim_trim]

/-- An item is accepted through its reading alone. -/
theorem readSetting_eq_ok {item : String} {s : Setting} :
    readSetting item = .ok s ↔ ∃ value, reading item = some (s.key, value) ∧ s.ReadFrom value := by
  rw [readSetting, reading]
  cases splitOnce item '=' with
  | none => simp
  | some p =>
    obtain ⟨name, value⟩ := p
    simp only [readNamed_eq_ok, Option.map_some, Option.some.injEq, Prod.mk.injEq]
    constructor
    · rintro ⟨hname, h⟩
      exact ⟨trim value, ⟨hname, rfl⟩, (s.readFrom_trim value).mpr h⟩
    · rintro ⟨-, ⟨hname, rfl⟩, h⟩
      exact ⟨hname, (s.readFrom_trim value).mp h⟩

end Readings

section Fields
variable {γ : Type}

/-- A field of the parsed options with the name and the parser that set it: a setting of
that name stores what the parser returns, and any other leaves the field alone. -/
structure Field (γ : Type) where
  name : String
  get : PgpOptions → γ
  parse : String → Outcome γ
  get_apply : ∀ (P : PgpOptions) (s : Setting) (value : String), s.ReadFrom value →
    (s.key = name ∧ parse value = .ok (get (P.apply s))) ∨ (s.key ≠ name ∧ get (P.apply s) = get P)

def cipherField : Field SymmetricAlgorithm where
  name := "cipher-algo"
  get := PgpOptions.cipher
  parse := parseCipher
  get_apply := by
    intro P s value h
    cases s with
    | cipherAlgo cipher => exact .inl ⟨rfl, h⟩
    | _ => exact .inr ⟨by simp [Setting.key], rfl⟩

def compressionField : Field CompressionAlgorithm where
  name := "compress-algo"
  get := PgpOptions.compression
  parse := parseCompression
  get_apply := by
    intro P s value h
    cases s with
    | compressAlgo compression => exact .inl ⟨rfl, h⟩
    | _ => exact .inr ⟨by simp [Setting.key], rfl⟩

def compressionLevelField : Field UInt8 where
  name := "compress-level"
  get := PgpOptions.compressionLevel
  parse := parseCompressionLevel
  get_apply := by
    intro P s value h
    cases s with
    | compressLevel level => exact .inl ⟨rfl, h⟩
    | _ => exact .inr ⟨by simp [Setting.key], rfl⟩

def unicodeModeField : Field Bool where
  name := "unicode-mode"
  get := PgpOptions.unicodeMode
  parse := parseBooleanOption "unicode-mode"
  get_apply := by
    intro P s value h
    cases s with
    | unicodeMode flag => exact .inl ⟨rfl, parseBooleanOption_eq_ok.mpr h⟩
    | _ => exact .inr ⟨by simp [Setting.key], rfl⟩

def convertCrlfField : Field Bool where
  name := "convert-crlf"
  get := PgpOptions.convertCrlf
  parse := parseBooleanOption "convert-crlf"
  get_apply := by
    intro P s value h
    cases s with
    | convertCrlf flag => exact .inl ⟨rfl, parseBooleanOption_eq_ok.mpr h⟩
    | _ => exact .inr ⟨by simp [Setting.key], rfl⟩

def s2kModeField : Field UInt8 where
  name := "s2k-mode"
  get := PgpOptions.s2kMode
  parse := parseS2kMode
  get_apply := by
    intro P s value h
    cases s with
    | s2kMode mode => exact .inl ⟨rfl, h⟩
    | _ => exact .inr ⟨by simp [Setting.key], rfl⟩

def s2kCountField : Field (Option UInt32) where
  name := "s2k-count"
  get := PgpOptions.s2kCount
  parse := fun value => some <$> parseS2kCount value
  get_apply := by
    intro P s value h
    cases s with
    | s2kCount count => exact .inl ⟨rfl, map_eq_ok.mpr ⟨count, h, rfl⟩⟩
    | _ => exact .inr ⟨by simp [Setting.key], rfl⟩

def s2kDigestField : Field HashAlgorithm where
  name := "s2k-digest-algo"
  get := PgpOptions.s2kDigest
  parse := parseS2kDigest
  get_apply := by
    intro P s value h
    cases s with
    | s2kDigestAlgo digest => exact .inl ⟨rfl, h⟩
    | _ => exact .inr ⟨by simp [Setting.key], rfl⟩

def s2kCipherField : Field (Option SymmetricAlgorithm) where
  name := "s2k-cipher-algo"
  get := PgpOptions.s2kCipher
  parse := fun value => some <$> parseS2kCipher value
  get_apply := by
    intro P s value h
    cases s with
    | s2kCipherAlgo cipher => exact .inl ⟨rfl, map_eq_ok.mpr ⟨cipher, h, rfl⟩⟩
    | _ => exact .inr ⟨by simp [Setting.key], rfl⟩

def useSessionKeyField : Field Bool where
  name := "sess-key"
  get := PgpOptions.useSessionKey
  parse := parseBooleanOption "sess-key"
  get_apply := by
    intro P s value h
    cases s with
    | sessKey flag => exact .inl ⟨rfl, parseBooleanOption_eq_ok.mpr h⟩
    | _ => exact .inr ⟨by simp [Setting.key], rfl⟩

/-- The field holds what its parser makes of the last item naming it, or its default. -/
def Field.FromLast (F : Field γ) (o : String) (text : Bool) (P : PgpOptions) : Prop :=
  match lastValue o F.name with
  | none => F.get P = F.get { textInput := text }
  | some value => F.parse value = .ok (F.get P)

/-- The loop leaves every field at what the last item naming it set. -/
theorem Field.fromLast (F : Field γ) {o : String} {text : Bool} {P : PgpOptions}
    (h : (optionItems o).foldlM parseOption { textInput := text } = .ok P) : F.FromLast o text P := by
  have hkeep : ∀ Q item Q', parseOption Q item = .ok Q' → valueOf F.name item = none →
      F.get Q' = F.get Q := by
    intro Q item Q' hstep hvalue
    obtain ⟨s, hs, rfl⟩ := parseOption_eq_ok.mp hstep
    obtain ⟨value, hreading, hread⟩ := readSetting_eq_ok.mp hs
    rcases F.get_apply Q s value hread with ⟨hkey, -⟩ | ⟨-, hget⟩
    · simp [valueOf, hreading, hkey] at hvalue
    · exact hget
  have hset : ∀ Q item Q' value, parseOption Q item = .ok Q' → valueOf F.name item = some value →
      F.parse value = .ok (F.get Q') := by
    intro Q item Q' value hstep hvalue
    obtain ⟨s, hs, rfl⟩ := parseOption_eq_ok.mp hstep
    obtain ⟨value', hreading, hread⟩ := readSetting_eq_ok.mp hs
    rw [valueOf_eq_some, hreading, Option.some.injEq, Prod.mk.injEq] at hvalue
    obtain ⟨hkey, rfl⟩ := hvalue
    rcases F.get_apply Q s value' hread with ⟨-, hparse⟩ | ⟨hne, -⟩
    · exact hparse
    · exact absurd hkey hne
  have hlast := @foldlM_last_write _ _ _ _ _ parseOption F.get (valueOf F.name)
    (fun value field => F.parse value = .ok field) hkeep hset _ _ _ h
  rw [Field.FromLast, lastValue]
  generalize ((optionItems o).filterMap (valueOf F.name)).getLast? = last at hlast
  cases last with
  | none => exact hlast
  | some value => exact hlast

end Fields

section Acceptance

/-- An item is a whole option string of its own. -/
theorem optionItems_item {o item : String} (h : item ∈ optionItems o) : optionItems item = [item] := by
  obtain ⟨hmem, hne⟩ := List.mem_filter.mp h
  obtain ⟨piece, hpiece, rfl⟩ := List.mem_map.mp hmem
  have hcomma : ',' ∉ (trim piece).toList := fun hc => not_mem_of_mem_split hpiece (mem_of_mem_trim hc)
  rw [optionItems, split_of_not_mem hcomma, List.map_singleton, trim_trim, List.filter_singleton, hne]
  rfl

/-- The check after the loop cannot fail on a single item. -/
theorem exists_parseOptions_item {o item : String} (text : Bool) (h : item ∈ optionItems o) :
    (∃ P, parseOptions item text = .ok P) ↔ ∃ s, readSetting item = .ok s := by
  constructor
  · rintro ⟨P, hP⟩
    have hmem : item ∈ optionItems item := by rw [optionItems_item h]; exact List.mem_singleton_self item
    exact parseOptions_readSetting hP hmem
  · rintro ⟨s, hs⟩
    refine ⟨PgpOptions.apply { textInput := text } s, parseOptions_eq_ok.mpr ⟨?_, ?_⟩⟩
    · rw [optionItems_item h, List.foldlM_cons, parseOption_eq, hs]
      rfl
    · cases s with
      | s2kMode mode => simp [PgpOptions.apply]
      | _ => intro _; rfl

theorem exists_foldlM_parseOption_iff (items : List String) (P : PgpOptions) :
    (∃ Q, items.foldlM parseOption P = .ok Q) ↔ ∀ item ∈ items, ∃ s, readSetting item = .ok s := by
  refine exists_foldlM_iff ?_ items P
  intro Q item
  constructor
  · rintro ⟨R, hR⟩
    obtain ⟨s, hs, -⟩ := parseOption_eq_ok.mp hR
    exact ⟨s, hs⟩
  · rintro ⟨s, hs⟩
    exact ⟨Q.apply s, parseOption_eq_ok.mpr ⟨s, hs, rfl⟩⟩

theorem lastValue_eq_none {o name : String} :
    lastValue o name = none ↔ ¬ ∃ item ∈ optionItems o, ∃ value, reading item = some (name, value) := by
  rw [lastValue, List.getLast?_eq_none_iff, List.filterMap_eq_nil_iff]
  simp only [not_exists, not_and, Option.eq_none_iff_forall_ne_some, ne_eq, valueOf_eq_some]

/-- The option string gives an S2K count, while the last S2K mode it gives is not the
iterated one. -/
def CountConflict (o : String) : Prop :=
  (∃ item ∈ optionItems o, ∃ value, reading item = some ("s2k-count", value)) ∧
    ∃ value mode, lastValue o "s2k-mode" = some value ∧ parseS2kMode value = .ok mode ∧ mode ≠ 3

/-- What the loop leaves for the check after it. -/
theorem countConflict_iff {o : String} {text : Bool} {P : PgpOptions}
    (h : (optionItems o).foldlM parseOption { textInput := text } = .ok P) :
    CountConflict o ↔ P.s2kCount.isSome ∧ P.s2kMode ≠ 3 := by
  have hcount := s2kCountField.fromLast h
  have hmode := s2kModeField.fromLast h
  simp only [Field.FromLast, s2kCountField, s2kModeField] at hcount hmode
  refine and_congr ?_ ?_
  · rw [← not_iff_not, ← lastValue_eq_none]
    cases hlast : lastValue o "s2k-count" with
    | none => simpa [hlast] using hcount
    | some value =>
      rw [hlast] at hcount
      obtain ⟨count, -, hP⟩ := map_eq_ok.mp hcount
      simp [← hP]
  · cases hlast : lastValue o "s2k-mode" with
    | none => simpa [hlast] using hmode
    | some value =>
      rw [hlast] at hmode
      simp [hmode]

theorem exists_parseOptions_iff (o : String) (text : Bool) :
    (∃ P, parseOptions o text = .ok P) ↔
      (∀ item ∈ optionItems o, ∃ s, readSetting item = .ok s) ∧ ¬ CountConflict o := by
  rw [← exists_foldlM_parseOption_iff _ { textInput := text }]
  simp only [parseOptions_eq_ok]
  constructor
  · rintro ⟨P, hP, hmode⟩
    refine ⟨⟨P, hP⟩, ?_⟩
    intro hconflict
    obtain ⟨hcount, hne⟩ := (countConflict_iff hP).mp hconflict
    exact hne (hmode hcount)
  · rintro ⟨⟨P, hP⟩, hconflict⟩
    refine ⟨P, hP, ?_⟩
    intro hcount
    by_contra hne
    exact hconflict ((countConflict_iff hP).mpr ⟨hcount, hne⟩)

end Acceptance

section Invariance
variable {o o' : String} {text : Bool}

/-- The options that an option string stands for, field by field. -/
structure PgpOptions.Meaning (o : String) (text : Bool) (P : PgpOptions) : Prop where
  textInput : P.textInput = text
  cipher : cipherField.FromLast o text P
  compression : compressionField.FromLast o text P
  compressionLevel : compressionLevelField.FromLast o text P
  unicodeMode : unicodeModeField.FromLast o text P
  convertCrlf : convertCrlfField.FromLast o text P
  s2kMode : s2kModeField.FromLast o text P
  s2kCount : s2kCountField.FromLast o text P
  s2kDigest : s2kDigestField.FromLast o text P
  s2kCipher : s2kCipherField.FromLast o text P
  useSessionKey : useSessionKeyField.FromLast o text P

theorem PgpOptions.meaning_of_parseOptions {P : PgpOptions} (h : parseOptions o text = .ok P) :
    P.Meaning o text := by
  have hfold := (parseOptions_eq_ok.mp h).1
  exact {
    textInput := (parseOptions_checked h).textInput
    cipher := cipherField.fromLast hfold
    compression := compressionField.fromLast hfold
    compressionLevel := compressionLevelField.fromLast hfold
    unicodeMode := unicodeModeField.fromLast hfold
    convertCrlf := convertCrlfField.fromLast hfold
    s2kMode := s2kModeField.fromLast hfold
    s2kCount := s2kCountField.fromLast hfold
    s2kDigest := s2kDigestField.fromLast hfold
    s2kCipher := s2kCipherField.fromLast hfold
    useSessionKey := useSessionKeyField.fromLast hfold }

theorem Field.FromLast.eq {γ : Type} {F : Field γ} {P P' : PgpOptions} (h : F.FromLast o text P)
    (h' : F.FromLast o' text P') (hlast : ∀ name, lastValue o' name = lastValue o name) :
    F.get P' = F.get P := by
  rw [Field.FromLast] at h
  rw [Field.FromLast, hlast] at h'
  cases hvalue : lastValue o F.name with
  | none =>
    rw [hvalue] at h h'
    exact h'.trans h.symm
  | some value =>
    rw [hvalue] at h h'
    exact Except.ok.inj (h'.symm.trans h)

/-- The last values determine the options. -/
theorem PgpOptions.Meaning.eq {P P' : PgpOptions} (h : P.Meaning o text) (h' : P'.Meaning o' text)
    (hlast : ∀ name, lastValue o' name = lastValue o name) : P' = P := by
  obtain ⟨⟩ := P
  obtain ⟨⟩ := P'
  rw [PgpOptions.mk.injEq]
  exact ⟨h.cipher.eq h'.cipher hlast, h.compression.eq h'.compression hlast,
    h.compressionLevel.eq h'.compressionLevel hlast, h'.textInput.trans h.textInput.symm,
    h.unicodeMode.eq h'.unicodeMode hlast, h.convertCrlf.eq h'.convertCrlf hlast,
    h.s2kMode.eq h'.s2kMode hlast, h.s2kCount.eq h'.s2kCount hlast,
    h.s2kDigest.eq h'.s2kDigest hlast, h.s2kCipher.eq h'.s2kCipher hlast,
    h.useSessionKey.eq h'.useSessionKey hlast⟩

/-- The readings of all items. -/
def readings (o : String) : List (Option (String × String)) := (optionItems o).map reading

theorem forall_readSetting_iff :
    (∀ item ∈ optionItems o, ∃ s, readSetting item = .ok s) ↔
      ∀ r ∈ readings o, ∃ s value, r = some (Setting.key s, value) ∧ s.ReadFrom value := by
  simp only [readings, List.forall_mem_map, readSetting_eq_ok]

/-- Success and result depend on which readings there are and on the last ones of each name. -/
theorem parseOptions_congr (hmem : ∀ r, r ∈ readings o' ↔ r ∈ readings o)
    (hlast : ∀ name, lastValue o' name = lastValue o name) (text : Bool) :
    (parseOptions o' text).toOption = (parseOptions o text).toOption := by
  have hconflict : CountConflict o' ↔ CountConflict o := by
    rw [CountConflict, CountConflict, ← not_not (a := ∃ item ∈ optionItems o', _), ← lastValue_eq_none,
      ← not_not (a := ∃ item ∈ optionItems o, _), ← lastValue_eq_none]
    simp only [hlast]
  have hiff : (∃ P, parseOptions o' text = .ok P) ↔ ∃ P, parseOptions o text = .ok P := by
    rw [exists_parseOptions_iff, exists_parseOptions_iff, forall_readSetting_iff, forall_readSetting_iff,
      hconflict]
    simp only [hmem]
  cases h : parseOptions o text with
  | ok P =>
    obtain ⟨P', h'⟩ := hiff.mpr ⟨P, h⟩
    have heq := (PgpOptions.meaning_of_parseOptions h).eq (PgpOptions.meaning_of_parseOptions h') hlast
    rw [h', heq]
  | error e =>
    cases h' : parseOptions o' text with
    | error e' => rfl
    | ok P' =>
      obtain ⟨P, hP⟩ := hiff.mp ⟨P', h'⟩
      rw [h] at hP
      cases hP

end Invariance

section Spelling

theorem filterMap_filter_isSome {α β : Type} (f : α → Option β) (xs : List α) :
    (xs.filter (fun x => (f x).isSome)).filterMap f = xs.filterMap f := by
  rw [List.filterMap_filter]
  refine List.filterMap_congr ?_
  intro x _
  cases h : f x with
  | none => rfl
  | some b => simp

/-- Two spellings of a piece: other white space around it, or around its name and value,
and other ASCII case of its name. -/
inductive Respelled : String → String → Prop
  | item {piece piece' : String} (h : trim piece = trim piece') : Respelled piece piece'
  | named {name name' value value' : String} (hname : '=' ∉ name.toList) (hname' : '=' ∉ name'.toList)
      (hkey : toAsciiLowercase (trim name) = toAsciiLowercase (trim name'))
      (hvalue : trim value = trim value') :
      Respelled (name ++ "=" ++ value) (name' ++ "=" ++ value')

/-- Option strings that differ in the order of differently named items, in blank items and
in spelling. -/
inductive SameOptions : String → String → Prop
  | reorder {o o' : String} (hperm : (optionItems o).Perm (optionItems o'))
      (horder : ∀ name, (optionItems o).filter (fun item => (valueOf name item).isSome) =
        (optionItems o').filter (fun item => (valueOf name item).isSome)) : SameOptions o o'
  | blanks {o o' : String} (h : (split o ',').filter (fun piece => trim piece ≠ "") =
      (split o' ',').filter (fun piece => trim piece ≠ "")) : SameOptions o o'
  | respell {o o' : String} (h : List.Forall₂ Respelled (split o ',') (split o' ',')) : SameOptions o o'
  | trans {o o' o'' : String} (h : SameOptions o o') (h' : SameOptions o' o'') : SameOptions o o''

theorem reading_trim {name : String} (hname : '=' ∉ name.toList) (value : String) :
    reading (trim (name ++ "=" ++ value)) = some (toAsciiLowercase (trim name), trim value) := by
  have hsplit := @splitOnce_trim '=' (by decide) name hname value
  have hsep : String.singleton '=' = "=" := by decide
  rw [hsep] at hsplit
  obtain ⟨p, hp, hparts⟩ := Option.map_eq_some_iff.mp hsplit
  rw [Prod.mk.injEq] at hparts
  rw [reading, hp, Option.map_some, hparts.1, hparts.2]

theorem ne_empty_of_reading {item : String} {p : String × String} (h : reading item = some p) : item ≠ "" := by
  rintro rfl
  have hempty : reading "" = none := by decide
  rw [hempty] at h
  cases h

theorem Respelled.reading_eq {piece piece' : String} (h : Respelled piece piece') :
    reading (trim piece) = reading (trim piece') ∧ (trim piece = "" ↔ trim piece' = "") := by
  cases h with
  | item h => rw [h]; exact ⟨rfl, Iff.rfl⟩
  | @named name name' value value' hname hname' hkey hvalue =>
    have hread := reading_trim hname value
    have hread' := reading_trim hname' value'
    refine ⟨?_, iff_of_false (ne_empty_of_reading hread) (ne_empty_of_reading hread')⟩
    rw [hread, hread', hkey, hvalue]

theorem readings_eq (o : String) :
    readings o =
      ((split o ',').filter (fun piece => trim piece ≠ "")).map (fun piece => reading (trim piece)) := by
  simp only [readings, optionItems, List.filter_map, List.map_map, Function.comp_def]

theorem readings_of_respelled {o o' : String} (h : List.Forall₂ Respelled (split o ',') (split o' ',')) :
    readings o = readings o' := by
  rw [readings_eq, readings_eq]
  generalize split o ',' = pieces, split o' ',' = pieces' at h ⊢
  induction h with
  | nil => rfl
  | cons hp _ ih =>
    obtain ⟨hreading, hblank⟩ := hp.reading_eq
    simp only [List.filter_cons, ne_eq, hblank] at ih ⊢
    split
    · simp only [List.map_cons, hreading, ih]
    · exact ih

theorem lastValue_eq (o name : String) :
    lastValue o name = ((readings o).filterMap
      (fun r => r.bind (fun p => if p.1 = name then some p.2 else none))).getLast? := by
  rw [lastValue, readings, List.filterMap_map]
  rfl

theorem parseOptions_of_readings_eq {o o' : String} (h : readings o = readings o') (text : Bool) :
    (parseOptions o' text).toOption = (parseOptions o text).toOption := by
  refine parseOptions_congr ?_ ?_ text
  · intro r
    rw [h]
  · intro name
    rw [lastValue_eq, lastValue_eq, h]

theorem parseOptions_of_sameOptions {o o' : String} (h : SameOptions o o') (text : Bool) :
    (parseOptions o' text).toOption = (parseOptions o text).toOption := by
  induction h with
  | @reorder o o' hperm horder =>
    refine parseOptions_congr ?_ ?_ text
    · intro r
      exact (hperm.map reading).mem_iff.symm
    · intro name
      rw [lastValue, lastValue, ← filterMap_filter_isSome, ← horder name, filterMap_filter_isSome]
  | @blanks o o' h =>
    have hitems : readings o = readings o' := by rw [readings_eq, readings_eq, h]
    exact parseOptions_of_readings_eq hitems text
  | respell h => exact parseOptions_of_readings_eq (readings_of_respelled h) text
  | trans _ _ ih ih' => exact ih'.trans ih

end Spelling

/-- The meaning of an option string. -/
theorem parseOptions_meaning (o : String) (text : Bool) :
    ((∃ P, parseOptions o text = .ok P) ↔
      (∀ item ∈ optionItems o, ∃ P, parseOptions item text = .ok P) ∧ ¬ CountConflict o) ∧
    (∀ P, parseOptions o text = .ok P → P.Meaning o text) ∧
    (∀ o', SameOptions o o' → (parseOptions o' text).toOption = (parseOptions o text).toOption) := by
  refine ⟨?_, ?_, ?_⟩
  · rw [exists_parseOptions_iff]
    refine and_congr_left ?_
    intro _
    refine forall₂_congr ?_
    intro item hitem
    exact (exists_parseOptions_item text hitem).symm
  · intro P hP
    exact PgpOptions.meaning_of_parseOptions hP
  · intro o' h
    exact parseOptions_of_sameOptions h text

/-- A blank item goes, an item is respelled and two items trade places. -/
theorem parseOptions_meaning_respelled :
    (parseOptions "s2k-count=2048,s2k-mode=1,s2k-mode=3" true).toOption =
      (parseOptions "s2k-mode=1,, S2K-Count = 2048 ,s2k-mode=3" true).toOption ∧
    parseOptions "s2k-mode=1,, S2K-Count = 2048 ,s2k-mode=3" true =
      .ok { textInput := true, s2kCount := some 2048 } := by
  have hblanks : split "s2k-mode=1,, S2K-Count = 2048 ,s2k-mode=3" ',' =
      ["s2k-mode=1", "", " S2K-Count " ++ "=" ++ " 2048 ", "s2k-mode=3"] := by decide +kernel
  have hpieces : split "s2k-mode=1, S2K-Count = 2048 ,s2k-mode=3" ',' =
      ["s2k-mode=1", " S2K-Count " ++ "=" ++ " 2048 ", "s2k-mode=3"] := by decide +kernel
  have hpieces' : split "s2k-mode=1,s2k-count=2048,s2k-mode=3" ',' =
      ["s2k-mode=1", "s2k-count" ++ "=" ++ "2048", "s2k-mode=3"] := by decide +kernel
  have hblank : SameOptions "s2k-mode=1,, S2K-Count = 2048 ,s2k-mode=3"
      "s2k-mode=1, S2K-Count = 2048 ,s2k-mode=3" := by
    refine .blanks ?_
    rw [hblanks, hpieces]
    decide +kernel
  have hrespell : SameOptions "s2k-mode=1, S2K-Count = 2048 ,s2k-mode=3"
      "s2k-mode=1,s2k-count=2048,s2k-mode=3" := by
    refine .respell ?_
    rw [hpieces, hpieces']
    exact .cons (.item rfl) (.cons (.named (by decide) (by decide) (by decide +kernel) (by decide +kernel))
      (.cons (.item rfl) .nil))
  have hreorder : SameOptions "s2k-mode=1,s2k-count=2048,s2k-mode=3"
      "s2k-count=2048,s2k-mode=1,s2k-mode=3" := by
    have hitems : optionItems "s2k-mode=1,s2k-count=2048,s2k-mode=3" =
        ["s2k-mode=1", "s2k-count=2048", "s2k-mode=3"] := by decide +kernel
    have hitems' : optionItems "s2k-count=2048,s2k-mode=1,s2k-mode=3" =
        ["s2k-count=2048", "s2k-mode=1", "s2k-mode=3"] := by decide +kernel
    have hmode : reading "s2k-mode=1" = some ("s2k-mode", "1") := by decide +kernel
    have hcount : reading "s2k-count=2048" = some ("s2k-count", "2048") := by decide +kernel
    refine .reorder ?_ ?_
    · rw [hitems, hitems']
      exact .swap _ _ _
    · intro name
      rw [hitems, hitems']
      by_cases hname : "s2k-count" = name
      · subst hname
        simp [List.filter_cons, valueOf, hmode, hcount]
      · simp [List.filter_cons, valueOf, hmode, hcount, hname]
  exact ⟨(parseOptions_meaning _ true).2.2 _ (hblank.trans (hrespell.trans hreorder)), by decide +kernel⟩

end PgCrypto.Pgp
