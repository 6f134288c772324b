import PgCrypto.Base.Utf8

/-! # Where UTF-8 ends

The check of a byte string reads one byte at a time and stops at the first one that no
character can have there. Its error tells how far the characters before reach, and how many
bytes were read of the one that is broken. It finds an error exactly where the bytes are no
text.
-/
namespace PgCrypto.Utf8

/-- `Utf8Error`. Without a length the input ends inside of a character. -/
structure Utf8Error where
  validUpTo : ℕ
  errorLen : Option ℕ
  deriving DecidableEq, Repr

def Utf8Error.display (error : Utf8Error) : String :=
  match error.errorLen with
  | some length => "invalid utf-8 sequence of " ++ toString length ++ " bytes from index " ++
      toString error.validUpTo
  | none => "incomplete utf-8 byte sequence from index " ++ toString error.validUpTo

/-- For a first byte of several: how many follow after the second, and the range of that one. -/
def leading (b : ℕ) : Option (ℕ × ℕ × ℕ) :=
  if 0xc2 ≤ b ∧ b ≤ 0xdf then some (0, 0x80, 0xbf)
  else if b = 0xe0 then some (1, 0xa0, 0xbf)
  else if b = 0xed then some (1, 0x80, 0x9f)
  else if 0xe1 ≤ b ∧ b ≤ 0xef then some (1, 0x80, 0xbf)
  else if b = 0xf0 then some (2, 0x90, 0xbf)
  else if 0xf1 ≤ b ∧ b ≤ 0xf3 then some (2, 0x80, 0xbf)
  else if b = 0xf4 then some (2, 0x80, 0x8f)
  else none

/-- Between characters, or inside of one: its index, the bytes read of it, how many follow
after the next one, and the range of that one. -/
inductive State where
  | between
  | inside (start seen owed low high : ℕ)

/-- After a byte that fits. -/
def State.next (start seen : ℕ) : ℕ → State
  | 0 => .between
  | owed + 1 => .inside start (seen + 1) owed 0x80 0xbf

def check (index : ℕ) : State → Bytes → Option Utf8Error
  | .between, [] => none
  | .inside start _ _ _ _, [] => some ⟨start, none⟩
  | .between, b :: rest =>
    if b.toNat < 0x80 then check (index + 1) .between rest
    else match leading b.toNat with
      | none => some ⟨index, some 1⟩
      | some (owed, low, high) => check (index + 1) (.inside index 1 owed low high) rest
  | .inside start seen owed low high, b :: rest =>
    if low ≤ b.toNat ∧ b.toNat ≤ high then check (index + 1) (State.next start seen owed) rest
    else some ⟨start, some seen⟩

def utf8Error (data : Bytes) : Option Utf8Error := check 0 .between data

section Characters

theorem exists_char {v : ℕ} (h : v < 0xd800 ∨ 0xdfff < v ∧ v < 0x110000) : ∃ c : Char, c.val.toNat = v := by
  have hv : (UInt32.ofNat v).toNat = v := by
    rw [UInt32.toNat_ofNat', Nat.mod_eq_of_lt (by omega)]
  refine ⟨⟨UInt32.ofNat v, ?_⟩, hv⟩
  rw [UInt32.isValidChar, hv]
  exact h

theorem check_inside_cons {index start seen owed low high : ℕ} {b : UInt8} {rest : Bytes} :
    check index (.inside start seen owed low high) (b :: rest) = none ↔
      (low ≤ b.toNat ∧ b.toNat ≤ high) ∧ check (index + 1) (State.next start seen owed) rest = none := by
  rw [check]
  split
  · next h => simp [h]
  · next h => simp [h]

/-- The first two bytes of a character with `owed` bytes after them: neither overlong, nor a
surrogate, nor past the last character. -/
def Begins : ℕ → ℕ → ℕ → Prop
  | 0, b, d => 0xc2 ≤ b ∧ b ≤ 0xdf ∧ 0x80 ≤ d ∧ d ≤ 0xbf
  | 1, b, d => 0xe0 ≤ b ∧ b ≤ 0xef ∧ 0x80 ≤ d ∧ d ≤ 0xbf ∧ (b = 0xe0 → 0xa0 ≤ d) ∧ (b = 0xed → d ≤ 0x9f)
  | 2, b, d => 0xf0 ≤ b ∧ b ≤ 0xf4 ∧ 0x80 ≤ d ∧ d ≤ 0xbf ∧ (b = 0xf0 → 0x90 ≤ d) ∧ (b = 0xf4 → d ≤ 0x8f)
  | _, _, _ => False

theorem exists_leading_iff {owed b d : ℕ} :
    (∃ low high, leading b = some (owed, low, high) ∧ low ≤ d ∧ d ≤ high) ↔ Begins owed b d := by
  unfold leading
  constructor
  · rintro ⟨low, high, h, hlow, hhigh⟩
    split at h
    · cases h
      exact ⟨by omega, by omega, hlow, hhigh⟩
    · repeat' split at h
      all_goals cases h
      all_goals exact ⟨by omega, by omega, by omega, by omega, by omega, by omega⟩
  · intro h
    match owed with
    | 0 => exact ⟨0x80, 0xbf, if_pos ⟨h.1, h.2.1⟩, h.2.2⟩
    | 1 =>
      obtain ⟨hb, hb', hd, hd', hfirst, hsurrogate⟩ := h
      rw [if_neg (by omega)]
      split
      · exact ⟨_, _, rfl, hfirst (by omega), hd'⟩
      · split
        · exact ⟨_, _, rfl, hd, hsurrogate (by omega)⟩
        · exact ⟨_, _, if_pos (by omega), hd, hd'⟩
    | 2 =>
      obtain ⟨hb, hb', hd, hd', hfirst, hlast⟩ := h
      rw [if_neg (by omega), if_neg (by omega), if_neg (by omega), if_neg (by omega)]
      split
      · exact ⟨_, _, rfl, hfirst (by omega), hd'⟩
      · split
        · exact ⟨_, _, rfl, hd, hd'⟩
        · exact ⟨_, _, if_pos (by omega), hd, hlast (by omega)⟩

theorem check_between_cons {index : ℕ} {b : UInt8} {rest : Bytes} (hb : 0x80 ≤ b.toNat) :
    check index .between (b :: rest) = none ↔ ∃ owed d tail, rest = d :: tail ∧
      Begins owed b.toNat d.toNat ∧ check (index + 2) (State.next index 1 owed) tail = none := by
  rw [check, if_neg (by omega)]
  constructor
  · intro h
    split at h
    · cases h
    · next owed low high hleading =>
      cases rest with
      | nil => cases h
      | cons d tail =>
        obtain ⟨hd, htail⟩ := check_inside_cons.mp h
        exact ⟨owed, d, tail, rfl, exists_leading_iff.mp ⟨low, high, hleading, hd⟩, htail⟩
  · rintro ⟨owed, d, tail, rfl, hbegins, htail⟩
    obtain ⟨low, high, hleading, hd⟩ := exists_leading_iff.mpr hbegins
    rw [hleading]
    exact check_inside_cons.mpr ⟨hd, htail⟩

theorem toNat_ofNat_of_lt {n : ℕ} (h : n < 256) : (UInt8.ofNat n).toNat = n := by
  rw [UInt8.toNat_ofNat', Nat.mod_eq_of_lt h]

/-- A character is read as a whole. -/
theorem check_char {index : ℕ} {c : Char} {rest : Bytes}
    (h : check (index + (String.utf8EncodeChar c).length) .between rest = none) :
    check index .between (String.utf8EncodeChar c ++ rest) = none := by
  have hvalid : c.val.toNat < 0xd800 ∨ 0xdfff < c.val.toNat ∧ c.val.toNat < 0x110000 := c.valid
  unfold String.utf8EncodeChar at h ⊢
  generalize c.val.toNat = v at hvalid h ⊢
  dsimp only at h ⊢
  split at h
  · next hv =>
    rw [if_pos hv, List.singleton_append, check, toNat_ofNat_of_lt (by omega), if_pos (by omega)]
    exact h
  · next hv =>
    rw [if_neg hv]
    split at h
    · next hv' =>
      rw [if_pos hv', List.cons_append, check_between_cons (by rw [toNat_ofNat_of_lt] <;> omega)]
      refine ⟨0, _, _, rfl, ?_, h⟩
      rw [toNat_ofNat_of_lt (by omega), toNat_ofNat_of_lt (by omega)]
      exact ⟨by omega, by omega, by omega, by omega⟩
    · next hv' =>
      rw [if_neg hv']
      split at h
      · next hv'' =>
        rw [if_pos hv'', List.cons_append, check_between_cons (by rw [toNat_ofNat_of_lt] <;> omega)]
        refine ⟨1, _, _, rfl, ?_, check_inside_cons.mpr ⟨?_, h⟩⟩
        · rw [toNat_ofNat_of_lt (by omega), toNat_ofNat_of_lt (by omega)]
          exact ⟨by omega, by omega, by omega, by omega, by omega, by omega⟩
        · rw [toNat_ofNat_of_lt (by omega)]
          omega
      · next hv'' =>
        rw [if_neg hv'', List.cons_append, check_between_cons (by rw [toNat_ofNat_of_lt] <;> omega)]
        refine ⟨2, _, _, rfl, ?_, check_inside_cons.mpr ⟨?_, check_inside_cons.mpr ⟨?_, h⟩⟩⟩
        · rw [toNat_ofNat_of_lt (by omega), toNat_ofNat_of_lt (by omega)]
          exact ⟨by omega, by omega, by omega, by omega, by omega, by omega⟩
        · rw [toNat_ofNat_of_lt (by omega)]
          omega
        · rw [toNat_ofNat_of_lt (by omega)]
          omega

theorem eq_ofNat {b : UInt8} {n : ℕ} (h : b.toNat = n) : UInt8.ofNat n = b := by
  rw [← h, UInt8.ofNat_toNat]

/-- Bytes that pass the check begin with a character. -/
theorem exists_char_of_check {index : ℕ} {b : UInt8} {bytes : Bytes}
    (h : check index .between (b :: bytes) = none) :
    ∃ c rest, b :: bytes = String.utf8EncodeChar c ++ rest ∧
      ∃ index', check index' .between rest = none := by
  by_cases hb : b.toNat < 0x80
  · rw [check, if_pos hb] at h
    obtain ⟨c, hc⟩ := exists_char (v := b.toNat) (by omega)
    refine ⟨c, bytes, ?_, _, h⟩
    rw [String.utf8EncodeChar, hc, if_pos (by omega), UInt8.ofNat_toNat, List.singleton_append]
  · obtain ⟨owed, d, tail, rfl, hbegins, h⟩ := (check_between_cons (by omega)).mp h
    match owed with
    | 0 =>
      obtain ⟨hb, hb', hd, hd'⟩ := hbegins
      obtain ⟨c, hc⟩ := exists_char (v := (b.toNat - 0xc0) * 64 + (d.toNat - 0x80)) (by omega)
      refine ⟨c, tail, ?_, _, h⟩
      rw [String.utf8EncodeChar, hc, if_neg (by omega), if_pos (by omega), eq_ofNat (b := b) (by omega),
        eq_ofNat (b := d) (by omega)]
      rfl
    | 1 =>
      obtain ⟨hb, hb', hd, hd', hfirst, hsurrogate⟩ := hbegins
      cases tail with
      | nil => cases h
      | cons x tail =>
        obtain ⟨⟨hx, hx'⟩, h⟩ := check_inside_cons.mp h
        obtain ⟨c, hc⟩ := exists_char
          (v := (b.toNat - 0xe0) * 4096 + (d.toNat - 0x80) * 64 + (x.toNat - 0x80)) (by omega)
        refine ⟨c, tail, ?_, _, h⟩
        rw [String.utf8EncodeChar, hc, if_neg (by omega), if_neg (by omega), if_pos (by omega),
          eq_ofNat (b := b) (by omega), eq_ofNat (b := d) (by omega), eq_ofNat (b := x) (by omega)]
        rfl
    | 2 =>
      obtain ⟨hb, hb', hd, hd', hfirst, hlast⟩ := hbegins
      cases tail with
      | nil => cases h
      | cons x tail =>
        obtain ⟨⟨hx, hx'⟩, h⟩ := check_inside_cons.mp h
        cases tail with
        | nil => cases h
        | cons y tail =>
          obtain ⟨⟨hy, hy'⟩, h⟩ := check_inside_cons.mp h
          obtain ⟨c, hc⟩ := exists_char (v := (b.toNat - 0xf0) * 262144 + (d.toNat - 0x80) * 4096 +
            (x.toNat - 0x80) * 64 + (y.toNat - 0x80)) (by omega)
          refine ⟨c, tail, ?_, _, h⟩
          rw [String.utf8EncodeChar, hc, if_neg (by omega), if_neg (by omega), if_neg (by omega),
            eq_ofNat (b := b) (by omega), eq_ofNat (b := d) (by omega), eq_ofNat (b := x) (by omega),
            eq_ofNat (b := y) (by omega)]
          rfl

end Characters

theorem check_encodeChars (cs : List Char) (index : ℕ) : check index .between (encodeChars cs) = none := by
  induction cs generalizing index with
  | nil => rfl
  | cons c cs ih => exact check_char (ih _)

theorem exists_encodeChars_of_check {n index : ℕ} {data : Bytes} (hn : data.length ≤ n)
    (h : check index .between data = none) : ∃ cs, data = encodeChars cs := by
  induction n generalizing index data with
  | zero => exact ⟨[], List.length_eq_zero_iff.mp (Nat.le_zero.mp hn)⟩
  | succ n ih =>
    cases data with
    | nil => exact ⟨[], rfl⟩
    | cons b bytes =>
      obtain ⟨c, rest, hdata, index', hrest⟩ := exists_char_of_check h
      have hpos := List.length_pos_iff.mpr (String.utf8EncodeChar_ne_nil (c := c))
      have hlength := congrArg List.length hdata
      rw [List.length_append] at hlength
      obtain ⟨cs, rfl⟩ := ih (by omega) hrest
      exact ⟨c :: cs, hdata⟩

/-- The check finds an error exactly in what is no text. -/
theorem utf8Error_eq_none_iff {data : Bytes} : utf8Error data = none ↔ (fromUtf8 data).isSome := by
  rw [fromUtf8_isSome_iff]
  constructor
  · exact exists_encodeChars_of_check (Nat.le_refl _)
  · rintro ⟨cs, rfl⟩
    exact check_encodeChars cs 0

/-- `String::from_utf8`, with the text of its error. -/
def stringFromUtf8 (data : Bytes) : Except String String :=
  match utf8Error data with
  | none => .ok ((fromUtf8 data).getD "")
  | some error => .error error.display

@[simp] theorem stringFromUtf8_eq_ok {data : Bytes} {s : String} :
    stringFromUtf8 data = .ok s ↔ fromUtf8 data = some s := by
  unfold stringFromUtf8
  split
  · next h =>
    obtain ⟨t, ht⟩ := Option.isSome_iff_exists.mp (utf8Error_eq_none_iff.mp h)
    simp [ht]
  · next error h =>
    cases hd : fromUtf8 data with
    | none => simp
    | some t =>
      have hnone := utf8Error_eq_none_iff.mpr (Option.isSome_iff_exists.mpr ⟨t, hd⟩)
      rw [h] at hnone
      cases hnone

@[simp] theorem stringFromUtf8_utf8 (s : String) : stringFromUtf8 (utf8 s) = .ok s := by
  rw [stringFromUtf8_eq_ok, fromUtf8_utf8]

example : (utf8Error [0x61, 0xe2, 0x82]).map Utf8Error.display =
    some "incomplete utf-8 byte sequence from index 1" := by decide

end PgCrypto.Utf8
