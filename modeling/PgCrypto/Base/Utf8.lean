import PgCrypto.Base.Outcome

/-! # UTF-8 views of strings

A string and its bytes determine each other, and every multi-byte character has
only bytes of at least 128. A byte below 128 is therefore always a whole character.
-/
namespace PgCrypto.Utf8

/-- `str::as_bytes`. -/
def utf8 (s : String) : Bytes := s.toUTF8.data.toList

/-- The text with these bytes, if there is one. -/
def fromUtf8 (data : Bytes) : Option String := String.fromUTF8? data.toByteArray

def encodeChars (cs : List Char) : Bytes := cs.flatMap String.utf8EncodeChar

@[simp] theorem encodeChars_nil : encodeChars [] = [] := rfl
@[simp] theorem encodeChars_cons (c : Char) (cs : List Char) :
    encodeChars (c :: cs) = String.utf8EncodeChar c ++ encodeChars cs := rfl

@[simp] theorem utf8_ofList (cs : List Char) : utf8 (String.ofList cs) = encodeChars cs := by
  simp [utf8, encodeChars, List.utf8Encode]

theorem utf8_eq_encodeChars (s : String) : utf8 s = encodeChars s.toList := by
  rw [← utf8_ofList, String.ofList_toList]

theorem toByteArray_utf8 (s : String) : (utf8 s).toByteArray = s.toByteArray := by
  apply ByteArray.ext
  simp [utf8]

theorem utf8_injective : Function.Injective utf8 := by
  intro s t h
  apply String.toByteArray_inj.mp
  rw [← toByteArray_utf8, ← toByteArray_utf8, h]

@[simp] theorem fromUtf8_utf8 (s : String) : fromUtf8 (utf8 s) = some s := by
  rw [fromUtf8, toByteArray_utf8, String.fromUTF8?, dif_pos s.isValidUTF8]
  rfl

theorem fromUtf8_eq_some {data : Bytes} {s : String} : fromUtf8 data = some s ↔ utf8 s = data := by
  constructor
  · intro h
    rw [fromUtf8, String.fromUTF8?] at h
    split at h
    · cases h
      simp [utf8, String.fromUTF8]
    · cases h
  · rintro rfl
    exact fromUtf8_utf8 s

/-- Valid UTF-8 is exactly the encodings of character lists. -/
theorem fromUtf8_isSome_iff {data : Bytes} :
    (fromUtf8 data).isSome ↔ ∃ cs, data = encodeChars cs := by
  rw [Option.isSome_iff_exists]
  constructor
  · rintro ⟨s, hs⟩
    exact ⟨s.toList, by rw [← utf8_eq_encodeChars, fromUtf8_eq_some.mp hs]⟩
  · rintro ⟨cs, rfl⟩
    exact ⟨String.ofList cs, fromUtf8_eq_some.mpr (utf8_ofList cs)⟩

/-- A character is one byte below 128, or several bytes that all are at least 128. -/
theorem utf8EncodeChar_cases (c : Char) :
    (c.toNat < 128 ∧ String.utf8EncodeChar c = [UInt8.ofNat c.toNat]) ∨
      (128 ≤ c.toNat ∧ String.utf8EncodeChar c ≠ [] ∧ ∀ b ∈ String.utf8EncodeChar c, 128 ≤ b) := by
  have hbyte : ∀ n, 128 ≤ n → n < 256 → 128 ≤ UInt8.ofNat n := by
    intro n h h'
    rw [UInt8.le_iff_toNat_le, UInt8.toNat_ofNat', Nat.mod_eq_of_lt h']
    exact h
  change (c.val.toNat < 128 ∧ _ = [UInt8.ofNat c.val.toNat]) ∨ (128 ≤ c.val.toNat ∧ _)
  unfold String.utf8EncodeChar
  generalize c.val.toNat = v
  dsimp only
  by_cases h : v ≤ 0x7f
  · exact Or.inl ⟨by omega, if_pos h⟩
  · refine Or.inr ⟨by omega, ?_⟩
    rw [if_neg h]
    split
    · refine ⟨List.cons_ne_nil _ _, ?_⟩
      simp only [List.mem_cons, List.not_mem_nil, or_false, forall_eq_or_imp, forall_eq]
      exact ⟨hbyte _ (by omega) (by omega), hbyte _ (by omega) (by omega)⟩
    · split
      · refine ⟨List.cons_ne_nil _ _, ?_⟩
        simp only [List.mem_cons, List.not_mem_nil, or_false, forall_eq_or_imp, forall_eq]
        exact ⟨hbyte _ (by omega) (by omega), hbyte _ (by omega) (by omega), hbyte _ (by omega) (by omega)⟩
      · refine ⟨List.cons_ne_nil _ _, ?_⟩
        simp only [List.mem_cons, List.not_mem_nil, or_false, forall_eq_or_imp, forall_eq]
        exact ⟨hbyte _ (by omega) (by omega), hbyte _ (by omega) (by omega), hbyte _ (by omega) (by omega),
          hbyte _ (by omega) (by omega)⟩

/-- All bytes of a character after its first one are at least 128. -/
theorem utf8EncodeChar_eq_cons (c : Char) :
    ∃ b bs, String.utf8EncodeChar c = b :: bs ∧ ∀ x ∈ bs, 128 ≤ x := by
  rcases utf8EncodeChar_cases c with ⟨-, he⟩ | ⟨-, hne, hall⟩
  · exact ⟨_, [], he, by simp⟩
  · obtain ⟨b, bs, hb⟩ := List.exists_cons_of_ne_nil hne
    refine ⟨b, bs, hb, ?_⟩
    intro x hx
    exact hall x (by simp [hb, hx])

/-- Reading off a leading byte below 128 from an encoding: it is a whole character. -/
theorem encodeChars_eq_cons {cs : List Char} {b : UInt8} {rest : Bytes} (hb : b < 128)
    (h : encodeChars cs = b :: rest) :
    ∃ c ds, cs = c :: ds ∧ c.toNat = b.toNat ∧ encodeChars ds = rest := by
  cases cs with
  | nil => simp at h
  | cons c ds =>
    rw [encodeChars_cons] at h
    rcases utf8EncodeChar_cases c with ⟨hc, he⟩ | ⟨-, hne, hall⟩
    · rw [he, List.singleton_append, List.cons.injEq] at h
      refine ⟨c, ds, rfl, ?_, h.2⟩
      rw [← h.1, UInt8.toNat_ofNat', Nat.mod_eq_of_lt (by omega)]
    · obtain ⟨x, xs, hx⟩ := List.exists_cons_of_ne_nil hne
      rw [hx, List.cons_append, List.cons.injEq] at h
      have hge := hall x (by simp [hx])
      rw [h.1] at hge
      exact absurd hb (UInt8.not_lt.mpr hge)

/-- A byte below 128 occurs in an encoding only as the character with that code. -/
theorem mem_encodeChars {cs : List Char} {b : UInt8} (hb : b < 128) :
    b ∈ encodeChars cs ↔ ∃ c ∈ cs, c.toNat = b.toNat := by
  rw [encodeChars, List.mem_flatMap]
  apply exists_congr
  intro c
  apply and_congr_right
  intro _
  rcases utf8EncodeChar_cases c with ⟨hc, he⟩ | ⟨hc, -, hall⟩
  · rw [he, List.mem_singleton, ← UInt8.toNat_inj, UInt8.toNat_ofNat', Nat.mod_eq_of_lt (by omega)]
    exact eq_comm
  · have hb' : b.toNat < 128 := UInt8.lt_iff_toNat_lt.mp hb
    constructor
    · intro hm
      exact absurd hb (UInt8.not_lt.mpr (hall b hm))
    · intro h
      omega

end PgCrypto.Utf8
