import Mathlib.Algebra.Group.Nat.Defs
import Mathlib.Data.List.DropRight
import PgCrypto.Base.Outcome

/-! # The string operations of the Rust standard library

Strings are processed as lists of scalar values. White space is the Unicode
`White_Space` property, case folding is ASCII only, and unsigned parsing accepts
one leading plus sign and rejects everything that does not fit the width.
-/
namespace PgCrypto.Str

/-- `char::is_whitespace`. -/
def isWhitespace (c : Char) : Bool :=
  let n := c.toNat
  (0x9 ≤ n && n ≤ 0xD) || n == 0x20 || n == 0x85 || n == 0xA0 || n == 0x1680 ||
    (0x2000 ≤ n && n ≤ 0x200A) || n == 0x2028 || n == 0x2029 || n == 0x202F || n == 0x205F ||
    n == 0x3000

def trimStart (s : List Char) : List Char := s.dropWhile isWhitespace

/-- `str::trim`. -/
def trim (s : String) : String :=
  String.ofList ((trimStart s.toList).rdropWhile isWhitespace)

/-- `str::split` at a single character; an empty string has one empty piece. -/
def split (s : String) (sep : Char) : List String := (s.toList.splitOn sep).map String.ofList

def splitOnceChars (sep : Char) : List Char → Option (List Char × List Char)
  | [] => none
  | c :: cs =>
    if c = sep then some ([], cs)
    else (splitOnceChars sep cs).map (fun p => (c :: p.1, p.2))

theorem splitOnceChars_append {sep : Char} {l : List Char} (hl : sep ∉ l) (r : List Char) :
    splitOnceChars sep (l ++ sep :: r) = some (l, r) := by
  induction l with
  | nil => simp [splitOnceChars]
  | cons a l ih =>
    simp only [List.mem_cons, not_or] at hl
    simp [splitOnceChars, Ne.symm hl.1, ih hl.2]

/-- `str::split_once`: the parts before and after the first separator. -/
def splitOnce (s : String) (sep : Char) : Option (String × String) :=
  (splitOnceChars sep s.toList).map (fun p => (String.ofList p.1, String.ofList p.2))

/-- `str::to_ascii_lowercase`. -/
def toAsciiLowercase (s : String) : String := String.ofList (s.toList.map Char.toLower)

def digitsValue : ℕ → List Char → Option ℕ
  | acc, [] => some acc
  | acc, c :: cs => if c.isDigit then digitsValue (acc * 10 + (c.toNat - 48)) cs else none

/-- `str::parse` for an unsigned integer of the given width. A sign alone and an
empty string are rejected, a minus sign always is. -/
def parseUnsigned (bits : ℕ) (s : String) : Option ℕ :=
  let digits := match s.toList with
    | '+' :: c :: cs => c :: cs
    | cs => cs
  if digits.isEmpty then none
  else (digitsValue 0 digits).bind (fun n => if n < 2 ^ bits then some n else none)

def parseU8 (s : String) : Option UInt8 := (parseUnsigned 8 s).map UInt8.ofNat
def parseU32 (s : String) : Option UInt32 := (parseUnsigned 32 s).map UInt32.ofNat

example : parseU8 "+007" = some 7 := by decide
example : parseU8 "256" = none := by decide
example : parseU8 "-0" = none := by decide

section Trimming

theorem dropWhile_rdropWhile {α : Type} (p : α → Bool) (l : List α) :
    (l.rdropWhile p).dropWhile p = (l.dropWhile p).rdropWhile p := by
  induction l using List.reverseRecOn with
  | nil => rfl
  | append_singleton l a ih =>
    by_cases ha : p a
    · rw [List.rdropWhile_concat_pos _ _ _ ha, ih, List.dropWhile_append]
      split
      · next h =>
        rw [List.isEmpty_iff.mp h, List.dropWhile_cons_of_pos ha]
        rfl
      · rw [List.rdropWhile_concat_pos _ _ _ ha]
    · rw [List.rdropWhile_concat_neg _ _ _ ha, List.dropWhile_append]
      split
      · rw [List.dropWhile_cons_of_neg ha, List.rdropWhile_singleton, if_neg ha]
      · rw [List.rdropWhile_concat_neg _ _ _ ha]

theorem dropWhile_append_cons {p : Char → Bool} {c : Char} (hc : p c = false) (l r : List Char) :
    (l ++ c :: r).dropWhile p = l.dropWhile p ++ c :: r := by
  induction l with
  | nil => simp [hc]
  | cons a l ih =>
    cases ha : p a with
    | true => simp [ha, ih]
    | false => simp [ha]

theorem rdropWhile_append_cons {p : Char → Bool} {c : Char} (hc : p c = false) (l r : List Char) :
    (l ++ c :: r).rdropWhile p = l ++ c :: r.rdropWhile p := by
  rw [List.rdropWhile, List.reverse_append, List.reverse_cons, List.append_assoc, List.singleton_append,
    dropWhile_append_cons hc]
  simp [List.rdropWhile]

theorem toList_trim (s : String) :
    (trim s).toList = (s.toList.dropWhile isWhitespace).rdropWhile isWhitespace := by
  rw [trim, String.toList_ofList, trimStart]

@[simp] theorem trim_trim (s : String) : trim (trim s) = trim s := by
  apply String.toList_injective
  rw [toList_trim, toList_trim, dropWhile_rdropWhile, List.dropWhile_idempotent,
    List.rdropWhile_idempotent]

theorem mem_of_mem_trim {c : Char} {s : String} (h : c ∈ (trim s).toList) : c ∈ s.toList := by
  rw [toList_trim] at h
  exact (List.dropWhile_suffix isWhitespace).mem ((List.rdropWhile_prefix isWhitespace _).mem h)

/-- Trimming around a separator that is not white space only touches the outer ends, which
the parts lose anyway when they are trimmed themselves. -/
theorem splitOnce_trim {sep : Char} (hsep : isWhitespace sep = false) {name : String}
    (hname : sep ∉ name.toList) (value : String) :
    (splitOnce (trim (name ++ String.singleton sep ++ value)) sep).map (fun p => (trim p.1, trim p.2)) =
      some (trim name, trim value) := by
  have hlist : (trim (name ++ String.singleton sep ++ value)).toList =
      name.toList.dropWhile isWhitespace ++ sep :: value.toList.rdropWhile isWhitespace := by
    rw [toList_trim]
    simp only [String.toList_append, String.toList_singleton, List.append_assoc, List.singleton_append]
    rw [dropWhile_append_cons hsep, rdropWhile_append_cons hsep]
  have hmem : sep ∉ name.toList.dropWhile isWhitespace :=
    fun h => hname ((List.dropWhile_suffix isWhitespace).mem h)
  rw [splitOnce, hlist, splitOnceChars_append hmem]
  simp only [Option.map_some, Option.some.injEq, Prod.mk.injEq]
  constructor
  · apply String.toList_injective
    rw [toList_trim, toList_trim, String.toList_ofList, List.dropWhile_idempotent]
  · apply String.toList_injective
    rw [toList_trim, toList_trim, String.toList_ofList, dropWhile_rdropWhile,
      List.rdropWhile_idempotent]

end Trimming

section Pieces

theorem not_mem_of_mem_split {s piece : String} {sep : Char} (h : piece ∈ split s sep) :
    sep ∉ piece.toList := by
  have hchars : ∀ (cs : List Char), ∀ p ∈ cs.splitOn sep, sep ∉ p := by
    intro cs
    induction cs with
    | nil => simp
    | cons c cs ih =>
      rw [List.splitOn_cons_eq_if_modifyHead]
      obtain ⟨q, qs, hq⟩ := List.exists_cons_of_ne_nil (List.splitOn_ne_nil sep cs)
      rw [hq] at ih ⊢
      split
      · simpa using ih
      · next hc =>
        simp only [List.modifyHead_cons, List.forall_mem_cons] at ih ⊢
        refine ⟨?_, ih.2⟩
        rw [List.mem_cons, not_or]
        exact ⟨fun h => hc (beq_iff_eq.mpr h.symm), ih.1⟩
  obtain ⟨p, hp, rfl⟩ := List.mem_map.mp h
  rw [String.toList_ofList]
  exact hchars s.toList p hp

theorem split_of_not_mem {s : String} {sep : Char} (h : sep ∉ s.toList) : split s sep = [s] := by
  rw [split, List.splitOn_eq_singleton h, List.map_singleton, String.ofList_toList]

theorem splitOnceChars_eq_some_iff {sep : Char} {cs l r : List Char} :
    splitOnceChars sep cs = some (l, r) ↔ sep ∉ l ∧ cs = l ++ sep :: r := by
  constructor
  · intro h
    induction cs generalizing l with
    | nil => cases h
    | cons c cs ih =>
      rw [splitOnceChars] at h
      split at h
      · next hc =>
        cases h
        simp [hc]
      · next hc =>
        obtain ⟨p, hp, heq⟩ := Option.map_eq_some_iff.mp h
        cases heq
        obtain ⟨hmem, heq⟩ := ih hp
        refine ⟨?_, by rw [heq, List.cons_append]⟩
        rw [List.mem_cons, not_or]
        exact ⟨fun he => hc he.symm, hmem⟩
  · rintro ⟨hmem, rfl⟩
    exact splitOnceChars_append hmem r

/-- The first separator is the only place to split at. -/
theorem splitOnce_eq_some_iff {sep : Char} {s l r : String} :
    splitOnce s sep = some (l, r) ↔ sep ∉ l.toList ∧ s = l ++ String.singleton sep ++ r := by
  rw [splitOnce, Option.map_eq_some_iff]
  constructor
  · rintro ⟨p, hp, heq⟩
    cases heq
    obtain ⟨hmem, heq⟩ := splitOnceChars_eq_some_iff.mp hp
    rw [String.toList_ofList]
    refine ⟨hmem, String.toList_injective ?_⟩
    simp [heq]
  · rintro ⟨hmem, rfl⟩
    refine ⟨(l.toList, r.toList), splitOnceChars_eq_some_iff.mpr ⟨hmem, ?_⟩, by simp⟩
    simp

theorem splitOnce_eq_none_iff {sep : Char} {s : String} : splitOnce s sep = none ↔ sep ∉ s.toList := by
  rw [splitOnce, Option.map_eq_none_iff]
  generalize s.toList = cs
  induction cs with
  | nil => simp [splitOnceChars]
  | cons c cs ih =>
    rw [splitOnceChars]
    by_cases hc : c = sep
    · simp [hc]
    · simp [hc, ih, Ne.symm hc]

end Pieces

end PgCrypto.Str
