import PgCrypto.Base.Str

/-! # Byte offsets into strings

A string is cut at byte offsets. An offset past the end or inside a character is no
place to cut: slicing there panics, and a checked access finds nothing. The offsets of a
separator count the bytes before it.
-/
namespace PgCrypto.Str

/-- `str::len`. -/
def byteLen : List Char → ℕ
  | [] => 0
  | c :: cs => c.utf8Size + byteLen cs

/-- The parts before and after a byte offset, when it is a character boundary. -/
def splitAtByte : ℕ → List Char → Option (List Char × List Char)
  | 0, cs => some ([], cs)
  | _ + 1, [] => none
  | n + 1, c :: cs =>
    if c.utf8Size ≤ n + 1 then
      (splitAtByte (n + 1 - c.utf8Size) cs).map (fun p => (c :: p.1, p.2))
    else none

/-- Slicing `s[..stop]`. -/
def textTo (s : String) (stop : ℕ) : Outcome String :=
  match splitAtByte stop s.toList with
  | some p => .ok (String.ofList p.1)
  | none => abort "byte index is out of bounds or not a char boundary"

/-- Slicing `s[start..]`. -/
def textFrom (s : String) (start : ℕ) : Outcome String :=
  match splitAtByte start s.toList with
  | some p => .ok (String.ofList p.2)
  | none => abort "byte index is out of bounds or not a char boundary"

/-- `str::get` of the range `start..stop`; the start has to lie before the stop. -/
def textGet (s : String) (start stop : ℕ) : Option String :=
  (splitAtByte stop s.toList).bind (fun p =>
    (splitAtByte start p.1).map (fun q => String.ofList q.2))

/-- The byte offsets of a character, counted from the given one. -/
def indicesFrom (sep : Char) : ℕ → List Char → List ℕ
  | _, [] => []
  | offset, c :: cs =>
    if c = sep then offset :: indicesFrom sep (offset + c.utf8Size) cs
    else indicesFrom sep (offset + c.utf8Size) cs

/-- The offsets of `str::match_indices` for a character. -/
def matchIndices (s : String) (sep : Char) : List ℕ := indicesFrom sep 0 s.toList

/-- `str::find` for a character. -/
def find (s : String) (sep : Char) : Option ℕ := (matchIndices s sep).head?

/-- A match at the head is replaced and its other characters are skipped. -/
def replaceChars (pattern replacement : List Char) : ℕ → List Char → List Char
  | _, [] => []
  | skip + 1, _ :: cs => replaceChars pattern replacement skip cs
  | 0, c :: cs =>
    if pattern.isPrefixOf (c :: cs) then
      replacement ++ replaceChars pattern replacement (pattern.length - 1) cs
    else c :: replaceChars pattern replacement 0 cs

/-- `str::replace` of a non-empty pattern, from left to right without overlaps. -/
def replace (s pattern replacement : String) : String :=
  String.ofList (replaceChars pattern.toList replacement.toList 0 s.toList)

example : replace "$2b$06$x$2b$" "$2b$" "$2a$" = "$2a$06$x$2a$" := by decide
example : textGet "$5$rounds=1000$" 3 10 = some "rounds=" := by decide
example : textTo "é" 1 = abort "byte index is out of bounds or not a char boundary" := by decide

section Lengths

@[simp] theorem byteLen_nil : byteLen [] = 0 := rfl

@[simp] theorem byteLen_cons (c : Char) (cs : List Char) : byteLen (c :: cs) = c.utf8Size + byteLen cs := rfl

@[simp] theorem byteLen_append (a b : List Char) : byteLen (a ++ b) = byteLen a + byteLen b := by
  induction a with
  | nil => simp
  | cons c a ih => simp [ih, Nat.add_assoc]

theorem utf8Size_of_toNat_le {c : Char} (h : c.toNat ≤ 127) : c.utf8Size = 1 := by
  rw [Char.utf8Size_eq_one_iff, UInt32.le_iff_toNat_le]
  exact h

theorem byteLen_eq_length {cs : List Char} (h : ∀ c ∈ cs, c.utf8Size = 1) : byteLen cs = cs.length := by
  induction cs with
  | nil => rfl
  | cons c cs ih =>
    rw [List.forall_mem_cons] at h
    rw [byteLen_cons, h.1, ih h.2, List.length_cons, Nat.add_comm]

end Lengths

section Cuts

/-- The end of a first part is a character boundary. -/
theorem splitAtByte_append (a b : List Char) : splitAtByte (byteLen a) (a ++ b) = some (a, b) := by
  induction a with
  | nil => simp [splitAtByte]
  | cons c a ih =>
    obtain ⟨k, hk⟩ := Nat.exists_eq_add_of_lt c.utf8Size_pos
    have hlen : byteLen (c :: a) = (k + byteLen a) + 1 := by
      rw [byteLen_cons, hk]
      omega
    have hrest : k + byteLen a + 1 - c.utf8Size = byteLen a := by omega
    rw [hlen, List.cons_append, splitAtByte, if_pos (by omega), hrest, ih]
    rfl

theorem textTo_append {stop : ℕ} (a b : List Char) (h : byteLen a = stop) :
    textTo (String.ofList (a ++ b)) stop = .ok (String.ofList a) := by
  subst h
  rw [textTo, String.toList_ofList, splitAtByte_append]

theorem textFrom_append {start : ℕ} (a b : List Char) (h : byteLen a = start) :
    textFrom (String.ofList (a ++ b)) start = .ok (String.ofList b) := by
  subst h
  rw [textFrom, String.toList_ofList, splitAtByte_append]

theorem splitAtByte_eq_some {n : ℕ} {cs : List Char} {p : List Char × List Char}
    (h : splitAtByte n cs = some p) : cs = p.1 ++ p.2 := by
  fun_induction splitAtByte n cs generalizing p with
  | case1 cs => cases h; rfl
  | case2 n => cases h
  | case3 n c cs hc ih =>
    obtain ⟨q, hq, rfl⟩ := Option.map_eq_some_iff.mp h
    rw [List.cons_append, ← ih hq]
  | case4 n c cs hc => cases h

theorem textGet_append {start stop : ℕ} (a b c : List Char) (hstart : byteLen a = start)
    (hstop : byteLen a + byteLen b = stop) :
    textGet (String.ofList (a ++ (b ++ c))) start stop = some (String.ofList b) := by
  subst hstart
  have hcut : splitAtByte stop (a ++ (b ++ c)) = some (a ++ b, c) := by
    rw [← hstop, ← byteLen_append, ← List.append_assoc, splitAtByte_append]
  rw [textGet, String.toList_ofList, hcut, Option.bind_some, splitAtByte_append, Option.map_some]

/-- What a checked access returns is part of the string. -/
theorem mem_of_textGet {s part : String} {start stop : ℕ} (h : textGet s start stop = some part) {c : Char}
    (hc : c ∈ part.toList) : c ∈ s.toList := by
  rw [textGet, Option.bind_eq_some_iff] at h
  obtain ⟨p, hp, h⟩ := h
  obtain ⟨q, hq, rfl⟩ := Option.map_eq_some_iff.mp h
  rw [String.toList_ofList] at hc
  rw [splitAtByte_eq_some hp, splitAtByte_eq_some hq]
  exact List.mem_append_left p.2 (List.mem_append_right q.1 hc)

end Cuts

section Indices

theorem indicesFrom_append_cons {sep : Char} {a : List Char} (ha : sep ∉ a) (offset : ℕ) (b : List Char) :
    indicesFrom sep offset (a ++ sep :: b) =
      (offset + byteLen a) :: indicesFrom sep (offset + byteLen a + sep.utf8Size) b := by
  induction a generalizing offset with
  | nil => simp [indicesFrom]
  | cons c a ih =>
    rw [List.mem_cons, not_or] at ha
    rw [List.cons_append, indicesFrom, if_neg (Ne.symm ha.1), ih ha.2, byteLen_cons]
    simp only [Nat.add_assoc]

end Indices

section Replacing

theorem replaceChars_of_not_infix {pattern replacement cs : List Char} (h : ¬ pattern <:+: cs) :
    replaceChars pattern replacement 0 cs = cs := by
  induction cs with
  | nil => rfl
  | cons c cs ih =>
    have hhead : ¬ pattern.isPrefixOf (c :: cs) := by
      rw [List.isPrefixOf_iff_prefix]
      exact fun hp => h hp.isInfix
    have htail : ¬ pattern <:+: cs := fun hp => h (hp.trans (List.suffix_cons c cs).isInfix)
    rw [replaceChars, if_neg hhead, ih htail]

theorem replace_ofList {cs : List Char} {pattern : String} (h : ¬ pattern.toList <:+: cs)
    (replacement : String) : replace (String.ofList cs) pattern replacement = String.ofList cs := by
  rw [replace, String.toList_ofList, replaceChars_of_not_infix h]

end Replacing

end PgCrypto.Str
