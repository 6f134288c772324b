import PgCrypto.Base.Utf8

/-! # Two-symbol line ends over an arbitrary alphabet

`expand` puts a mark in front of every line end and `collapse` drops a mark that
stands directly before one. Both are stated for any alphabet, so that the byte
and the character versions are the same function and commute with UTF-8.
-/
namespace PgCrypto.LineEnds
open Utf8
variable {α : Type} [DecidableEq α] {cr lf : α}

def expand (cr lf : α) (xs : List α) : List α := xs.flatMap (fun x => if x = lf then [cr, x] else [x])

def collapse (cr lf : α) : List α → List α
  | [] => []
  | [x] => [x]
  | x :: y :: rest => if x = cr ∧ y = lf then lf :: collapse cr lf rest else x :: collapse cr lf (y :: rest)

@[simp] theorem expand_nil : expand cr lf [] = [] := rfl
@[simp] theorem expand_cons (x : α) (xs : List α) :
    expand cr lf (x :: xs) = (if x = lf then [cr, x] else [x]) ++ expand cr lf xs := rfl

@[simp] theorem collapse_nil : collapse cr lf [] = [] := rfl

theorem collapse_pair (cr lf : α) (xs : List α) :
    collapse cr lf (cr :: lf :: xs) = lf :: collapse cr lf xs := by simp [collapse]

theorem collapse_cons_of_ne {x : α} (hx : x ≠ cr) (xs : List α) :
    collapse cr lf (x :: xs) = x :: collapse cr lf xs := by
  cases xs with
  | nil => rfl
  | cons y rest => rw [collapse, if_neg (fun h => hx h.1)]

theorem collapse_cons_of_head_ne {xs : List α} (h : xs.head? ≠ some lf) (x : α) :
    collapse cr lf (x :: xs) = x :: collapse cr lf xs := by
  cases xs with
  | nil => rfl
  | cons y rest =>
    have hy : y ≠ lf := by
      intro he
      exact h (by simp [he])
    rw [collapse, if_neg (fun h => hy h.2)]

theorem collapse_append_of_not_mem {xs : List α} (h : cr ∉ xs) (ys : List α) :
    collapse cr lf (xs ++ ys) = xs ++ collapse cr lf ys := by
  induction xs with
  | nil => rfl
  | cons x xs ih =>
    rw [List.mem_cons, not_or] at h
    rw [List.cons_append, collapse_cons_of_ne (Ne.symm h.1), ih h.2, List.cons_append]

theorem head?_expand_ne (h : cr ≠ lf) (xs : List α) : (expand cr lf xs).head? ≠ some lf := by
  cases xs with
  | nil => simp
  | cons x xs =>
    by_cases hx : x = lf
    · simpa [hx] using h
    · simp [hx]

/-- Collapsing undoes expanding, whatever marks and line ends the input has. -/
theorem collapse_expand (h : cr ≠ lf) (xs : List α) : collapse cr lf (expand cr lf xs) = xs := by
  induction xs with
  | nil => rfl
  | cons x xs ih =>
    by_cases hx : x = lf
    · subst hx
      rw [expand_cons, if_pos rfl, List.cons_append, List.singleton_append, collapse_pair, ih]
    · rw [expand_cons, if_neg hx, List.singleton_append,
        collapse_cons_of_head_ne (head?_expand_ne h xs), ih]

theorem mem_expand {x : α} (hx : x ≠ cr) {xs : List α} : x ∈ expand cr lf xs ↔ x ∈ xs := by
  induction xs with
  | nil => simp
  | cons y ys ih =>
    rw [expand_cons, List.mem_append, ih, List.mem_cons]
    by_cases hy : y = lf
    · simp [hy, hx]
    · simp [hy]

theorem mem_collapse {x : α} (hx : x ≠ cr) (xs : List α) : x ∈ collapse cr lf xs ↔ x ∈ xs := by
  fun_induction collapse cr lf xs with
  | case1 => simp
  | case2 y => simp
  | case3 y z rest h ih =>
    obtain ⟨rfl, rfl⟩ := h
    simp [ih, hx]
  | case4 y z rest h ih => rw [List.mem_cons, ih, ← List.mem_cons]

section Marked

/-- Every line end stands directly after a mark. -/
def Marked (cr lf : α) (xs : List α) : Prop :=
  ∀ before after, xs = before ++ lf :: after → before.getLast? = some cr

omit [DecidableEq α] in
theorem Marked.head_ne {x : α} {xs : List α} (h : Marked cr lf (x :: xs)) : x ≠ lf := by
  rintro rfl
  have hnil := h [] xs rfl
  cases hnil

omit [DecidableEq α] in
/-- Dropping a first symbol keeps the property unless it was the mark of the next one. -/
theorem Marked.of_cons {x : α} {xs : List α} (h : Marked cr lf (x :: xs))
    (hx : ¬ (x = cr ∧ xs.head? = some lf)) : Marked cr lf xs := by
  rintro before after rfl
  have hlast := h (x :: before) after rfl
  cases before with
  | nil =>
    simp only [List.getLast?_singleton, Option.some.injEq] at hlast
    exact absurd ⟨hlast, rfl⟩ hx
  | cons b before => rwa [List.getLast?_cons_cons] at hlast

omit [DecidableEq α] in
theorem Marked.of_pair (hne : cr ≠ lf) {xs : List α} (h : Marked cr lf (cr :: lf :: xs)) :
    Marked cr lf xs := by
  rintro before after rfl
  have hlast := h (cr :: lf :: before) after rfl
  cases before with
  | nil =>
    simp only [List.getLast?_cons_cons, List.getLast?_singleton, Option.some.injEq] at hlast
    exact absurd hlast.symm hne
  | cons b before => rwa [List.getLast?_cons_cons, List.getLast?_cons_cons] at hlast

theorem marked_expand (hne : cr ≠ lf) (xs : List α) : Marked cr lf (expand cr lf xs) := by
  induction xs with
  | nil =>
    intro before after h
    simp at h
  | cons x xs ih =>
    intro before after h
    by_cases hx : x = lf
    · subst hx
      rw [expand_cons, if_pos rfl] at h
      -- The line end found is the first one, or one of the rest.
      match before with
      | [] => exact absurd (List.cons.inj h).1 hne
      | [b] =>
        rw [(List.cons.inj h).1]
        rfl
      | b :: b' :: before =>
        have hrest := (List.cons.inj (List.cons.inj h).2).2
        have hlast := ih before after hrest
        cases before with
        | nil => cases hlast
        | cons c before => rwa [List.getLast?_cons_cons, List.getLast?_cons_cons]
    · rw [expand_cons, if_neg hx] at h
      match before with
      | [] => exact absurd (List.cons.inj h).1 hx
      | b :: before =>
        have hlast := ih before after (List.cons.inj h).2
        cases before with
        | nil => cases hlast
        | cons c before => rwa [List.getLast?_cons_cons]

theorem expand_collapse_of_marked (hne : cr ≠ lf) {xs : List α} (h : Marked cr lf xs) :
    expand cr lf (collapse cr lf xs) = xs := by
  fun_induction collapse cr lf xs with
  | case1 => rfl
  | case2 x => rw [expand_cons, if_neg h.head_ne, expand_nil, List.append_nil]
  | case3 x y rest hpair ih =>
    obtain ⟨rfl, rfl⟩ := hpair
    rw [expand_cons, if_pos rfl, ih (h.of_pair hne)]
    rfl
  | case4 x y rest hpair ih =>
    have hrest : Marked cr lf (y :: rest) := by
      apply h.of_cons
      rintro ⟨rfl, hy⟩
      exact hpair ⟨rfl, Option.some.inj hy⟩
    rw [expand_cons, if_neg h.head_ne, ih hrest, List.singleton_append]

/-- Expanding undoes collapsing exactly on the marked strings. -/
theorem expand_collapse_iff (hne : cr ≠ lf) {xs : List α} :
    expand cr lf (collapse cr lf xs) = xs ↔ Marked cr lf xs := by
  constructor
  · intro h
    rw [← h]
    exact marked_expand hne _
  · exact expand_collapse_of_marked hne

theorem exists_expand_iff (hne : cr ≠ lf) {xs : List α} :
    (∃ ys, expand cr lf ys = xs) ↔ Marked cr lf xs := by
  constructor
  · rintro ⟨ys, rfl⟩
    exact marked_expand hne ys
  · intro h
    exact ⟨collapse cr lf xs, expand_collapse_of_marked hne h⟩

theorem expand_injective (hne : cr ≠ lf) : Function.Injective (expand cr lf) :=
  Function.LeftInverse.injective (collapse_expand hne)

end Marked

section Text

theorem not_mem_utf8EncodeChar {a c : Char} (ha : a.toNat < 128) (h : c ≠ a) :
    UInt8.ofNat a.toNat ∉ String.utf8EncodeChar c := by
  intro hm
  have hb : UInt8.ofNat a.toNat < 128 := by
    rw [UInt8.lt_iff_toNat_lt, UInt8.toNat_ofNat', Nat.mod_eq_of_lt (by omega)]
    exact ha
  have hm' : UInt8.ofNat a.toNat ∈ encodeChars [c] := by simpa using hm
  obtain ⟨d, hd, he⟩ := (mem_encodeChars hb).mp hm'
  rw [List.mem_singleton] at hd
  subst hd
  rw [UInt8.toNat_ofNat', Nat.mod_eq_of_lt (by omega)] at he
  exact h (Char.toNat_inj.mp he)

/-- Collapsing line ends commutes with UTF-8 encoding: a CR or LF byte is always a
whole character, so no multi-byte sequence is touched. -/
theorem encodeChars_collapse (cs : List Char) :
    encodeChars (collapse '\r' '\n' cs) = collapse 13 10 (encodeChars cs) := by
  have hcr : ∀ c : Char, c ≠ '\r' → (13 : UInt8) ∉ String.utf8EncodeChar c :=
    fun c h => not_mem_utf8EncodeChar (a := '\r') (by decide) h
  fun_induction collapse '\r' '\n' cs with
  | case1 => rfl
  | case2 c =>
    by_cases hc : c = '\r'
    · subst hc
      decide
    · have h : collapse 13 10 (String.utf8EncodeChar c ++ []) = String.utf8EncodeChar c ++ [] :=
        collapse_append_of_not_mem (hcr c hc) []
      simpa using h.symm
  | case3 c d rest h ih =>
    obtain ⟨rfl, rfl⟩ := h
    rw [encodeChars_cons, ih]
    exact (collapse_pair 13 10 (encodeChars rest)).symm
  | case4 c d rest h ih =>
    rw [encodeChars_cons, encodeChars_cons, ih]
    by_cases hc : c = '\r'
    · subst hc
      refine (collapse_cons_of_head_ne (fun hh => h ⟨rfl, ?_⟩) 13).symm
      obtain ⟨x, xs, hx⟩ := List.exists_cons_of_ne_nil (List.ne_nil_of_mem (List.mem_of_mem_head? hh))
      rw [hx, List.head?_cons, Option.some.injEq] at hh
      subst hh
      obtain ⟨e, es, he, hn, -⟩ := encodeChars_eq_cons (by decide) hx
      cases he
      exact Char.toNat_inj.mp hn
    · exact (collapse_append_of_not_mem (hcr c hc) _).symm

/-- Whatever collapses to an encoding, possibly after the rest of a multi-byte character,
was that character's rest followed by an encoding. -/
theorem exists_encodeChars_of_collapse {data pre : Bytes} {cs : List Char}
    (hpre : ∀ b ∈ pre, 128 ≤ b) (h : collapse 13 10 data = pre ++ encodeChars cs) :
    ∃ ds, data = pre ++ encodeChars ds := by
  fun_induction collapse 13 10 data generalizing pre cs with
  | case1 => exact ⟨cs, h⟩
  | case2 x => exact ⟨cs, h⟩
  | case3 x y rest hpair ih =>
    obtain ⟨rfl, rfl⟩ := hpair
    cases pre with
    | nil =>
      obtain ⟨c, ds, rfl, -, hds⟩ := encodeChars_eq_cons (by decide) h.symm
      obtain ⟨es, hes⟩ := @ih [] ds (by simp) hds.symm
      refine ⟨'\r' :: '\n' :: es, ?_⟩
      rw [hes]
      rfl
    | cons p pre =>
      have hp := hpre p List.mem_cons_self
      rw [← (List.cons.inj h).1] at hp
      exact absurd hp (by decide)
  | case4 x y rest hpair ih =>
    cases pre with
    | nil =>
      cases cs with
      | nil => simp at h
      | cons c cs =>
        obtain ⟨b, bs, hb, hbs⟩ := utf8EncodeChar_eq_cons c
        rw [List.nil_append, encodeChars_cons, hb, List.cons_append, List.cons.injEq] at h
        obtain ⟨ds, hds⟩ := ih hbs h.2
        refine ⟨c :: ds, ?_⟩
        rw [List.nil_append, encodeChars_cons, hb, h.1, hds, List.cons_append]
    | cons p pre =>
      rw [List.cons_append, List.cons.injEq] at h
      obtain ⟨ds, hds⟩ := ih (fun b hb => hpre b (List.mem_cons_of_mem p hb)) h.2
      exact ⟨ds, by rw [h.1, hds, List.cons_append]⟩

/-- Collapsing line ends neither repairs nor breaks an encoding. -/
theorem fromUtf8_collapse_isSome (data : Bytes) :
    (fromUtf8 (collapse 13 10 data)).isSome ↔ (fromUtf8 data).isSome := by
  rw [fromUtf8_isSome_iff, fromUtf8_isSome_iff]
  constructor
  · rintro ⟨cs, hcs⟩
    exact @exists_encodeChars_of_collapse data [] cs (by simp) hcs
  · rintro ⟨cs, rfl⟩
    exact ⟨collapse '\r' '\n' cs, (encodeChars_collapse cs).symm⟩

theorem fromUtf8_expand_isSome (data : Bytes) :
    (fromUtf8 (expand 13 10 data)).isSome ↔ (fromUtf8 data).isSome := by
  rw [← fromUtf8_collapse_isSome, collapse_expand (by decide)]

end Text

end PgCrypto.LineEnds
