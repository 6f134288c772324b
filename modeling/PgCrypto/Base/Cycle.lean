import Mathlib.Data.List.Basic
import Mathlib.Data.Nat.ModEq

/-! # Cyclic repetition

The infinite sequence that repeats a list for ever is given by its value at every
position. Whole copies of a list, one after the other, repeat to the same sequence.
-/
namespace PgCrypto.Cyclic
variable {α : Type} {xs ys : List α}

/-- The symbol at a position of the list repeated for ever; the empty list has none. -/
def cyclicAt (xs : List α) (i : ℕ) : Option α := xs[i % xs.length]?

/-- The second list consists of whole copies of the first. -/
structure WholeCopies (xs ys : List α) : Prop where
  length_dvd : xs.length ∣ ys.length
  getElem?_eq : ∀ i, i < ys.length → ys[i]? = xs[i % xs.length]?

theorem WholeCopies.refl (xs : List α) : WholeCopies xs xs := by
  refine ⟨Nat.dvd_refl _, ?_⟩
  intro i hi
  rw [Nat.mod_eq_of_lt hi]

theorem WholeCopies.append (h : WholeCopies xs ys) : WholeCopies xs (ys ++ xs) := by
  constructor
  · rw [List.length_append]
    exact Nat.dvd_add h.length_dvd (Nat.dvd_refl _)
  · intro i hi
    rw [List.length_append] at hi
    by_cases hlt : i < ys.length
    · rw [List.getElem?_append_left hlt, h.getElem?_eq i hlt]
    · have hle : ys.length ≤ i := Nat.le_of_not_lt hlt
      have hmod : i % xs.length = i - ys.length := by
        rw [← Nat.mod_eq_of_lt (show i - ys.length < xs.length by omega)]
        exact ((Nat.modEq_iff_dvd' (Nat.sub_le i ys.length)).mpr
          (by rw [Nat.sub_sub_self hle]; exact h.length_dvd)).symm
      rw [List.getElem?_append_right hle, hmod]

theorem WholeCopies.cyclicAt_eq (h : WholeCopies xs ys) (hne : ys ≠ []) (i : ℕ) :
    cyclicAt ys i = cyclicAt xs i := by
  have hlt : i % ys.length < ys.length := Nat.mod_lt i (List.length_pos_iff.mpr hne)
  rw [cyclicAt, h.getElem?_eq _ hlt, Nat.mod_mod_of_dvd i h.length_dvd, cyclicAt]

end PgCrypto.Cyclic
