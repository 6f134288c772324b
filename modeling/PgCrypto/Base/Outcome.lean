import Mathlib.Data.List.Basic
import Mathlib.Data.List.Forall2
import Mathlib.Data.List.Induction

/-! # Outcomes of fallible calls

A call returns a value, raises a database error with a message, or panics. The
two failures are kept apart, since a caller handles the first and only unwinds
on the second. Library results are plain `Except String` values, or outcomes where
a library may panic too; a call site turns their errors into database errors with a
context prepended.
-/
namespace PgCrypto

abbrev Bytes := List UInt8

/-- Bytes written as lines of hexadecimal digits, two digits a byte. -/
def hexBytes (lines : List String) : Bytes := lines.flatMap (fun line => go line.toList)
where
  value (c : Char) : UInt8 := if c.toNat < 58 then (c.toNat - 48).toUInt8 else (c.toNat - 87).toUInt8
  go : List Char → Bytes
    | high :: low :: rest => (16 * value high + value low) :: go rest
    | _ => []

/-- The two ways a call ends without a value. -/
inductive Failure where
  | error (message : String)
  | panic (message : String)
  deriving DecidableEq, Repr

abbrev Outcome (α : Type) := Except Failure α

variable {α β ε : Type}

def raise (message : String) : Outcome α := .error (.error message)

def abort (message : String) : Outcome α := .error (.panic message)

/-- The context-prefixed unwrapping of a library result. -/
def orRaise (context : String) : Except String α → Outcome α
  | .ok a => .ok a
  | .error e => raise (context ++ ": " ++ e)

/-- The same unwrapping of an operation that may panic. -/
def orUnwind (context : String) : Outcome α → Outcome α
  | .error (.error e) => raise (context ++ ": " ++ e)
  | x => x

@[simp] theorem bind_eq_ok {x : Except ε α} {f : α → Except ε β} {b : β} :
    (x >>= f) = .ok b ↔ ∃ a, x = .ok a ∧ f a = .ok b := by
  cases x with
  | error e => simp [bind, Except.bind]
  | ok a => simp [bind, Except.bind]

theorem bind_eq_error {x : Except ε α} {f : α → Except ε β} {e : ε} :
    (x >>= f) = .error e ↔ x = .error e ∨ ∃ a, x = .ok a ∧ f a = .error e := by
  cases x with
  | error e' => simp [bind, Except.bind]
  | ok a => simp [bind, Except.bind]

theorem exists_error_iff {x : Except ε α} : (∃ e, x = .error e) ↔ ¬ ∃ a, x = .ok a := by
  cases x with
  | error e => simp
  | ok a => simp

@[simp] theorem map_eq_ok {f : α → β} {x : Except ε α} {b : β} :
    f <$> x = .ok b ↔ ∃ a, x = .ok a ∧ f a = b := by
  cases x with
  | error e => simp [Functor.map, Except.map]
  | ok a => simp [Functor.map, Except.map]

@[simp] theorem ok_bind (a : α) (f : α → Except ε β) : ((.ok a : Except ε α) >>= f) = f a := rfl
@[simp] theorem error_bind (e : ε) (f : α → Except ε β) :
    ((.error e : Except ε α) >>= f) = .error e := rfl
@[simp] theorem pure_eq_ok (a : α) : (pure a : Except ε α) = .ok a := rfl

@[simp] theorem raise_ne_ok (m : String) (a : α) : (raise m : Outcome α) ≠ .ok a := by simp [raise]
@[simp] theorem abort_ne_ok (m : String) (a : α) : (abort m : Outcome α) ≠ .ok a := by simp [abort]
@[simp] theorem raise_ne_panic (m n : String) :
    (raise m : Outcome α) ≠ .error (.panic n) := by simp [raise]

@[simp] theorem orRaise_ok (context : String) (a : α) : orRaise context (.ok a) = .ok a := rfl
@[simp] theorem orRaise_eq_ok {context : String} {x : Except String α} {a : α} :
    orRaise context x = .ok a ↔ x = .ok a := by
  cases x with
  | error e => simp [orRaise]
  | ok b => simp [orRaise]
@[simp] theorem orRaise_ne_panic (context n : String) (x : Except String α) :
    orRaise context x ≠ .error (.panic n) := by
  cases x with
  | error e => simp [orRaise]
  | ok b => simp [orRaise]

@[simp] theorem orUnwind_ok (context : String) (a : α) : orUnwind context (.ok a) = .ok a := rfl
@[simp] theorem orUnwind_eq_ok {context : String} {x : Outcome α} {a : α} :
    orUnwind context x = .ok a ↔ x = .ok a := by
  cases x with
  | ok b => simp [orUnwind]
  | error f => cases f <;> simp [orUnwind, raise]
@[simp] theorem orUnwind_eq_panic {context m : String} {x : Outcome α} :
    orUnwind context x = .error (.panic m) ↔ x = .error (.panic m) := by
  cases x with
  | ok b => simp [orUnwind]
  | error f => cases f <;> simp [orUnwind, raise]

/-- The call returns or raises, but does not panic. -/
def NoPanic (x : Outcome α) : Prop := ∀ message, x ≠ .error (.panic message)

@[simp] theorem noPanic_ok (a : α) : NoPanic (.ok a : Outcome α) := by simp [NoPanic]
@[simp] theorem noPanic_raise (m : String) : NoPanic (raise m : Outcome α) := by simp [NoPanic]
theorem noPanic_orRaise (context : String) (x : Except String α) : NoPanic (orRaise context x) := by
  simp [NoPanic]

/-- The call ends in a panic. -/
def Panics (x : Outcome α) : Prop := ∃ message, x = .error (.panic message)

theorem noPanic_iff {x : Outcome α} : NoPanic x ↔ ¬ Panics x := not_exists.symm

/-- The calls have one outcome, where the texts of panics are not compared. -/
def Agree (x y : Outcome α) : Prop := x = y ∨ Panics x ∧ Panics y

theorem Agree.eq_ok {x y : Outcome α} {a : α} (h : Agree x y) (hx : x = .ok a) : y = .ok a := by
  rcases h with rfl | ⟨⟨m, hm⟩, -⟩
  · exact hx
  · rw [hx] at hm
    cases hm

theorem panics_orUnwind_iff {context : String} {x : Outcome α} :
    Panics (orUnwind context x) ↔ Panics x := exists_congr fun _ => orUnwind_eq_panic

theorem panics_bind_iff {x : Outcome α} {f : α → Outcome β} :
    Panics (x >>= f) ↔ Panics x ∨ ∃ a, x = .ok a ∧ Panics (f a) := by
  cases x with
  | ok a => simp [Panics]
  | error e => simp [Panics]

@[simp] theorem not_panics_ok (a : α) : ¬ Panics (.ok a : Outcome α) := noPanic_iff.mp (noPanic_ok a)
@[simp] theorem not_panics_orRaise (context : String) (x : Except String α) :
    ¬ Panics (orRaise context x) := noPanic_iff.mp (noPanic_orRaise context x)

theorem panics_bind_left {x : Outcome α} {f : α → Outcome β} (h : ∀ a, NoPanic (f a)) :
    Panics (x >>= f) ↔ Panics x := by
  rw [panics_bind_iff, or_iff_left]
  rintro ⟨a, -, ha⟩
  exact noPanic_iff.mp (h a) ha

theorem panics_bind_right {x : Outcome α} {f : α → Outcome β} {p : Prop} (hx : NoPanic x)
    (h : ∀ a, Panics (f a) ↔ p) : Panics (x >>= f) ↔ (∃ a, x = .ok a) ∧ p := by
  rw [panics_bind_iff, or_iff_right (noPanic_iff.mp hx)]
  simp only [h, exists_and_right]

theorem NoPanic.bind {x : Outcome α} {f : α → Outcome β} (hx : NoPanic x)
    (hf : ∀ a, x = .ok a → NoPanic (f a)) : NoPanic (x >>= f) := by
  intro m he
  rcases bind_eq_error.mp he with h | ⟨a, ha, h⟩
  · exact hx m h
  · exact hf a ha m h

theorem NoPanic.map {x : Outcome α} (hx : NoPanic x) (f : α → β) : NoPanic (f <$> x) := by
  cases x with
  | ok a => exact noPanic_ok (f a)
  | error e =>
    intro m he
    cases he
    exact hx m rfl

section Guards
variable {c : Prop} [Decidable c] {m : String} {x : Outcome α}

/-- A check that raises, in front of the rest of a call. -/
theorem guard_eq_ok {a : α} :
    (do
      if c then
        raise m
      x) = .ok a ↔ ¬ c ∧ x = .ok a := by
  by_cases h : c
  · simp [h]
  · simp [h]

theorem NoPanic.guard (hx : NoPanic x) :
    NoPanic (do
      if c then
        raise m
      x) := by
  by_cases h : c
  · rw [if_pos h]
    exact (noPanic_raise m).bind (fun _ _ => hx)
  · rw [if_neg h]
    exact hx

end Guards

section Slices

/-- Slicing `data[start..stop]`; an index past the end panics. -/
def slice (data : Bytes) (start stop : ℕ) : Outcome Bytes :=
  if start ≤ stop ∧ stop ≤ data.length then .ok ((data.take stop).drop start)
  else abort "range end index out of range for slice"

def sliceTo (data : Bytes) (stop : ℕ) : Outcome Bytes := slice data 0 stop
def sliceFrom (data : Bytes) (start : ℕ) : Outcome Bytes := slice data start data.length

theorem slice_eq {data : Bytes} {start stop : ℕ} (h : start ≤ stop) (hs : stop ≤ data.length) :
    slice data start stop = .ok ((data.take stop).drop start) := by simp [slice, h, hs]

theorem sliceTo_eq {data : Bytes} {stop : ℕ} (h : stop ≤ data.length) :
    sliceTo data stop = .ok (data.take stop) := by simp [sliceTo, slice, h]

theorem sliceFrom_eq {data : Bytes} {start : ℕ} (h : start ≤ data.length) :
    sliceFrom data start = .ok (data.drop start) := by simp [sliceFrom, slice, h]

end Slices

section Folds
variable {σ τ : Type}

/-- One step keeps the invariant, so a whole successful fold does. -/
theorem foldlM_invariant {step : σ → α → Except ε σ} (Inv : σ → Prop)
    (hstep : ∀ s a t, Inv s → step s a = .ok t → Inv t) {s t : σ} (xs : List α) (hs : Inv s)
    (he : xs.foldlM step s = .ok t) : Inv t := by
  induction xs generalizing s with
  | nil =>
    simp only [List.foldlM_nil, pure_eq_ok, Except.ok.injEq] at he
    exact he ▸ hs
  | cons a xs ih =>
    simp only [List.foldlM_cons, bind_eq_ok] at he
    obtain ⟨u, hu, hrest⟩ := he
    exact ih (hstep s a u hs hu) hrest

/-- A forward simulation of single steps is one of whole folds: whenever the first
fold succeeds the second does, and the final states are related. -/
theorem foldlM_simulation {step : σ → α → Except ε σ} {step' : τ → α → Except ε τ}
    (R : σ → τ → Prop)
    (hstep : ∀ s t a s', R s t → step s a = .ok s' → ∃ t', step' t a = .ok t' ∧ R s' t')
    {s s' : σ} {t : τ} (xs : List α) (hst : R s t) (he : xs.foldlM step s = .ok s') :
    ∃ t', xs.foldlM step' t = .ok t' ∧ R s' t' := by
  induction xs generalizing s t with
  | nil =>
    simp only [List.foldlM_nil, pure_eq_ok, Except.ok.injEq] at he
    exact ⟨t, rfl, he ▸ hst⟩
  | cons a xs ih =>
    simp only [List.foldlM_cons, bind_eq_ok] at he
    obtain ⟨u, hu, hrest⟩ := he
    obtain ⟨v, hv, huv⟩ := hstep s t a u hst hu
    obtain ⟨t', ht', hR⟩ := ih huv hrest
    exact ⟨t', by simp only [List.foldlM_cons, hv, ok_bind, ht'], hR⟩

/-- In a successful fold every element's step succeeded from some state. -/
theorem foldlM_mem_ok {step : σ → α → Except ε σ} {s t : σ} {xs : List α}
    (he : xs.foldlM step s = .ok t) {a : α} (ha : a ∈ xs) : ∃ u v, step u a = .ok v := by
  induction xs generalizing s with
  | nil => simp at ha
  | cons b xs ih =>
    simp only [List.foldlM_cons, bind_eq_ok] at he
    obtain ⟨u, hu, hrest⟩ := he
    rcases List.mem_cons.mp ha with rfl | ha
    · exact ⟨s, u, hu⟩
    · exact ih hrest ha

/-- A fold whose steps succeed or fail whatever the state is succeeds exactly when every
element's step does. -/
theorem exists_foldlM_iff {step : σ → α → Except ε σ} {reads : α → Prop}
    (hstep : ∀ s a, (∃ t, step s a = .ok t) ↔ reads a) (xs : List α) (s : σ) :
    (∃ t, xs.foldlM step s = .ok t) ↔ ∀ a ∈ xs, reads a := by
  induction xs generalizing s with
  | nil => simp
  | cons a xs ih =>
    rw [List.forall_mem_cons, ← hstep s a]
    simp only [List.foldlM_cons, bind_eq_ok]
    constructor
    · rintro ⟨t, u, hu, hrest⟩
      exact ⟨⟨u, hu⟩, (ih u).mp ⟨t, hrest⟩⟩
    · rintro ⟨⟨u, hu⟩, hrest⟩
      obtain ⟨t, ht⟩ := (ih u).mpr hrest
      exact ⟨t, u, hu, ht⟩

/-- The last write wins: a part of the state that each step either keeps or sets in relation
to what it writes is, after a successful fold, related to the last write, and untouched when
there was none. -/
theorem foldlM_last_write {γ : Type} {step : σ → α → Except ε σ} {get : σ → β} {write : α → Option γ}
    {R : γ → β → Prop} (hkeep : ∀ s a t, step s a = .ok t → write a = none → get t = get s)
    (hset : ∀ s a t c, step s a = .ok t → write a = some c → R c (get t)) {s t : σ} {xs : List α}
    (he : xs.foldlM step s = .ok t) :
    match (xs.filterMap write).getLast? with
    | none => get t = get s
    | some c => R c (get t) := by
  induction xs using List.reverseRecOn generalizing t with
  | nil =>
    simp only [List.foldlM_nil, pure_eq_ok, Except.ok.injEq] at he
    subst he
    rfl
  | append_singleton xs a ih =>
    rw [List.foldlM_append] at he
    simp only [bind_eq_ok, List.foldlM_cons, List.foldlM_nil, pure_eq_ok, Except.ok.injEq] at he
    obtain ⟨u, hu, v, hv, rfl⟩ := he
    cases hw : write a with
    | none =>
      rw [List.filterMap_append, List.filterMap_cons_none hw, List.filterMap_nil, List.append_nil,
        hkeep u a v hv hw]
      exact ih hu
    | some c =>
      rw [List.filterMap_append, List.filterMap_cons_some hw, List.filterMap_nil, List.getLast?_concat]
      exact hset u a v c hv hw

theorem NoPanic.foldlM {step : σ → α → Outcome σ} (h : ∀ s a, NoPanic (step s a)) (xs : List α)
    (s : σ) : NoPanic (xs.foldlM step s) := by
  induction xs generalizing s with
  | nil => exact noPanic_ok s
  | cons a xs ih =>
    rw [List.foldlM_cons]
    apply (h s a).bind
    intro t _
    exact ih t

/-- A loop that collects optional results: it succeeds exactly when every element's
step does, and collects the present ones in order. -/
theorem foldlM_collect_eq_ok {f : α → Except ε (Option β)} {xs : List α} {acc out : List β} :
    xs.foldlM (fun acc a => f a >>= fun r => .ok (acc ++ r.toList)) acc = .ok out ↔
      (∀ a ∈ xs, ∃ r, f a = .ok r) ∧ out = acc ++ xs.filterMap (fun a => (f a).toOption.join) := by
  induction xs generalizing acc with
  | nil => simp [eq_comm]
  | cons a xs ih =>
    cases hf : f a with
    | error e => simp [List.foldlM_cons, hf]
    | ok r =>
      rw [List.foldlM_cons, hf, ok_bind, ok_bind, ih]
      cases r with
      | none => simp [hf, Except.toOption]
      | some b => simp [hf, Except.toOption]

/-- A mapped list succeeds exactly when every element does, position by position. -/
theorem mapM_eq_ok {f : α → Except ε β} {xs : List α} {ys : List β} :
    xs.mapM f = .ok ys ↔ List.Forall₂ (fun x y => f x = .ok y) xs ys := by
  induction xs generalizing ys with
  | nil => simp [eq_comm]
  | cons x xs ih =>
    rw [List.mapM_cons, List.forall₂_cons_left_iff]
    simp only [bind_eq_ok, ih, pure_eq_ok, Except.ok.injEq]
    constructor
    · rintro ⟨y, hy, rest, hrest, rfl⟩
      exact ⟨y, rest, hy, hrest, rfl⟩
    · rintro ⟨y, rest, hy, hrest, rfl⟩
      exact ⟨y, hy, rest, hrest, rfl⟩

end Folds

end PgCrypto
