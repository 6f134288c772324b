import PgCrypto.Password.Salts

/-! # The rounds that salts can be asked for

Each scheme checks the rounds in its own integer type, after a default was put in the
place of zero and sometimes after a cast. As an integer condition the checks are one
range for each scheme, which the default is in; outside of it the call is refused before
the library is asked, and inside only the library can still fail.
-/
namespace PgCrypto.Password
open Str

def RoundsAccepted (algorithm : String) (rounds : ℤ) : Prop :=
  match algorithm with
  | "bf" => 4 ≤ rounds ∧ rounds ≤ 31
  | "des" => rounds = 25
  | "xdes" => 1 ≤ rounds ∧ rounds ≤ 16777215 ∧ rounds % 2 = 1
  | "md5" => rounds = 1000
  | "sha256crypt" | "sha512crypt" => 1000 ≤ rounds ∧ rounds ≤ 999999999
  | _ => False

def schemeLabel (algorithm : String) : String :=
  match algorithm with
  | "bf" => "bcrypt"
  | "des" => "DES"
  | "xdes" => "extended DES"
  | "md5" => "md5crypt"
  | other => other

/-- The message of a refused request. Only the schemes with a cast tell negative rounds. -/
def refusal (algorithm : String) (rounds : Int32) : String :=
  match algorithm with
  | "bf" => "bcrypt iteration count must be between 4 and 31"
  | "des" => "DES iteration count must be 25 when specified"
  | "xdes" => if rounds < 0 then "iteration count must be positive"
    else "extended DES iteration count must be odd and at most 16777215"
  | "md5" => "md5crypt iteration count must be 1000 when specified"
  | "sha256crypt" => if rounds < 0 then "iteration count must be positive"
    else "sha256crypt iteration count must be between 1000 and 999999999"
  | "sha512crypt" => if rounds < 0 then "iteration count must be positive"
    else "sha512crypt iteration count must be between 1000 and 999999999"
  | other => "unknown salt algorithm: " ++ other

section Casts

theorem roundsOrDefault_of_neg {rounds : Int32} (h : rounds < 0) (default : UInt32) :
    roundsOrDefault rounds default = raise "iteration count must be positive" := by
  have hne : rounds ≠ 0 := Int32.ne_of_lt h
  have hle : ¬ 0 < rounds := Int32.not_lt.mpr (Int32.le_of_lt h)
  rw [roundsOrDefault, if_neg hne, if_neg hle]

theorem roundsOrDefault_of_nonneg {rounds : Int32} (h : ¬ rounds < 0) (default : UInt32) :
    ∃ actual, roundsOrDefault rounds default = .ok actual := by
  unfold roundsOrDefault
  by_cases hzero : rounds = 0
  · exact ⟨_, if_pos hzero⟩
  · have hpos : 0 < rounds := Int32.lt_of_le_of_ne (Int32.not_lt.mp h) (Ne.symm hzero)
    rw [if_neg hzero]
    exact ⟨_, if_pos hpos⟩

end Casts

section Guards
variable {c : Prop} [Decidable c] {m : String} {α : Type} {x : Outcome α}

theorem guard_of (h : c) :
    (do
      if c then
        raise m
      x) = raise m := by
  rw [if_pos h]
  rfl

theorem guard_of_not (h : ¬ c) :
    (do
      if c then
        raise m
      x) = x := by
  rw [if_neg h]

end Guards

/-- What a request comes to: the library is asked when the rounds are accepted, and the
call is refused otherwise. -/
structure Decided (accepted : Prop) (context message : String) (x : Outcome String) : Prop where
  asked : accepted → ∃ answer, x = orRaise context answer
  refused : ¬ accepted → x = raise message

section Checks
variable {context message : String}

theorem guard_decided {accepted c : Prop} [Decidable c] (h : c ↔ ¬ accepted)
    (answer : Except String String) : Decided accepted context message (do
      if c then
        raise message
      orRaise context answer) where
  asked haccepted := ⟨answer, guard_of_not (fun hc => h.mp hc haccepted)⟩
  refused hrefused := guard_of (h.mpr hrefused)

/-- A check after the cast sees the rounds that were asked for, since negative ones do
not get that far. -/
theorem cast_decided (rounds : Int32) (default : UInt32) (accepted : ℤ → Prop) (check : UInt32 → Prop)
    [DecidablePred check] (hcheck : ∀ actual : UInt32, check actual ↔ ¬ accepted actual.toNat)
    (hpos : ∀ r, accepted r → 0 ≤ r) (ask : UInt32 → Except String String) :
    Decided (accepted (if rounds = 0 then (default.toNat : ℤ) else rounds.toInt)) context
      (if rounds < 0 then "iteration count must be positive" else message) (do
        let actual ← roundsOrDefault rounds default
        if check actual then
          raise message
        orRaise context (ask actual)) := by
  by_cases hneg : rounds < 0
  · have hne : rounds ≠ 0 := Int32.ne_of_lt hneg
    have hlt : rounds.toInt < 0 := Int32.lt_iff_toInt_lt.mp hneg
    rw [if_pos hneg, if_neg hne, roundsOrDefault_of_neg hneg]
    refine ⟨?_, fun _ => rfl⟩
    intro haccepted
    exact absurd (hpos _ haccepted) (Int.not_le.mpr hlt)
  · obtain ⟨actual, hactual⟩ := roundsOrDefault_of_nonneg hneg default
    rw [if_neg hneg, ← roundsOrDefault_eq_ok hactual, hactual, ok_bind]
    exact guard_decided (hcheck actual) (ask actual)

end Checks

section Schemes
variable (lib : Pwhash) (rng : lib.Rng) (rounds : Int32)

theorem shaHash_decided (name : String) (default : UInt32) (hashWith : HashSetup → Except String String) :
    Decided (1000 ≤ (if rounds = 0 then (default.toNat : ℤ) else rounds.toInt) ∧
        (if rounds = 0 then (default.toNat : ℤ) else rounds.toInt) ≤ 999999999)
      ("could not generate " ++ name ++ " salt")
      (if rounds < 0 then "iteration count must be positive"
        else name ++ " iteration count must be between 1000 and 999999999")
      (shaHash name default hashWith rounds) := by
  refine cast_decided rounds default (fun r => 1000 ≤ r ∧ r ≤ 999999999)
    (fun actual => ¬ (1000 ≤ actual ∧ actual ≤ 999999999)) ?_ ?_ _
  · intro actual
    have hmin : (1000 : UInt32).toNat = 1000 := rfl
    have hmax : (999999999 : UInt32).toNat = 999999999 := rfl
    rw [UInt32.le_iff_toNat_le, UInt32.le_iff_toNat_le, hmin, hmax]
    omega
  · intro r h
    omega

theorem only_iff {only : Int32} {default : ℤ} (h : default = only.toInt) :
    ¬ (rounds = 0 ∨ rounds = only) ↔ ¬ (if rounds = 0 then default else rounds.toInt) = only.toInt := by
  by_cases hzero : rounds = 0
  · simp [hzero, h]
  · simp [hzero, Int32.toInt_inj]

theorem xdes_iff (actual : UInt32) : (actual > 16777215 ∨ actual % 2 = 0) ↔
    ¬ RoundsAccepted "xdes" actual.toNat := by
  have hmax : (16777215 : UInt32).toNat = 16777215 := rfl
  have hmod : (actual % 2).toNat = actual.toNat % 2 := UInt32.toNat_mod actual 2
  have hzero : (0 : UInt32).toNat = 0 := rfl
  rw [gt_iff_lt, UInt32.lt_iff_toNat_lt, ← UInt32.toNat_inj, hmax, hmod, hzero]
  change _ ↔ ¬ (1 ≤ (actual.toNat : ℤ) ∧ (actual.toNat : ℤ) ≤ 16777215 ∧ (actual.toNat : ℤ) % 2 = 1)
  omega

theorem saltHash_decided (algorithm : String) :
    Decided (RoundsAccepted algorithm (requestedRounds lib algorithm rounds))
      ("could not generate " ++ schemeLabel algorithm ++ " salt") (refusal algorithm rounds)
      (saltHash lib rng algorithm rounds) := by
  unfold saltHash
  split
  case h_1 =>
    refine guard_decided ?_ _
    rw [requestedRounds, RoundsAccepted, Int32.le_iff_toInt_le, Int32.le_iff_toInt_le]
    split <;> exact Iff.rfl
  case h_2 =>
    refine guard_decided ?_ _
    exact @only_iff rounds 25 25 rfl
  case h_3 =>
    refine cast_decided rounds 725 (RoundsAccepted "xdes")
      (fun actual => actual > 16777215 ∨ actual % 2 = 0) xdes_iff ?_ _
    intro r h
    exact Int.le_trans (by decide) h.1
  case h_4 =>
    refine guard_decided ?_ _
    exact @only_iff rounds 1000 1000 rfl
  case h_5 => exact shaHash_decided rounds _ _ _
  case h_6 => exact shaHash_decided rounds _ _ _
  case h_7 hbf hdes hxdes hmd5 hsha256 hsha512 =>
    refine ⟨?_, ?_⟩
    · intro h
      unfold RoundsAccepted at h
      split at h <;> contradiction
    · intro _
      unfold refusal
      split <;> first | contradiction | rfl

end Schemes

/-- A salt request is refused with the message of its scheme when the rounds it comes to
are out of range, before anything is hashed; otherwise it returns a salt or reports what
the library says. No rounds wrap around on the way. -/
theorem genSalt_outcomes (lib : Pwhash) (writes : Setting → Prop) (checksum : Setting → Bytes → Word)
    (laws : lib.Laws writes checksum) (rng : lib.Rng) (algorithm : String) (rounds : Int32) :
    (RoundsAccepted (toAsciiLowercase algorithm) (requestedRounds lib (toAsciiLowercase algorithm) rounds) →
      (∃ salt, genSalt lib rng algorithm rounds = .ok salt) ∨
        ∃ e, genSalt lib rng algorithm rounds =
          raise ("could not generate " ++ schemeLabel (toAsciiLowercase algorithm) ++ " salt" ++ ": " ++ e)) ∧
    (¬ RoundsAccepted (toAsciiLowercase algorithm)
        (requestedRounds lib (toAsciiLowercase algorithm) rounds) →
      genSalt lib rng algorithm rounds = raise (refusal (toAsciiLowercase algorithm) rounds)) := by
  have hdecided := saltHash_decided lib rng rounds (toAsciiLowercase algorithm)
  refine ⟨?_, ?_⟩
  · intro h
    obtain ⟨answer, hanswer⟩ := hdecided.asked h
    cases answer with
    | ok hash =>
      obtain ⟨z, -, -, -, -, hsalt⟩ := genSalt_of_saltHash laws hanswer
      exact .inl ⟨_, hsalt⟩
    | error e =>
      refine .inr ⟨e, ?_⟩
      rw [genSalt, generateSalt, hanswer]
      rfl
  · intro h
    rw [genSalt, generateSalt, hdecided.refused h]
    rfl

/-- Negative rounds are refused in different words by a scheme with a cast and one without. -/
theorem genSalt_outcomes_recorded :
    genSalt Recorded.pwhash () "SHA256crypt" (-1) = raise "iteration count must be positive" ∧
      genSalt Recorded.pwhash () "bf" (-1) = raise "bcrypt iteration count must be between 4 and 31" ∧
      ∃ e, genSalt Recorded.pwhash () "sha512crypt" 0 =
        raise ("could not generate " ++ "sha512crypt" ++ " salt" ++ ": " ++ e) := by
  have hsha : toAsciiLowercase "SHA256crypt" = "sha256crypt" := by rfl
  have hbf : toAsciiLowercase "bf" = "bf" := by rfl
  have h512 : toAsciiLowercase "sha512crypt" = "sha512crypt" := by rfl
  have h := genSalt_outcomes Recorded.pwhash _ _ Recorded.pwhash_laws ()
  refine ⟨?_, ?_, ?_⟩
  · refine ((h "SHA256crypt" (-1)).2 ?_).trans ?_
    · rw [hsha]
      exact fun hrange => absurd hrange.1 (by decide)
    · rw [hsha]
      rfl
  · refine ((h "bf" (-1)).2 ?_).trans ?_
    · rw [hbf]
      exact fun hrange => absurd hrange.1 (by decide)
    · rw [hbf]
      rfl
  · rcases (h "sha512crypt" 0).1 (by rw [h512]; exact ⟨by decide, by decide⟩) with ⟨salt, hsalt⟩ | herror
    · cases hsalt
    · rw [h512] at herror
      exact herror

end PgCrypto.Password
