import PgCrypto.Base.Outcome

/-! # Base64

The standard alphabet with padding, three bytes to four digits, and the wrapping of
the digits into lines. Decoding inverts encoding on every byte string, and wrapping
at a multiple of four only inserts line feeds between groups of digits.
-/
namespace PgCrypto.Base64

def digit (n : ℕ) : Char :=
  Char.ofNat (if n < 26 then 65 + n else if n < 52 then 71 + n else if n < 62 then n - 4
    else if n = 62 then 43 else 47)

def digitValue (c : Char) : Option ℕ :=
  let n := c.toNat
  if 65 ≤ n ∧ n ≤ 90 then some (n - 65)
  else if 97 ≤ n ∧ n ≤ 122 then some (n - 71)
  else if 48 ≤ n ∧ n ≤ 57 then some (n + 4)
  else if n = 43 then some 62
  else if n = 47 then some 63
  else none

theorem digitValue_digit {n : ℕ} (h : n < 64) : digitValue (digit n) = some n := by
  have hall : ∀ i : Fin 64, digitValue (digit i) = some i.val := by decide
  exact hall ⟨n, h⟩

theorem digit_ne {n : ℕ} (h : n < 64) : digit n ≠ '-' ∧ digit n ≠ '\n' ∧ digit n ≠ '=' := by
  have hall : ∀ i : Fin 64, digit i ≠ '-' ∧ digit i ≠ '\n' ∧ digit i ≠ '=' := by decide
  exact hall ⟨n, h⟩

def encode : Bytes → List Char
  | [] => []
  | [a] => [digit (a.toNat / 4), digit (a.toNat % 4 * 16), '=', '=']
  | [a, b] => [digit (a.toNat / 4), digit (a.toNat % 4 * 16 + b.toNat / 16), digit (b.toNat % 16 * 4), '=']
  | a :: b :: c :: rest =>
    digit (a.toNat / 4) :: digit (a.toNat % 4 * 16 + b.toNat / 16) ::
      digit (b.toNat % 16 * 4 + c.toNat / 64) :: digit (c.toNat % 64) :: encode rest

def decode : List Char → Option Bytes
  | [] => some []
  | w :: x :: y :: z :: rest =>
    match digitValue w, digitValue x, digitValue y, digitValue z with
    | some w, some x, some y, some z => (decode rest).map (fun bytes =>
      UInt8.ofNat (w * 4 + x / 16) :: UInt8.ofNat (x % 16 * 16 + y / 4) :: UInt8.ofNat (y % 4 * 64 + z) :: bytes)
    | some w, some x, some y, none =>
      if z = '=' ∧ rest = [] then
        some [UInt8.ofNat (w * 4 + x / 16), UInt8.ofNat (x % 16 * 16 + y / 4)]
      else none
    | some w, some x, none, none =>
      if y = '=' ∧ z = '=' ∧ rest = [] then some [UInt8.ofNat (w * 4 + x / 16)] else none
    | _, _, _, _ => none
  | _ => none

/-- The three bytes put together again from the digits they were cut into. -/
theorem byte_first (a b : UInt8) :
    UInt8.ofNat (a.toNat / 4 * 4 + (a.toNat % 4 * 16 + b.toNat / 16) / 16) = a := by
  have ha := a.toNat_lt
  have hb := b.toNat_lt
  have h : a.toNat / 4 * 4 + (a.toNat % 4 * 16 + b.toNat / 16) / 16 = a.toNat := by omega
  rw [h, UInt8.ofNat_toNat]

theorem byte_second (a b c : UInt8) :
    UInt8.ofNat ((a.toNat % 4 * 16 + b.toNat / 16) % 16 * 16 + (b.toNat % 16 * 4 + c.toNat / 64) / 4) = b := by
  have hb := b.toNat_lt
  have hc := c.toNat_lt
  have h : (a.toNat % 4 * 16 + b.toNat / 16) % 16 * 16 + (b.toNat % 16 * 4 + c.toNat / 64) / 4 =
      b.toNat := by omega
  rw [h, UInt8.ofNat_toNat]

theorem byte_third (b c : UInt8) :
    UInt8.ofNat ((b.toNat % 16 * 4 + c.toNat / 64) % 4 * 64 + c.toNat % 64) = c := by
  have hb := b.toNat_lt
  have hc := c.toNat_lt
  have h : (b.toNat % 16 * 4 + c.toNat / 64) % 4 * 64 + c.toNat % 64 = c.toNat := by omega
  rw [h, UInt8.ofNat_toNat]

theorem digitValue_pad : digitValue '=' = none := by decide

theorem decode_encode (data : Bytes) : decode (encode data) = some data := by
  fun_induction encode data with
  | case1 => rfl
  | case2 a =>
    have ha := a.toNat_lt
    have hfirst : UInt8.ofNat (a.toNat / 4 * 4 + a.toNat % 4 * 16 / 16) = a := byte_first a 0
    rw [decode, digitValue_digit (by omega), digitValue_digit (by omega), digitValue_pad]
    dsimp only
    rw [if_pos ⟨rfl, rfl, rfl⟩, hfirst]
  | case3 a b =>
    have ha := a.toNat_lt
    have hb := b.toNat_lt
    have hsecond : UInt8.ofNat ((a.toNat % 4 * 16 + b.toNat / 16) % 16 * 16 + b.toNat % 16 * 4 / 4) = b :=
      byte_second a b 0
    rw [decode, digitValue_digit (by omega), digitValue_digit (by omega), digitValue_digit (by omega),
      digitValue_pad]
    dsimp only
    rw [if_pos ⟨rfl, rfl⟩, byte_first, hsecond]
  | case4 a b c rest ih =>
    have ha := a.toNat_lt
    have hb := b.toNat_lt
    have hc := c.toNat_lt
    rw [decode, digitValue_digit (by omega), digitValue_digit (by omega), digitValue_digit (by omega),
      digitValue_digit (by omega)]
    dsimp only
    rw [ih, Option.map_some, byte_first, byte_second, byte_third]

section Lines

/-- A line feed after every `width` characters, with `left` to go on the first line. -/
def wrap (width : ℕ) : ℕ → List Char → List Char
  | _, [] => []
  | 0, c :: cs => '\n' :: c :: wrap width (width - 1) cs
  | left + 1, c :: cs => c :: wrap width left cs

/-- A group of four stays together, with at most a line feed before it. -/
theorem wrap_four (w k : ℕ) (a b c d : Char) (cs : List Char) :
    ∃ k' front, (front = [] ∨ front = ['\n']) ∧
      wrap (4 * w + 4) (4 * k) (a :: b :: c :: d :: cs) =
        front ++ a :: b :: c :: d :: wrap (4 * w + 4) (4 * k') cs := by
  cases k with
  | zero => exact ⟨w, ['\n'], Or.inr rfl, rfl⟩
  | succ k => exact ⟨k, [], Or.inl rfl, rfl⟩

end Lines

example : String.ofList (encode [0x00, 0x01, 0x02, 0xff]) = "AAEC/w==" := by decide

end PgCrypto.Base64
