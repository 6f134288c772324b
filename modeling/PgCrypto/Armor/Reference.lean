import PgCrypto.Armor.Model
import PgCrypto.Base.Base64

/-! # A reference armor library

A writer that collects what it is given and emits a block with a Base64 body and its
checksum when it is finished, and a reader of inputs that begin with their block. They
meet the laws, so these can be assumed together.
-/
namespace PgCrypto.Armor
open Str Utf8

section Checksum

/-- A remainder of 24 bits times two: the polynomial is added when the upper bit is set. -/
def crc24Shift (crc : ℕ) : ℕ := (crc * 2) ^^^ (crc / 0x800000 * 0x1864cfb)

def crc24 (data : Bytes) : ℕ :=
  data.foldl (fun crc b => crc24Shift^[8] (crc ^^^ (b.toNat * 0x10000))) 0xb704ce

def crc24Digits (data : Bytes) : List Char :=
  let crc := crc24 data
  Base64.encode [UInt8.ofNat (crc / 0x10000), UInt8.ofNat (crc / 0x100), UInt8.ofNat crc]

example : crc24Digits [0x00, 0x01, 0x02, 0xff] = "ZcuM".toList := by decide

end Checksum

/-- The armored body: digits in lines of 64, the checksum, and the last line of the block. -/
def referenceBody (data : Bytes) : String :=
  String.ofList (Base64.wrap 64 64 (Base64.encode data) ++ '\n' :: '=' :: (crc24Digits data ++
    "\n-----END PGP MESSAGE-----\n".toList))

/-- The digits of the body. A pad at the beginning of a line belongs to the checksum, which is
not compared. -/
def armorDigits : List Char → List Char
  | [] => []
  | c :: rest =>
    if c = '-' then []
    else if c = '\n' then if rest.head? = some '=' then [] else armorDigits rest
    else c :: armorDigits rest

def referenceDecode (body : List Char) : Outcome Bytes :=
  match Base64.decode (armorDigits body) with
  | some data => .ok data
  | none => raise "malformed base64"

/-- The header section and the body of an input that begins with a block. -/
def referenceRead (input : Bytes) : Outcome (List (List Char × List Char) × List (List Char)) :=
  match fromUtf8 input with
  | none => raise "no armor block"
  | some text =>
    if beginLine <+: text.toList then
      .ok (readHeaders ((text.toList.drop beginLine.length).splitOn '\n'))
    else raise "no armor block"

/-- A library with the documented behaviour, on inputs that begin with their block. -/
def reference : Library where
  Writer := List (String × String) × Bytes
  Reader := Bytes
  withHeaders headers := .ok (headers, [])
  writeAll writer data := .ok (writer.1, writer.2 ++ data)
  finalize writer := .ok (if writer.2 = [] then [] else utf8 (block writer.1 (referenceBody writer.2)))
  fromReader input := input
  headers input := do
    let (headers, _) ← referenceRead input
    .ok (headers.map strings)
  readToEnd input := do
    let (_, rest) ← referenceRead input
    referenceDecode (['\n'].intercalate rest)
  body := referenceBody

section Digits

theorem armorDigits_cons {c : Char} (h : c ≠ '-' ∧ c ≠ '\n') (rest : List Char) :
    armorDigits (c :: rest) = c :: armorDigits rest := by
  rw [armorDigits, if_neg h.1, if_neg h.2]

/-- A group of four digits is kept, whether a line begins with it or not. -/
theorem armorDigits_wrap_four {a b c d : Char} {cs rest : List Char} (ha : a ≠ '-' ∧ a ≠ '\n' ∧ a ≠ '=')
    (hb : b ≠ '-' ∧ b ≠ '\n') (hc : c ≠ '-' ∧ c ≠ '\n') (hd : d ≠ '-' ∧ d ≠ '\n')
    (hcs : ∀ k, armorDigits (Base64.wrap 64 (4 * k) cs ++ rest) = cs) (k : ℕ) :
    armorDigits (Base64.wrap 64 (4 * k) (a :: b :: c :: d :: cs) ++ rest) = a :: b :: c :: d :: cs := by
  obtain ⟨k', front, hfront, hwrap⟩ := Base64.wrap_four 15 k a b c d cs
  have hdigits : armorDigits (a :: b :: c :: d :: (Base64.wrap 64 (4 * k') cs ++ rest)) =
      a :: b :: c :: d :: cs := by
    rw [armorDigits_cons ⟨ha.1, ha.2.1⟩, armorDigits_cons hb, armorDigits_cons hc, armorDigits_cons hd, hcs]
  rw [hwrap]
  rcases hfront with rfl | rfl
  · exact hdigits
  · rw [List.singleton_append, List.cons_append, armorDigits, if_neg (by decide), if_pos rfl,
      if_neg (by simp [ha.2.2])]
    exact hdigits

/-- The wrapped digits up to the checksum, wherever their first line began. -/
theorem armorDigits_wrap (data : Bytes) (k : ℕ) (rest : List Char) :
    armorDigits (Base64.wrap 64 (4 * k) (Base64.encode data) ++ '\n' :: '=' :: rest) =
      Base64.encode data := by
  have hpad : '=' ≠ '-' ∧ '=' ≠ '\n' := by decide
  have hend : ∀ k, armorDigits (Base64.wrap 64 (4 * k) [] ++ '\n' :: '=' :: rest) = [] := by
    intro k
    rw [Base64.wrap]
    rfl
  have hdigit : ∀ {n : ℕ}, n < 64 → Base64.digit n ≠ '-' ∧ Base64.digit n ≠ '\n' := by
    intro n h
    exact ⟨(Base64.digit_ne h).1, (Base64.digit_ne h).2.1⟩
  fun_induction Base64.encode data generalizing k with
  | case1 => exact hend k
  | case2 a =>
    have ha := a.toNat_lt
    exact armorDigits_wrap_four (Base64.digit_ne (by omega)) (hdigit (by omega)) hpad hpad hend k
  | case3 a b =>
    have ha := a.toNat_lt
    have hb := b.toNat_lt
    exact armorDigits_wrap_four (Base64.digit_ne (by omega)) (hdigit (by omega)) (hdigit (by omega)) hpad
      hend k
  | case4 a b c tail ih =>
    have ha := a.toNat_lt
    have hb := b.toNat_lt
    have hc := c.toNat_lt
    exact armorDigits_wrap_four (Base64.digit_ne (by omega)) (hdigit (by omega)) (hdigit (by omega))
      (hdigit (by omega)) ih k

theorem referenceDecode_referenceBody (data : Bytes) :
    referenceDecode (referenceBody data).toList = .ok data := by
  have hdigits := armorDigits_wrap data 16 (crc24Digits data ++ "\n-----END PGP MESSAGE-----\n".toList)
  rw [referenceDecode, referenceBody, String.toList_ofList, hdigits, Base64.decode_encode]

end Digits

theorem referenceRead_block {lines : List (List Char)} {headers : List (List Char × List Char)}
    (hlines : ∀ line ∈ lines, '\n' ∉ line)
    (h : List.Forall₂ (fun line header => readHeader line = some header) lines headers) (body : String) :
    referenceRead (utf8 (blockText lines body)) = .ok (headers, body.toList.splitOn '\n') := by
  rw [referenceRead, fromUtf8_utf8]
  dsimp only
  rw [blockText, String.toList_ofList, if_pos (List.prefix_append _ _), List.drop_left,
    splitOn_sectionText hlines, readHeaders_section h]

theorem reference_headers (input : Bytes) : reference.headers (reference.fromReader input) =
    referenceRead input >>= fun p => .ok (p.1.map strings) := rfl

theorem reference_readToEnd (input : Bytes) : reference.readToEnd (reference.fromReader input) =
    referenceRead input >>= fun p => referenceDecode (['\n'].intercalate p.2) := rfl

theorem reference_writerLaws : reference.WriterLaws where
  withHeaders_ok headers := ⟨_, rfl⟩
  writeAll_ok writer data := ⟨_, rfl⟩
  writeAll_nil writer := by
    change Except.ok (writer.1, writer.2 ++ []) = Except.ok writer
    rw [List.append_nil]
    rfl
  finalize_unwritten headers writer h := by
    cases h
    rfl
  finalize_written headers writer data writer' h hd h' := by
    cases h
    cases h'
    simp [reference, hd]

theorem reference_readerLaws : reference.ReaderLaws where
  read_block lines headers data _ hlines h := by
    have hread := referenceRead_block hlines h (referenceBody data)
    have hbody : ['\n'].intercalate ((referenceBody data).toList.splitOn '\n') =
        (referenceBody data).toList := List.intercalate_splitOn '\n'
    refine ⟨?_, ?_⟩
    · rw [reference_headers, show reference.body = referenceBody from rfl, hread, ok_bind]
    · rw [reference_readToEnd, show reference.body = referenceBody from rfl, hread, ok_bind, hbody]
      exact referenceDecode_referenceBody data
  read_nil := ⟨"no armor block", by decide⟩

end PgCrypto.Armor
