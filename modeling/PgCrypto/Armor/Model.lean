import PgCrypto.Armor.Header
import PgCrypto.Base.Utf8Check

/-! # ASCII armor

The functions check the header arrays, write a block through the library's lazy writer
and read blocks back through its reader. Writer and reader are a parameter; their
documented behaviour is stated over the text of a block and its header section.
-/
namespace PgCrypto.Armor
open Str Utf8

/-- The armor writer and reader of the OpenPGP library, for messages. `body` is no
operation: it is the text that a block with the data has after its blank line. -/
structure Library where
  Writer : Type
  Reader : Type
  withHeaders : List (String × String) → Except String Writer
  writeAll : Writer → Bytes → Except String Writer
  finalize : Writer → Except String Bytes
  fromReader : Bytes → Reader
  headers : Reader → Outcome (List (String × String))
  readToEnd : Reader → Outcome Bytes
  body : Bytes → String

/-- An array argument: its number of dimensions and its elements, which may be NULL. -/
structure TextArray where
  ndim : ℕ
  elements : List (Option String)
  deriving DecidableEq

section Checks

def nonNull (message : String) : Option String → Outcome String
  | some element => .ok element
  | none => raise message

def isAscii (s : String) : Bool := s.toList.all (fun c => c.toNat < 128)

def checkHeader (header : String × String) : Outcome (String × String) :=
  if ¬ isAscii header.1 then
    raise "armor header key must not contain non-ASCII characters"
  else if [':', ' '] <:+: header.1.toList then
    raise "armor header key must not contain ': '"
  else if '\n' ∈ header.1.toList then
    raise "armor header key must not contain newlines"
  else if ¬ isAscii header.2 then
    raise "armor header value must not contain non-ASCII characters"
  else if '\n' ∈ header.2.toList then
    raise "armor header value must not contain newlines"
  else .ok header

/-- The checks of the function with headers, up to the list of pairs. -/
def checkedHeaders (keys values : TextArray) : Outcome (List (String × String)) := do
  let keyArray ← keys.elements.mapM (nonNull "armor header keys cannot be NULL")
  let valueArray ← values.elements.mapM (nonNull "armor header values cannot be NULL")
  if keys.ndim > 1 ∨ keys.ndim ≠ values.ndim then
    raise "wrong number of armor header array subscripts"
  else if keyArray.length ≠ valueArray.length then
    raise "armor header arrays have mismatched dimensions"
  else (keyArray.zip valueArray).mapM checkHeader

end Checks

variable (L : Library)

def encodeArmor (data : Bytes) (headers : List (String × String)) : Outcome String := do
  let writer ← orRaise "could not initialize ASCII armor" (L.withHeaders headers)
  let writer ← orRaise "could not encode ASCII armor" (L.writeAll writer data)
  let output ← orRaise "could not finalize ASCII armor" (L.finalize writer)
  orRaise "ASCII armor was not UTF-8" (stringFromUtf8 output)

def armor (data : Bytes) : Outcome String := encodeArmor L data []

def armorWithHeaders (data : Bytes) (keys values : TextArray) : Outcome String := do
  let headers ← checkedHeaders keys values
  encodeArmor L data headers

def dearmor (data : String) : Outcome Bytes :=
  orUnwind "invalid ASCII armor" (L.readToEnd (L.fromReader (utf8 data)))

def pgpArmorHeaders (data : String) : Outcome (List (String × String)) :=
  orUnwind "invalid ASCII armor" (L.headers (L.fromReader (utf8 data)))

section Laws

def beginLine : List Char := "-----BEGIN PGP MESSAGE-----\n".toList

def chars (header : String × String) : List Char × List Char := (header.1.toList, header.2.toList)
def strings (header : List Char × List Char) : String × String :=
  (String.ofList header.1, String.ofList header.2)

/-- The text of a block with these lines in its header section. -/
def blockText (lines : List (List Char)) (body : String) : String :=
  String.ofList (beginLine ++ (sectionText lines ++ '\n' :: body.toList))

def block (headers : List (String × String)) (body : String) : String :=
  blockText ((headers.map chars).map headerLine) body

/-- The writer on a buffer never fails and emits the block at its first write; an empty
slice is no write, and without a write nothing is emitted. -/
structure Library.WriterLaws : Prop where
  withHeaders_ok : ∀ headers, ∃ writer, L.withHeaders headers = .ok writer
  writeAll_ok : ∀ writer data, ∃ writer', L.writeAll writer data = .ok writer'
  writeAll_nil : ∀ writer, L.writeAll writer [] = .ok writer
  finalize_unwritten : ∀ headers writer, L.withHeaders headers = .ok writer → L.finalize writer = .ok []
  finalize_written : ∀ headers writer data writer', L.withHeaders headers = .ok writer → data ≠ [] →
    L.writeAll writer data = .ok writer' →
      L.finalize writer' = .ok (utf8 (block headers (L.body data)))

/-- From a block whose section has only header lines the reader takes their headers, and the
data that the writer's body stands for. An empty input has no block, and reading it fails. -/
structure Library.ReaderLaws : Prop where
  read_block : ∀ lines headers data, data ≠ [] → (∀ line ∈ lines, '\n' ∉ line) →
    List.Forall₂ (fun line header => readHeader line = some header) lines headers →
      L.headers (L.fromReader (utf8 (blockText lines (L.body data)))) = .ok (headers.map strings) ∧
      L.readToEnd (L.fromReader (utf8 (blockText lines (L.body data)))) = .ok data
  read_nil : ∃ e, L.readToEnd (L.fromReader []) = .error (.error e)

end Laws

end PgCrypto.Armor
