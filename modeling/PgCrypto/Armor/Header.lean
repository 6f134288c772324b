import Mathlib.Data.List.Forall2
import Mathlib.Data.List.Infix
import PgCrypto.Base.Str

/-! # The header section of an armor block

Header lines stand between the first line of a block and a blank line. A reader takes
lines up to the blank one, drops the CR before a line feed, splits a line at its first
colon and space, and drops white space before the key. A line that is neither blank nor a
header is passed over, except for the first one, which is taken for the body of a block
without a section.
-/
namespace PgCrypto.Armor
open Str

def stripCr (line : List Char) : List Char :=
  if line.getLast? = some '\r' then line.dropLast else line

/-- A line cut at its first `": "`. -/
def splitHeader : List Char → Option (List Char × List Char)
  | [] => none
  | [_] => none
  | c :: d :: rest =>
    if c = ':' ∧ d = ' ' then some ([], rest)
    else (splitHeader (d :: rest)).map (fun p => (c :: p.1, p.2))

def readHeader (line : List Char) : Option (List Char × List Char) :=
  (splitHeader (stripCr line)).map (fun p => (trimStart p.1, p.2))

def isBlank (line : List Char) : Bool := (trimStart (stripCr line)).isEmpty

/-- The loop after the first line. -/
def readLines : List (List Char) → List (List Char × List Char) × List (List Char)
  | [] => ([], [])
  | line :: rest =>
    match readHeader line with
    | some header => (header :: (readLines rest).1, (readLines rest).2)
    | none => if isBlank line then ([], rest) else readLines rest

/-- The headers of the section, and the lines after the blank one. -/
def readHeaders : List (List Char) → List (List Char × List Char) × List (List Char)
  | [] => ([], [])
  | line :: rest =>
    if (readHeader line).isNone ∧ ¬ isBlank line then ([], line :: rest) else readLines (line :: rest)

def headerLine (header : List Char × List Char) : List Char := header.1 ++ ':' :: ' ' :: header.2

/-- What is left of a header when its line is read back. -/
def reread (header : List Char × List Char) : List Char × List Char :=
  (trimStart header.1, stripCr header.2)

def sectionText (lines : List (List Char)) : List Char := lines.flatMap (fun line => line ++ ['\n'])

theorem splitHeader_headerLine {key : List Char} (value : List Char) (h : ¬ [':', ' '] <:+: key) :
    splitHeader (headerLine (key, value)) = some (key, value) := by
  -- A key that ends in a colon is no exception: the separator's own colon comes after it.
  induction key with
  | nil => simp [headerLine, splitHeader]
  | cons c key ih =>
    have hrest : ¬ [':', ' '] <:+: key := by
      intro hi
      exact h (hi.trans (List.suffix_cons c key).isInfix)
    have hsplit := ih hrest
    cases key with
    | nil => simp [headerLine, splitHeader]
    | cons d key =>
      have hcd : ¬ (c = ':' ∧ d = ' ') := by
        rintro ⟨rfl, rfl⟩
        exact h ⟨[], key, rfl⟩
      simp only [headerLine, List.cons_append] at hsplit ⊢
      rw [splitHeader, if_neg hcd, hsplit]
      rfl

theorem stripCr_concat (line : List Char) (c : Char) :
    stripCr (line ++ [c]) = if c = '\r' then line else line ++ [c] := by
  rw [stripCr, List.getLast?_concat, List.dropLast_concat]
  simp only [Option.some.injEq]

theorem stripCr_headerLine (header : List Char × List Char) :
    stripCr (headerLine header) = headerLine (header.1, stripCr header.2) := by
  obtain ⟨key, value⟩ := header
  cases value using List.reverseRecOn with
  | nil =>
    have hline : headerLine (key, []) = (key ++ [':']) ++ [' '] := by simp [headerLine]
    rw [hline, stripCr_concat, if_neg (by decide), ← hline]
    rfl
  | append_singleton value c =>
    have hline : headerLine (key, value ++ [c]) = headerLine (key, value) ++ [c] := by
      simp [headerLine]
    rw [hline, stripCr_concat, stripCr_concat]
    split
    · rfl
    · exact hline.symm

theorem readHeader_headerLine {header : List Char × List Char} (h : ¬ [':', ' '] <:+: header.1) :
    readHeader (headerLine header) = some (reread header) := by
  rw [readHeader, stripCr_headerLine, splitHeader_headerLine _ h]
  rfl

/-- Reading a section of header lines stops at the blank line after them. -/
theorem readHeaders_section {lines : List (List Char)} {headers : List (List Char × List Char)}
    (h : List.Forall₂ (fun line header => readHeader line = some header) lines headers)
    (rest : List (List Char)) : readHeaders (lines ++ [] :: rest) = (headers, rest) := by
  have hlines : readLines (lines ++ [] :: rest) = (headers, rest) := by
    induction h with
    | nil => rfl
    | cons hline _ ih =>
      rw [List.cons_append, readLines, hline]
      dsimp only
      rw [ih]
  cases h with
  | nil => rfl
  | cons hline _ =>
    rw [List.cons_append, readHeaders, if_neg (by simp [hline])]
    exact hlines

theorem splitOn_sectionText {lines : List (List Char)} (h : ∀ line ∈ lines, '\n' ∉ line)
    (body : List Char) :
    (sectionText lines ++ '\n' :: body).splitOn '\n' = lines ++ [] :: body.splitOn '\n' := by
  induction lines with
  | nil => exact List.splitOn_append_cons_self_of_not_mem (List.not_mem_nil : '\n' ∉ ([] : List Char)) body
  | cons line lines ih =>
    rw [List.forall_mem_cons] at h
    have htext : sectionText (line :: lines) ++ '\n' :: body =
        line ++ '\n' :: (sectionText lines ++ '\n' :: body) := by simp [sectionText]
    rw [htext, List.splitOn_append_cons_self_of_not_mem h.1, ih h.2]
    rfl

end PgCrypto.Armor
