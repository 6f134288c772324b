import PgCrypto.Armor.RoundTrip

/-! # The lines of an armored text

The checks of the header arrays are exactly what keeps the header section a section of
header lines: an armored text has its first line, one line for each pair, a blank line and
the lines of its body, so no key or value can end the section or add to it.
-/
namespace PgCrypto.Armor
open Str Utf8
variable {L : Library}

structure HeaderOk (header : String × String) : Prop where
  key_ascii : isAscii header.1 = true
  key_separator : ¬ [':', ' '] <:+: header.1.toList
  key_newline : '\n' ∉ header.1.toList
  value_ascii : isAscii header.2 = true
  value_newline : '\n' ∉ header.2.toList

/-- The arrays have one dimension or are both empty, no element is NULL, and their
elements pair up to pairs that pass the checks. -/
structure ArraysOk (keys values : TextArray) (headers : List (String × String)) : Prop where
  elements : ∃ ks vs : List String, keys.elements = ks.map some ∧ values.elements = vs.map some ∧
    ks.length = vs.length ∧ headers = ks.zip vs
  ndim_le : keys.ndim ≤ 1
  ndim_eq : keys.ndim = values.ndim
  headers_ok : ∀ header ∈ headers, HeaderOk header

section Checks

theorem checkHeader_eq_ok_iff {header result : String × String} :
    checkHeader header = .ok result ↔ result = header ∧ HeaderOk header := by
  constructor
  · intro h
    obtain ⟨rfl, -⟩ := checkHeader_eq_ok h
    refine ⟨rfl, ?_⟩
    unfold checkHeader at h
    split at h
    · simp at h
    · next hkey =>
      split at h
      · simp at h
      · next hseparator =>
        split at h
        · simp at h
        · next hnewline =>
          split at h
          · simp at h
          · next hvalue =>
            split at h
            · simp at h
            · next hend => exact ⟨not_not.mp hkey, hseparator, hnewline, not_not.mp hvalue, hend⟩
  · rintro ⟨rfl, h⟩
    rw [checkHeader, if_neg (not_not.mpr h.key_ascii), if_neg h.key_separator, if_neg h.key_newline,
      if_neg (not_not.mpr h.value_ascii), if_neg h.value_newline]

theorem mapM_checkHeader_eq_ok_iff {pairs headers : List (String × String)} :
    pairs.mapM checkHeader = .ok headers ↔ headers = pairs ∧ ∀ header ∈ pairs, HeaderOk header := by
  rw [mapM_eq_ok]
  simp only [checkHeader_eq_ok_iff]
  constructor
  · intro h
    induction h with
    | nil => simp
    | cons hfirst _ ih =>
      obtain ⟨rfl, hok⟩ := hfirst
      obtain ⟨rfl, hrest⟩ := ih
      exact ⟨rfl, List.forall_mem_cons.mpr ⟨hok, hrest⟩⟩
  · rintro ⟨rfl, h⟩
    exact List.forall₂_same.mpr (fun header hheader => ⟨rfl, h header hheader⟩)

theorem mapM_nonNull_of_some (message : String) (strs : List String) :
    (strs.map some).mapM (nonNull message) = .ok strs := by
  rw [mapM_eq_ok, List.forall₂_map_left_iff]
  exact List.forall₂_same.mpr (fun _ _ => rfl)

theorem checkedHeaders_eq_ok_iff {keys values : TextArray} {headers : List (String × String)} :
    checkedHeaders keys values = .ok headers ↔ ArraysOk keys values headers := by
  constructor
  · intro h
    obtain ⟨ks, vs, hk, hv, hlength, hheaders, -⟩ := checkedHeaders_eq_ok h
    rw [checkedHeaders, hk, hv, mapM_nonNull_of_some, ok_bind, mapM_nonNull_of_some, ok_bind] at h
    split at h
    · simp at h
    · next hndim =>
      rw [if_neg (not_not.mpr hlength)] at h
      rw [not_or, not_not, Nat.not_lt] at hndim
      obtain ⟨rfl, hok⟩ := mapM_checkHeader_eq_ok_iff.mp h
      exact ⟨⟨ks, vs, hk, hv, hlength, rfl⟩, hndim.1, hndim.2, hok⟩
  · rintro ⟨⟨ks, vs, hk, hv, hlength, rfl⟩, hle, heq, hok⟩
    rw [checkedHeaders, hk, hv, mapM_nonNull_of_some, ok_bind, mapM_nonNull_of_some, ok_bind,
      if_neg (by omega), if_neg (not_not.mpr hlength)]
    exact mapM_checkHeader_eq_ok_iff.mpr ⟨rfl, hok⟩

end Checks

section Lines

def blockLines (headers : List (String × String)) (body : String) : List (List Char) :=
  "-----BEGIN PGP MESSAGE-----".toList :: ((headers.map chars).map headerLine ++
    [] :: body.toList.splitOn '\n')

theorem splitOn_block {headers : List (String × String)} (h : ∀ header ∈ headers, HeaderOk header)
    (body : String) : (block headers body).toList.splitOn '\n' = blockLines headers body := by
  have hline : '\n' ∉ "-----BEGIN PGP MESSAGE-----".toList := by decide
  have hbegin : beginLine = "-----BEGIN PGP MESSAGE-----".toList ++ ['\n'] := by decide
  have haccepted : ∀ header ∈ headers, Accepted header := by
    intro header hheader
    have hok := h header hheader
    exact ⟨hok.key_separator, hok.key_newline, hok.value_newline⟩
  rw [block, blockText, String.toList_ofList, hbegin, List.append_assoc, List.singleton_append,
    List.splitOn_append_cons_self_of_not_mem hline,
    splitOn_sectionText (newline_notMem_headerLine haccepted)]
  rfl

theorem eq_block_of_lines {headers : List (String × String)} (h : ∀ header ∈ headers, HeaderOk header)
    {body text : String} (hlines : text.toList.splitOn '\n' = blockLines headers body) :
    text = block headers body := by
  rw [← splitOn_block h] at hlines
  apply String.toList_injective
  calc text.toList = ['\n'].intercalate (text.toList.splitOn '\n') := (List.intercalate_splitOn '\n').symm
    _ = ['\n'].intercalate ((block headers body).toList.splitOn '\n') := by rw [hlines]
    _ = (block headers body).toList := List.intercalate_splitOn '\n'

end Lines

/-- Armor with headers returns exactly on arrays that pass the checks, and what it returns
is the text with one header line for each pair: the number of lines before the blank one
tells the number of pairs, whatever keys and values contain. -/
theorem armorWithHeaders_lines (L : Library) (hW : L.WriterLaws) (data : Bytes) (hd : data ≠ [])
    (keys values : TextArray) (text : String) :
    armorWithHeaders L data keys values = .ok text ↔
      ∃ headers, ArraysOk keys values headers ∧
        text.toList.splitOn '\n' = blockLines headers (L.body data) := by
  rw [armorWithHeaders, bind_eq_ok]
  constructor
  · rintro ⟨headers, hchecked, htext⟩
    have hok := checkedHeaders_eq_ok_iff.mp hchecked
    rw [encodeArmor_block hW hd] at htext
    cases htext
    exact ⟨headers, hok, splitOn_block hok.headers_ok _⟩
  · rintro ⟨headers, hok, hlines⟩
    refine ⟨headers, checkedHeaders_eq_ok_iff.mpr hok, ?_⟩
    rw [encodeArmor_block hW hd, eq_block_of_lines hok.headers_ok hlines]

/-- A value with a CR and a colon stays on its line. -/
theorem armorWithHeaders_lines_smoke : ∃ text,
    armorWithHeaders reference [0x00, 0x01, 0x02, 0xff] ⟨1, [some "Comment"]⟩
      ⟨1, [some "smoke\r: Hash: none"]⟩ = .ok text ∧
    (text.toList.splitOn '\n').take 3 = ["-----BEGIN PGP MESSAGE-----".toList,
      "Comment: smoke\r: Hash: none".toList, []] := by
  have hchecked : checkedHeaders ⟨1, [some "Comment"]⟩ ⟨1, [some "smoke\r: Hash: none"]⟩ =
      .ok [("Comment", "smoke\r: Hash: none")] := by rfl
  have htext : armorWithHeaders reference [0x00, 0x01, 0x02, 0xff] ⟨1, [some "Comment"]⟩
      ⟨1, [some "smoke\r: Hash: none"]⟩ = .ok (block [("Comment", "smoke\r: Hash: none")]
        (referenceBody [0x00, 0x01, 0x02, 0xff])) := by
    rw [armorWithHeaders, hchecked, ok_bind, encodeArmor_block reference_writerLaws (by decide)]
    rfl
  obtain ⟨headers, hok, hlines⟩ :=
    (armorWithHeaders_lines reference reference_writerLaws _ (by decide) _ _ _).mp htext
  refine ⟨_, htext, ?_⟩
  have hheaders : headers = [("Comment", "smoke\r: Hash: none")] := by
    have hagain := checkedHeaders_eq_ok_iff.mpr hok
    rw [hchecked] at hagain
    exact (Except.ok.inj hagain).symm
  rw [hlines, hheaders]
  rfl

end PgCrypto.Armor
