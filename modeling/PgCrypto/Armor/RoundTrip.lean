import PgCrypto.Armor.Reference

/-! # Round trips of ASCII armor

A block is read back to its body whatever the accepted headers are, since no accepted
header line is blank and none splits at another place than it was joined. An empty
body gives no block at all. Of the headers, white space before a key and one CR after
a value are lost.
-/
namespace PgCrypto.Armor
open Str Utf8
variable {L : Library}

section Accepted

/-- What the checks guarantee of a pair. -/
structure Accepted (header : String × String) : Prop where
  key_separator : ¬ [':', ' '] <:+: header.1.toList
  key_newline : '\n' ∉ header.1.toList
  value_newline : '\n' ∉ header.2.toList

theorem checkHeader_eq_ok {header result : String × String} (h : checkHeader header = .ok result) :
    result = header ∧ Accepted header := by
  unfold checkHeader at h
  split at h
  · simp at h
  · split at h
    · simp at h
    · next hsep =>
      split at h
      · simp at h
      · next hkey =>
        split at h
        · simp at h
        · split at h
          · simp at h
          · next hvalue =>
            cases h
            exact ⟨rfl, hsep, hkey, hvalue⟩

theorem mapM_checkHeader_eq_ok {pairs headers : List (String × String)}
    (h : pairs.mapM checkHeader = .ok headers) : headers = pairs ∧ ∀ header ∈ pairs, Accepted header := by
  have hall := mapM_eq_ok.mp h
  clear h
  induction hall with
  | nil => simp
  | cons hfirst _ ih =>
    obtain ⟨rfl, hacc⟩ := checkHeader_eq_ok hfirst
    obtain ⟨rfl, hrest⟩ := ih
    refine ⟨rfl, ?_⟩
    intro header hh
    rcases List.mem_cons.mp hh with rfl | hh
    · exact hacc
    · exact hrest header hh

theorem mapM_nonNull_eq_ok {message : String} {elements : List (Option String)} {strs : List String}
    (h : elements.mapM (nonNull message) = .ok strs) : elements = strs.map some := by
  have hall := mapM_eq_ok.mp h
  clear h
  induction hall with
  | nil => rfl
  | @cons element _ _ _ hfirst _ ih =>
    cases element with
    | none => simp [nonNull] at hfirst
    | some t =>
      cases hfirst
      rw [ih, List.map_cons]

/-- Accepted arrays give the pairs of their elements, all of them accepted. -/
theorem checkedHeaders_eq_ok {keys values : TextArray} {headers : List (String × String)}
    (h : checkedHeaders keys values = .ok headers) :
    ∃ ks vs : List String, keys.elements = ks.map some ∧ values.elements = vs.map some ∧
      ks.length = vs.length ∧
      headers = ks.zip vs ∧ ∀ header ∈ headers, Accepted header := by
  unfold checkedHeaders at h
  obtain ⟨ks, hks, h⟩ := bind_eq_ok.mp h
  obtain ⟨vs, hvs, h⟩ := bind_eq_ok.mp h
  split at h
  · simp at h
  · split at h
    · simp at h
    · next hlen =>
      obtain ⟨rfl, hall⟩ := mapM_checkHeader_eq_ok h
      exact ⟨ks, vs, mapM_nonNull_eq_ok hks, mapM_nonNull_eq_ok hvs, by simpa using hlen, rfl, hall⟩

end Accepted

section Writing

theorem encodeArmor_nil (hW : L.WriterLaws) (headers : List (String × String)) :
    encodeArmor L [] headers = .ok "" := by
  obtain ⟨writer, hw⟩ := hW.withHeaders_ok headers
  have hfinal := hW.finalize_unwritten headers writer hw
  have hempty : stringFromUtf8 [] = .ok "" := stringFromUtf8_utf8 ""
  rw [encodeArmor, hw, orRaise_ok, ok_bind, hW.writeAll_nil, orRaise_ok, ok_bind, hfinal, orRaise_ok,
    ok_bind, hempty, orRaise_ok]

theorem encodeArmor_block (hW : L.WriterLaws) {data : Bytes} (hd : data ≠ [])
    (headers : List (String × String)) :
    encodeArmor L data headers = .ok (block headers (L.body data)) := by
  obtain ⟨writer, hw⟩ := hW.withHeaders_ok headers
  obtain ⟨writer', hw'⟩ := hW.writeAll_ok writer data
  have hfinal := hW.finalize_written headers writer data writer' hw hd hw'
  rw [encodeArmor, hw, orRaise_ok, ok_bind, hw', orRaise_ok, ok_bind, hfinal, orRaise_ok, ok_bind,
    stringFromUtf8_utf8, orRaise_ok]

end Writing

section Reading

/-- The lines of the section do not end early. -/
theorem newline_notMem_headerLine {headers : List (String × String)}
    (h : ∀ header ∈ headers, Accepted header) :
    ∀ line ∈ (headers.map chars).map headerLine, '\n' ∉ line := by
  intro line hline
  rw [List.map_map] at hline
  obtain ⟨header, hheader, rfl⟩ := List.mem_map.mp hline
  have hacc := h header hheader
  simp [headerLine, chars, hacc.key_newline, hacc.value_newline]

theorem forall₂_readHeader {headers : List (String × String)} (h : ∀ header ∈ headers, Accepted header) :
    List.Forall₂ (fun line header => readHeader line = some header) ((headers.map chars).map headerLine)
      ((headers.map chars).map reread) := by
  rw [List.forall₂_map_left_iff, List.forall₂_map_right_iff, List.forall₂_map_left_iff,
    List.forall₂_map_right_iff]
  exact List.forall₂_same.mpr (fun header hheader => readHeader_headerLine (h header hheader).key_separator)

/-- A block with accepted headers gives its data back, and the headers as reread. -/
theorem read_accepted (hR : L.ReaderLaws) {data : Bytes} (hd : data ≠ []) {headers : List (String × String)}
    (h : ∀ header ∈ headers, Accepted header) :
    pgpArmorHeaders L (block headers (L.body data)) =
        .ok (headers.map (fun header => strings (reread (chars header)))) ∧
      dearmor L (block headers (L.body data)) = .ok data := by
  obtain ⟨hheaders, hdata⟩ :=
    hR.read_block _ _ data hd (newline_notMem_headerLine h) (forall₂_readHeader h)
  refine ⟨?_, ?_⟩
  · rw [pgpArmorHeaders, block, hheaders, orUnwind_ok, List.map_map, List.map_map]
    rfl
  · rw [dearmor, block, hdata, orUnwind_ok]

theorem dearmor_empty (hR : L.ReaderLaws) : ∃ e, dearmor L "" = .error e := by
  obtain ⟨e, he⟩ := hR.read_nil
  have hutf8 : utf8 "" = [] := by decide
  exact ⟨_, by rw [dearmor, hutf8, he]; rfl⟩

end Reading

/-- The body comes back exactly when it is not empty, with or without headers. -/
theorem dearmor_encodeArmor_iff (hW : L.WriterLaws) (hR : L.ReaderLaws) (data : Bytes)
    {headers : List (String × String)} (h : ∀ header ∈ headers, Accepted header) :
    (encodeArmor L data headers >>= dearmor L) = .ok data ↔ data ≠ [] := by
  constructor
  · rintro hround rfl
    obtain ⟨e, he⟩ := dearmor_empty hR
    rw [encodeArmor_nil hW, ok_bind, he] at hround
    cases hround
  · intro hd
    rw [encodeArmor_block hW hd, ok_bind]
    exact (read_accepted hR hd h).2

/-- Dearmoring gives the armored data back exactly when the data is not empty, for all
header arrays the function accepts. -/
theorem dearmor_armor_iff (L : Library) (hW : L.WriterLaws) (hR : L.ReaderLaws) (data : Bytes) :
    ((armor L data >>= dearmor L) = .ok data ↔ data ≠ []) ∧
    ∀ keys values headers, checkedHeaders keys values = .ok headers →
      ((armorWithHeaders L data keys values >>= dearmor L) = .ok data ↔ data ≠ []) := by
  refine ⟨dearmor_encodeArmor_iff hW hR data (by simp), ?_⟩
  intro keys values headers hheaders
  obtain ⟨_, _, -, -, -, -, hall⟩ := checkedHeaders_eq_ok hheaders
  rw [armorWithHeaders, hheaders, ok_bind]
  exact dearmor_encodeArmor_iff hW hR data hall

theorem dearmor_armor_smoke :
    armor reference [0x00, 0x01, 0x02, 0xff] =
        .ok "-----BEGIN PGP MESSAGE-----\n\nAAEC/w==\n=ZcuM\n-----END PGP MESSAGE-----\n" ∧
      (armor reference [0x00, 0x01, 0x02, 0xff] >>= dearmor reference) = .ok [0x00, 0x01, 0x02, 0xff] ∧
      (armorWithHeaders reference [0x00, 0x01, 0x02, 0xff] ⟨1, [some "Comment", some "Version"]⟩
        ⟨1, [some "pg_crypto smoke", some "1"]⟩ >>= dearmor reference) = .ok [0x00, 0x01, 0x02, 0xff] := by
  have h := dearmor_armor_iff reference reference_writerLaws reference_readerLaws [0x00, 0x01, 0x02, 0xff]
  have hchecked : checkedHeaders ⟨1, [some "Comment", some "Version"]⟩
      ⟨1, [some "pg_crypto smoke", some "1"]⟩ =
        .ok [("Comment", "pg_crypto smoke"), ("Version", "1")] := by rfl
  exact ⟨by rfl, h.1.mpr (by decide), (h.2 _ _ _ hchecked).mpr (by decide)⟩

/-- Empty data is armored to empty text, which is no armor. -/
theorem dearmor_armor_empty : armor reference [] = .ok "" ∧ (∃ e, dearmor reference "" = .error e) ∧
    ¬ ∀ data, (armor reference data >>= dearmor reference) = .ok data := by
  have harmor : armor reference [] = .ok "" := encodeArmor_nil reference_writerLaws []
  obtain ⟨e, he⟩ := dearmor_empty reference_readerLaws
  refine ⟨harmor, ⟨e, he⟩, ?_⟩
  intro hall
  have hempty := hall []
  rw [harmor, ok_bind, he] at hempty
  cases hempty

section Headers

theorem trimStart_eq_self_iff {key : List Char} :
    trimStart key = key ↔ ∀ c, key.head? = some c → isWhitespace c = false := by
  cases key with
  | nil => simp [trimStart]
  | cons c key =>
    cases hc : isWhitespace c with
    | false => simp [trimStart, hc]
    | true =>
      have hne : trimStart (c :: key) ≠ c :: key := by
        intro he
        have hlen := congrArg List.length he
        have hle := List.length_dropWhile_le isWhitespace key
        simp only [trimStart, List.dropWhile_cons_of_pos hc, List.length_cons] at hlen
        omega
      simp [hne, hc]

theorem stripCr_eq_self_iff {value : List Char} : stripCr value = value ↔ value.getLast? ≠ some '\r' := by
  cases value using List.reverseRecOn with
  | nil => simp [stripCr]
  | append_singleton value c =>
    rw [stripCr_concat, List.getLast?_concat]
    by_cases hc : c = '\r'
    · simp [hc]
    · simp [hc]

/-- A header survives exactly when there is nothing to trim. -/
theorem strings_reread_eq_iff {header : String × String} :
    strings (reread (chars header)) = header ↔
      (∀ c, header.1.toList.head? = some c → isWhitespace c = false) ∧
        header.2.toList.getLast? ≠ some '\r' := by
  rw [← trimStart_eq_self_iff, ← stripCr_eq_self_iff, Prod.ext_iff]
  simp only [strings, reread, chars, ← String.toList_inj, String.toList_ofList]

end Headers

theorem pgpArmorHeaders_armorWithHeaders (hW : L.WriterLaws) (hR : L.ReaderLaws) {data : Bytes}
    (hd : data ≠ []) {keys values : TextArray} {headers : List (String × String)}
    (h : checkedHeaders keys values = .ok headers) :
    (armorWithHeaders L data keys values >>= pgpArmorHeaders L) =
      .ok (headers.map (fun header => strings (reread (chars header)))) := by
  obtain ⟨_, _, -, -, -, -, hall⟩ := checkedHeaders_eq_ok h
  rw [armorWithHeaders, h, ok_bind, encodeArmor_block hW hd, ok_bind]
  exact (read_accepted hR hd hall).1

/-- The headers read from a block are the pairs it was made with, one for one and in
order, each without the white space before its key and one CR after its value; so they
are those pairs exactly when no key starts with white space and no value ends in CR. -/
theorem pgpArmorHeaders_armor_iff (L : Library) (hW : L.WriterLaws) (hR : L.ReaderLaws) (data : Bytes)
    (hd : data ≠ []) (keys values : TextArray) (ks vs : List String) (hk : keys.elements = ks.map some)
    (hv : values.elements = vs.map some) (headers : List (String × String))
    (h : checkedHeaders keys values = .ok headers) :
    (armorWithHeaders L data keys values >>= pgpArmorHeaders L) =
        .ok ((ks.zip vs).map (fun header => strings (reread (chars header)))) ∧
      ((armorWithHeaders L data keys values >>= pgpArmorHeaders L) = .ok (ks.zip vs) ↔
        ∀ header ∈ ks.zip vs, (∀ c, header.1.toList.head? = some c → isWhitespace c = false) ∧
          header.2.toList.getLast? ≠ some '\r') := by
  have hread := pgpArmorHeaders_armorWithHeaders hW hR hd h
  obtain ⟨ks', vs', hk', hv', -, rfl, -⟩ := checkedHeaders_eq_ok h
  have hsome : Function.Injective (List.map (some : String → Option String)) :=
    List.map_injective_iff.mpr fun _ _ he => Option.some.inj he
  have hks : ks' = ks := hsome (hk'.symm.trans hk)
  have hvs : vs' = vs := hsome (hv'.symm.trans hv)
  rw [hks, hvs] at hread
  refine ⟨hread, ?_⟩
  have hmap : (ks.zip vs).map (fun header => strings (reread (chars header))) = ks.zip vs ↔
      ∀ header ∈ ks.zip vs, strings (reread (chars header)) = header := by
    have hid : (ks.zip vs).map (fun header => header) = ks.zip vs := List.map_id' _
    rw [← List.map_inj_left, hid]
  rw [hread, Except.ok.injEq, hmap]
  simp only [strings_reread_eq_iff]

theorem pgpArmorHeaders_armor_smoke :
    (armorWithHeaders reference [0x00, 0x01, 0x02, 0xff] ⟨1, [some "Comment", some "Version"]⟩
      ⟨1, [some "pg_crypto smoke", some "1"]⟩ >>= pgpArmorHeaders reference) =
        .ok [("Comment", "pg_crypto smoke"), ("Version", "1")] := by
  have h := pgpArmorHeaders_armor_iff reference reference_writerLaws reference_readerLaws
    [0x00, 0x01, 0x02, 0xff] (by decide) ⟨1, [some "Comment", some "Version"]⟩
    ⟨1, [some "pg_crypto smoke", some "1"]⟩
    ["Comment", "Version"] ["pg_crypto smoke", "1"] rfl rfl _ (by rfl)
  refine h.2.mpr ?_
  intro header hheader
  rcases List.mem_pair.mp (show header ∈ [_, _] from hheader) with rfl | rfl
  · refine ⟨?_, by decide⟩
    rintro c ⟨⟩
    decide
  · refine ⟨?_, by decide⟩
    rintro c ⟨⟩
    decide

/-- A space before the key and a CR after the value pass the checks and are lost. -/
theorem pgpArmorHeaders_armor_trimmed :
    checkedHeaders ⟨1, [some " Comment"]⟩ ⟨1, [some "smoke\r"]⟩ = .ok [(" Comment", "smoke\r")] ∧
      (armorWithHeaders reference [0x00, 0x01, 0x02, 0xff] ⟨1, [some " Comment"]⟩
        ⟨1, [some "smoke\r"]⟩ >>= pgpArmorHeaders reference) = .ok [("Comment", "smoke")] ∧
      [("Comment", "smoke")] ≠ [(" Comment", "smoke\r")] := by
  have hchecked : checkedHeaders ⟨1, [some " Comment"]⟩ ⟨1, [some "smoke\r"]⟩ =
      .ok [(" Comment", "smoke\r")] := by rfl
  have hread := pgpArmorHeaders_armorWithHeaders reference_writerLaws reference_readerLaws
    (show ([0x00, 0x01, 0x02, 0xff] : Bytes) ≠ [] by decide) hchecked
  exact ⟨hchecked, hread.trans (by rfl), by decide⟩

end PgCrypto.Armor
