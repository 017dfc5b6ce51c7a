import Bytewalk.Program.Basic
import Bytewalk.Proofs.Code.Grammar

/-!
# The format of programs

Which images are programs. The header says where the code ends, and behind the code stand records
of names. Since every byte past the end is read as zero, the last record may be cut off: up to four
bytes of its symbol may be missing if they are zero, and, where the name is empty, bytes of its
length as well. `Spells` says which bytes are taken for which records; it is read off the records
in one direction and off the reader in the other.
-/

namespace Bytewalk

/-! ## Ends of images -/

/-- From the offset on there are the bytes and nothing else, but for zeros that are missing. -/
def Image.Ends (image : Image) (p missing : Nat) (bytes : List UInt8) : Prop :=
  image.toList.drop p ++ List.replicate missing 0 = bytes

namespace Image

variable {image : Image} {p q missing : Nat} {before bytes after : List UInt8}

namespace Ends

theorem length_eq (h : image.Ends p missing bytes) :
    bytes.length = image.remaining p + missing := by
  rw [← h, List.length_append, List.length_replicate, List.length_drop, Array.length_toList,
    remaining]

/-- The bytes are read, those that are missing as well. -/
theorem bytesAt (h : image.Ends p missing (before ++ bytes ++ after)) :
    image.bytesAt (p + before.length) bytes.length = bytes := by
  refine List.ext_getElem (by simp) fun k hk hk' => ?_
  have hbyte : (before ++ bytes ++ after)[before.length + k]? = some bytes[k] := by
    rw [List.append_assoc, List.getElem?_append_right (Nat.le_add_right _ k),
      Nat.add_sub_cancel_left, List.getElem?_append_left hk', List.getElem?_eq_getElem hk']
  rw [← h] at hbyte
  have hread : (image.bytesAt (p + before.length) bytes.length)[k] =
      image.byteAt (p + (before.length + k)) := by
    simp [Image.bytesAt, Nat.add_assoc]
  rw [hread, byteAt, Array.getD_eq_getD_getElem?, ← Array.getElem?_toList, ← List.getElem?_drop]
  -- What is missing would be a zero, and that is what is read past the end.
  by_cases hlt : before.length + k < (image.toList.drop p).length
  · rw [List.getElem?_append_left hlt] at hbyte
    rw [hbyte]
    rfl
  · have hpast := Nat.not_lt.1 hlt
    rw [List.getElem?_append_right hpast] at hbyte
    obtain ⟨hmissing, hzero⟩ := List.getElem?_eq_some_iff.1 hbyte
    rw [List.getElem?_eq_none hpast, ← hzero, List.getElem_replicate]
    rfl

/-- What is in front of all that is missing is there. -/
theorem holds (h : image.Ends p missing (before ++ bytes ++ after))
    (hle : missing ≤ after.length) : image.Holds (p + before.length) bytes := by
  have hthere : image.Holds p (before ++ bytes) := by
    have hwhole : before ++ bytes <+: before ++ bytes ++ after := List.prefix_append _ _
    refine List.prefix_of_prefix_length_le hwhole ?_ ?_
    · rw [← h]
      exact List.prefix_append _ _
    · have hlength := h.length_eq
      rw [List.length_append, remaining] at hlength
      simp only [List.length_drop, Array.length_toList]
      omega
  exact hthere.right

/-- Behind some bytes the others end the image, if nothing in front of them is missing. -/
theorem behind (h : image.Ends p missing (bytes ++ after)) (hle : missing ≤ after.length) :
    image.Ends (p + bytes.length) missing after := by
  have hthere : image.Holds p bytes := @holds image p missing [] bytes after h hle
  obtain ⟨rest, hrest⟩ := hthere
  rw [Ends, ← hrest, List.append_assoc] at h
  rw [Ends, ← List.drop_drop, ← hrest, List.drop_left]
  exact List.append_cancel_left h

/-- Bytes that are read in front of an end end the image with it. -/
theorem bytesAt_append (h : image.Ends q missing bytes) (hpq : p ≤ q) (hq : q ≤ image.size) :
    image.Ends p missing (image.bytesAt p (q - p) ++ bytes) := by
  have hsplit : image.toList.drop p = image.bytesAt p (q - p) ++ image.toList.drop q := by
    rw [bytesAt_eq_extract image p hq, Array.toList_extract, List.extract_eq_take_drop]
    have hdrop : image.toList.drop q = (image.toList.drop p).drop (q - p) := by
      rw [List.drop_drop, Nat.add_sub_of_le hpq]
    rw [hdrop, List.take_append_drop]
  rw [Ends, hsplit, List.append_assoc, show image.toList.drop q ++ _ = bytes from h]

end Ends

/-- Where nothing is left, the image ends. -/
theorem ends_nil (h : image.size ≤ p) : image.Ends p 0 [] := by
  rw [Ends, List.drop_eq_nil_of_le (by simpa using h)]
  rfl

/-- Bytes that are read past the end are missing. -/
theorem ends_bytesAt (hp : p ≤ image.size) (hq : image.size ≤ q) :
    image.Ends p (q - image.size) (image.bytesAt p (q - p)) := by
  have hwidth : q - p = (image.size - p) + (q - image.size) := by omega
  have hzeros : image.bytesAt image.size (q - image.size) =
      List.replicate (q - image.size) 0 := by
    refine List.eq_replicate_iff.2 ⟨length_bytesAt .., fun b hb => ?_⟩
    obtain ⟨k, -, rfl⟩ := List.mem_map.1 hb
    exact byteAt_of_size_le (Nat.le_add_right _ k)
  rw [Ends, hwidth, bytesAt_add, bytesAt_eq_extract image p (Nat.le_refl _),
    Nat.add_sub_of_le hp, hzeros, Array.toList_extract, List.extract_eq_take_drop,
    List.take_of_length_le (by simp)]

end Image

/-! ## Records -/

namespace Decoder

variable {image : Image} {p q : Nat}

/-- A text is read where its bytes are there, however many its length promises. -/
theorem longText_eq_ok {name : String} :
    longText image p = .ok name q ↔ image.wordAt p 4 ≤ image.remaining (p + 4) ∧
      name = Text.Latin.decode (image.bytesAt (p + 4) (image.wordAt p 4)) ∧
      q = p + 4 + image.wordAt p 4 := by
  rw [longText_eq]
  constructor
  · intro h
    obtain ⟨bytes, r, hbody, hname⟩ := eq_ok_of_bind h
    obtain ⟨rfl, rfl⟩ := bytesAt_of_textBody hbody
    obtain ⟨rfl, rfl⟩ := EStateM.Result.ok.inj hname
    refine ⟨Nat.not_lt.1 fun hlong => ?_, rfl, rfl⟩
    rw [textBody, if_pos hlong] at hbody
    cases hbody
  · rintro ⟨hfits, rfl, rfl⟩
    have hbody : textBody image p (image.wordAt p 4) (p + 4) =
        .ok (image.extract (p + 4) (p + 4 + image.wordAt p 4)).toList
          (p + 4 + image.wordAt p 4) :=
      if_neg (Nat.not_lt.2 hfits)
    rw [← (bytesAt_of_textBody hbody).1]
    exact bind_of_ok hbody

/-- A text fails where its length promises more than there is. -/
theorem malformed_of_longText {e : Error} (h : longText image p = .error e q) :
    ∃ detail, e = .of (.malformed detail) := by
  rw [longText_eq, EStateM.bind, textBody] at h
  split at h
  · rename_i hbody
    split at hbody <;> cases hbody
    cases h
  · rename_i hbody
    split at hbody <;> cases hbody
    cases h
    exact ⟨_, rfl⟩

end Decoder

namespace NameTable

variable {image : Image} {p q missing : Nat} {names names' : NameTable} {name : String}
  {s : Symbol} {records : List (String × Symbol)}

theorem length_encodeRecord (name : String) (s : Symbol) :
    (encodeRecord name s).length = 4 + name.toList.length + 4 := by
  simp [encodeRecord, Nat.add_assoc]

/-- The bytes of records one behind the other. -/
def encodeRecords (records : List (String × Symbol)) : List UInt8 :=
  records.flatMap fun (name, s) => encodeRecord name s

theorem encodeRecords_cons (name : String) (s : Symbol) (records : List (String × Symbol)) :
    encodeRecords ((name, s) :: records) = encodeRecord name s ++ encodeRecords records :=
  List.flatMap_cons

/-- A record takes at least its length and its symbol. -/
theorem le_length_encodeRecords (h : records ≠ []) : 8 ≤ (encodeRecords records).length := by
  obtain ⟨⟨name, s⟩, rest, rfl⟩ := List.exists_cons_of_ne_nil h
  rw [encodeRecords_cons, List.length_append, length_encodeRecord]
  omega

/-- The table of some records: every character takes one byte on the wire. -/
def ofRecords (records : List (String × Symbol)) : NameTable :=
  { entries := records.map fun (name, s) => (s, Text.Latin.decode (Text.Latin.encode name)) }

/-- From the offset on the image spells the records, but for zeros that are missing at its end. The
last record has begun, and its name is there. -/
structure Spells (image : Image) (p missing : Nat) (records : List (String × Symbol)) : Prop where
  /-- The bytes of the records, one behind the other, end the image. -/
  ends : image.Ends p missing (encodeRecords records)
  /-- Not all of the last record is missing. -/
  begun : missing ≤ 7
  /-- Where the last name is not empty, only its symbol may be missing. -/
  named : ∀ name s, records.getLast? = some (name, s) → name ≠ "" → missing ≤ 4
  /-- Without a record nothing is missing. -/
  whole : records = [] → missing = 0

namespace Spells

/-- Behind the end of the image there are no records. -/
theorem nil (h : image.size ≤ p) : Spells image p 0 [] where
  ends := Image.ends_nil h
  begun := Nat.zero_le _
  named _ _ hget := by cases hget
  whole _ := rfl

theorem lt_size (h : Spells image p missing ((name, s) :: records)) : p < image.size := by
  have hlength := h.ends.length_eq
  have hpos := le_length_encodeRecords (List.cons_ne_nil (name, s) records)
  have hbegun := h.begun
  rw [Image.remaining] at hlength
  omega

/-- Behind the first record the others are spelled. -/
theorem tail (h : Spells image p missing ((name, s) :: records)) :
    ∃ missing', Spells image (p + 4 + name.toList.length + 4) missing' records := by
  have hends := h.ends
  rw [encodeRecords_cons] at hends
  have hbehind : p + (encodeRecord name s).length = p + 4 + name.toList.length + 4 := by
    rw [length_encodeRecord]
    omega
  by_cases hlast : records = []
  -- Behind the last record there is nothing.
  · subst hlast
    have hlength := hends.length_eq
    rw [List.length_append, Image.remaining] at hlength
    have hnone : (encodeRecords []).length = 0 := rfl
    exact ⟨0, nil (by omega)⟩
  -- What is missing is missing in the last record, so the first one is whole.
  · have hle : missing ≤ (encodeRecords records).length :=
      Nat.le_trans h.begun (Nat.le_trans (by decide) (le_length_encodeRecords hlast))
    refine ⟨missing, ?_, h.begun, fun name' s' hget => h.named name' s' ?_,
      fun hnil => absurd hnil hlast⟩
    · have := hends.behind hle
      rwa [hbehind] at this
    · rw [List.getLast?_cons_of_ne_nil hlast, hget]

/-- The name of the first record is read. -/
theorem longText (h : Spells image p missing ((name, s) :: records))
    (hlength : name.toList.length < 2 ^ 32) :
    Decoder.longText image p =
      .ok (Text.Latin.decode (Text.Latin.encode name)) (p + 4 + name.toList.length) := by
  have hends := h.ends
  simp only [encodeRecords_cons, encodeRecord, List.append_assoc] at hends
  have hword : image.wordAt p 4 = name.toList.length := by
    have hbytes := @Image.Ends.bytesAt image p missing [] (Word.ofCount _) _ hends
    rw [Word.length_ofCount, Text.Latin.length_encode] at hbytes
    exact (Image.wordAt_of_bytesAt hbytes).trans (Nat.mod_eq_of_lt hlength)
  rw [← List.append_assoc] at hends
  have hname := hends.bytesAt
  rw [Word.length_ofCount, Text.Latin.length_encode] at hname
  rw [Decoder.longText_eq_ok, hword, hname]
  refine ⟨?_, rfl, rfl⟩
  -- An empty name is there in any case, and of another one nothing is missing.
  by_cases hempty : name = ""
  · simp [hempty]
  · have hthere := hends.holds (show missing ≤ _ from ?_)
    · have := hthere.length_le_remaining
      rwa [Word.length_ofCount, Text.Latin.length_encode] at this
    · rw [List.length_append, Word.length_ofSymbol]
      by_cases hlast : records = []
      · subst hlast
        have := h.named name s rfl hempty
        omega
      · have := le_length_encodeRecords hlast
        have := h.begun
        omega

/-- The symbol of the first record is read. -/
theorem int32At (h : Spells image p missing ((name, s) :: records)) :
    image.int32At (p + 4 + name.toList.length) = s.id := by
  have hends := h.ends
  rw [encodeRecords_cons, encodeRecord] at hends
  have hbytes := hends.bytesAt
  rw [List.length_append, Word.length_ofCount, Text.Latin.length_encode, Word.length_ofSymbol,
    ← Nat.add_assoc] at hbytes
  exact Image.int32At_of_bytesAt hbytes

end Spells

/-! ## Reading records -/

/-- A table ends with the image. -/
theorem readFrom_of_size_le (h : image.size ≤ p) : readFrom image names p = .ok names := by
  rw [readFrom]
  exact if_neg (Nat.not_lt.2 h)

/-- A record names a symbol. -/
theorem readFrom_of_longText (hp : p < image.size)
    (hname : Decoder.longText image p = .ok name q)
    (hinsert : names.insert ⟨image.int32At q⟩ name = .ok names') :
    readFrom image names p = readFrom image names' (q + 4) := by
  rw [readFrom]
  simp only [hp, ↓reduceIte]
  split
  · rename_i e r herror
    rw [hname] at herror
    cases herror
  · rename_i found r hfound
    rw [hname] at hfound
    cases hfound
    rw [hinsert]

/-- A symbol is named if it has no name yet, and then it stands behind the others. -/
theorem insert_eq_ok :
    names.insert s name = .ok names' ↔
      names.get? s = none ∧ names' = { entries := names.entries ++ [(s, name)] } := by
  rw [insert]
  cases names.get? s with
  | none => simp [eq_comm]
  | some old => simp

/-- A name that is added is found, and the others are as before. -/
theorem get?_append {s s' : Symbol} (name : String) :
    get? { entries := names.entries ++ [(s, name)] } s' = none ↔
      names.get? s' = none ∧ s' ≠ s := by
  rw [get?, get?, List.lookup_append, Option.or_eq_none_iff, List.lookup_eq_none_iff,
    List.lookup_eq_none_iff]
  simp

/-- The records name different symbols, and none that has a name already. -/
structure AreNew (names : NameTable) (records : List (String × Symbol)) : Prop where
  /-- None of the symbols has a name. -/
  unnamed : ∀ r ∈ records, names.get? r.2 = none
  /-- No two of the symbols are the same. -/
  distinct : records.Pairwise fun r r' => r.2 ≠ r'.2

/-- Records are new where the first one is and the others are behind it, however it is called. -/
theorem areNew_cons (text : String) :
    AreNew names ((name, s) :: records) ↔
      names.get? s = none ∧ AreNew { entries := names.entries ++ [(s, text)] } records := by
  constructor
  · rintro ⟨hunnamed, hdistinct⟩
    obtain ⟨hfirst, hrest⟩ := List.pairwise_cons.1 hdistinct
    refine ⟨hunnamed (name, s) List.mem_cons_self, fun r hr => ?_, hrest⟩
    exact (get?_append text).2 ⟨hunnamed r (List.mem_cons_of_mem _ hr), (hfirst r hr).symm⟩
  · rintro ⟨hfirst, hunnamed, hdistinct⟩
    refine ⟨fun r hr => ?_, List.pairwise_cons.2 ⟨fun r hr => ?_, hdistinct⟩⟩
    · rcases List.mem_cons.1 hr with rfl | hr
      · exact hfirst
      · exact ((get?_append text).1 (hunnamed r hr)).1
    · exact ((get?_append text).1 (hunnamed r hr)).2.symm

/-- Records that are spelled are read, if they are new. -/
theorem readFrom_of_spells (h : Spells image p missing records)
    (hlengths : ∀ r ∈ records, r.1.toList.length < 2 ^ 32) (hnew : AreNew names records) :
    readFrom image names p = .ok { entries := names.entries ++ (ofRecords records).entries } := by
  -- The first record is read into the table, to which the others are then added.
  induction records generalizing names p missing with
  | nil =>
    have hlength := h.ends.length_eq
    have hlast : image.size ≤ p := by
      rw [Image.remaining] at hlength
      simp [encodeRecords] at hlength
      omega
    rw [readFrom_of_size_le hlast]
    simp [ofRecords]
  | cons r rest ih =>
    obtain ⟨name, s⟩ := r
    let text := Text.Latin.decode (Text.Latin.encode name)
    obtain ⟨hfirst, hrest⟩ := (areNew_cons text).1 hnew
    obtain ⟨missing', htail⟩ := h.tail
    have hname := h.longText (hlengths _ List.mem_cons_self)
    have hinsert : names.insert ⟨image.int32At (p + 4 + name.toList.length)⟩ text =
        .ok { entries := names.entries ++ [(s, text)] } := by
      rw [h.int32At]
      exact insert_eq_ok.2 ⟨hfirst, rfl⟩
    rw [readFrom_of_longText h.lt_size hname hinsert,
      ih htail (fun r hr => hlengths r (List.mem_cons_of_mem _ hr)) hrest]
    simp [ofRecords, text]

/-- A record can be spelled as it is: its length has 32 bits and its characters have one byte. -/
structure IsSpellable (r : String × Symbol) : Prop where
  /-- The name is as long as its record says. -/
  length : r.1.toList.length < 2 ^ 32
  /-- Every character has a byte of its own. -/
  latin : ∀ c ∈ r.1.toList, c.toNat < 256

/-- A name that is read can be spelled. -/
theorem isSpellable_of_longText (h : Decoder.longText image p = .ok name q) (s : Symbol) :
    IsSpellable (name, s) := by
  obtain ⟨-, rfl, -⟩ := Decoder.longText_eq_ok.1 h
  constructor
  · have hlt : image.wordAt p 4 < 256 ^ 4 := image.wordAt_lt p 4
    simpa [Text.Latin.decode] using hlt
  · intro c hc
    rw [Text.Latin.decode, String.toList_ofList] at hc
    obtain ⟨b, -, rfl⟩ := List.mem_map.1 hc
    rw [Text.Latin.toNat_charOf]
    exact b.toNat_lt

/-- The bytes of a record that is read are those between where it begins and where it ends. -/
theorem encodeRecord_of_longText (h : Decoder.longText image p = .ok name q) :
    encodeRecord name ⟨image.int32At q⟩ = image.bytesAt p (q + 4 - p) := by
  obtain ⟨-, rfl, rfl⟩ := Decoder.longText_eq_ok.1 h
  have hwidth : p + 4 + image.wordAt p 4 + 4 - p = 4 + image.wordAt p 4 + 4 := by omega
  rw [encodeRecord, Text.Latin.encode_decode, Image.length_bytesAt, hwidth, Image.bytesAt_add,
    Image.bytesAt_add, ← Nat.add_assoc]
  simp only [Word.ofSymbol, Image.ofInt32_int32At, Word.ofCount, Image.toBytes_wordAt]

/-- A record that is read in front of others is spelled in front of them. -/
theorem Spells.cons (hp : p < image.size) (hname : Decoder.longText image p = .ok name q)
    (h : Spells image (q + 4) missing records) :
    ∃ missing', Spells image p missing' ((name, ⟨image.int32At q⟩) :: records) := by
  have hbytes := encodeRecord_of_longText hname
  obtain ⟨hfits, hdecoded, hq⟩ := Decoder.longText_eq_ok.1 hname
  by_cases hlast : records = []
  -- The last record may go on past the end of the image, with its name only if that is empty.
  · subst hlast
    rw [Image.remaining] at hfits
    have hends : image.Ends p (q + 4 - image.size) (encodeRecords [(name, ⟨image.int32At q⟩)]) := by
      have hlength := h.ends.length_eq
      rw [Image.remaining] at hlength
      have hnone : (encodeRecords []).length = 0 := rfl
      rw [encodeRecords_cons, hbytes]
      exact (List.append_nil _).symm ▸ Image.ends_bytesAt (Nat.le_of_lt hp) (by omega)
    refine ⟨q + 4 - image.size, hends, by omega, ?_, by rintro ⟨⟩⟩
    intro name' s' hget hne
    obtain ⟨rfl, -⟩ : name = name' ∧ _ := by simpa using hget
    -- A name that is not empty ends inside the image.
    have hpos : image.wordAt p 4 ≠ 0 := by
      intro hzero
      rw [hzero] at hdecoded
      exact hne hdecoded
    omega
  -- Others follow only inside the image.
  · have hinside : q + 4 < image.size := by
      have hlength := h.ends.length_eq
      have hle := le_length_encodeRecords hlast
      have hbegun := h.begun
      rw [Image.remaining] at hlength
      omega
    refine ⟨missing, ?_, h.begun, fun name' s' hget => h.named name' s' ?_,
      by rintro ⟨⟩⟩
    · rw [encodeRecords_cons, hbytes]
      exact h.ends.bytesAt_append (by omega) (Nat.le_of_lt hinside)
    · rwa [List.getLast?_cons_of_ne_nil hlast] at hget

/-- What is read into a table is spelled by the image. -/
theorem exists_spells_of_readFrom (h : readFrom image names p = .ok names') :
    ∃ missing records, Spells image p missing records ∧ (∀ r ∈ records, IsSpellable r) ∧
      AreNew names records ∧ names'.entries = names.entries ++ (ofRecords records).entries := by
  -- A record is added in front of those that are read behind it.
  fun_induction readFrom image names p with
  | case1 => cases h
  | case2 => cases h
  | case3 names p hp name q hname named hinsert ih =>
    obtain ⟨missing, records, hspells, hspellable, hnew, hentries⟩ := ih h
    obtain ⟨hunnamed, rfl⟩ := insert_eq_ok.1 hinsert
    obtain ⟨missing', hspells'⟩ := hspells.cons hp hname
    refine ⟨missing', (name, ⟨image.int32At q⟩) :: records, hspells', fun r hr => ?_,
      (areNew_cons name).2 ⟨hunnamed, hnew⟩, ?_⟩
    · rcases List.mem_cons.1 hr with rfl | hr
      · exact isSpellable_of_longText hname _
      · exact hspellable r hr
    · obtain ⟨-, rfl, -⟩ := Decoder.longText_eq_ok.1 hname
      simp [hentries, ofRecords]
  | case4 names p hp =>
    cases h
    exact ⟨0, [], .nil (Nat.not_lt.1 hp), List.forall_mem_nil _, ⟨List.forall_mem_nil _, .nil⟩,
      by simp [ofRecords]⟩

/-- A name without characters past U+00FF is read back as it is. -/
theorem entries_ofRecords (h : ∀ r ∈ records, IsSpellable r) :
    (ofRecords records).entries = records.map Prod.swap := by
  refine List.map_congr_left fun r hr => ?_
  have hsame : (r.1.toList.map fun c => if c.toNat < 256 then c else '?') = r.1.toList :=
    (List.map_congr_left fun c hc => if_pos ((h r hr).latin c hc)).trans (List.map_id' _)
  show (r.2, Text.Latin.decode (Text.Latin.encode r.1)) = (r.2, r.1)
  rw [Text.Latin.decode_encode, hsame, String.ofList_toList]

/-- The form of an image is all that can be wrong with its names. -/
theorem malformed_of_readFrom {e : Error} (h : readFrom image names p = .error e) :
    ∃ detail, e = .of (.malformed detail) := by
  fun_induction readFrom image names p with
  | case1 names p hp e' q hname =>
    cases h
    exact Decoder.malformed_of_longText hname
  | case2 names p hp name q hname e' hinsert =>
    cases h
    rw [insert] at hinsert
    cases hold : names.get? ⟨image.int32At q⟩ with
    | none =>
      rw [hold] at hinsert
      cases hinsert
    | some old =>
      rw [hold] at hinsert
      cases hinsert
      exact ⟨_, rfl⟩
  | case3 names p hp name q hname named hinsert ih => exact ih h
  | case4 => cases h

end NameTable

/-! ## Programs -/

namespace Program

variable {image : Image} {codeEnd : Nat} {records : List (String × Symbol)}

/-- The image has the form of a program of which the code ends at the offset and the names are those
of the records. -/
structure Conforms (image : Image) (codeEnd : Nat) (records : List (String × Symbol)) : Prop where
  /-- The image begins with the offset in four bytes. -/
  header : image.toList.take 4 = Word.ofCount codeEnd
  /-- The four bytes are those of an integer that is not negative. -/
  signed : codeEnd < 2 ^ 31
  /-- The code does not end before it begins. -/
  start : codeStart ≤ codeEnd
  /-- The code ends inside the image. -/
  inside : codeEnd ≤ image.size
  /-- The rest of the image spells the records, up to zeros that may be missing. -/
  spelled : ∃ missing, NameTable.Spells image codeEnd missing records
  /-- The records can be spelled as they are. -/
  spellable : ∀ r ∈ records, NameTable.IsSpellable r
  /-- No symbol is named twice. -/
  distinct : (records.map Prod.snd).Nodup

/-- The header is there and is read as the offset where the image begins with it. -/
theorem header_iff (hsigned : codeEnd < 2 ^ 31) :
    image.toList.take 4 = Word.ofCount codeEnd ↔
      codeStart ≤ image.size ∧ (image.int32At 0).toInt = codeEnd := by
  constructor
  · intro h
    have hlength := congrArg List.length h
    rw [Word.length_ofCount, List.length_take, Array.length_toList] at hlength
    have hheld : image.Holds 0 (Word.ofCount codeEnd) := by
      rw [← h]
      exact List.take_prefix 4 image.toList
    exact ⟨by rw [codeStart]; omega, hheld.toInt_int32At hsigned⟩
  · rintro ⟨hsize, hheader⟩
    have hbytes := image.bytesAt_eq_extract 0 hsize
    rw [(image.ofCount_of_toInt_int32At 0 hheader).2]
    simpa [codeStart] using hbytes.symm

/-- Loading reads the names behind a header that points into the image, and refuses others. -/
theorem load_eq (hsize : codeStart ≤ image.size) :
    load image =
      if codeStart ≤ (image.int32At 0).toInt ∧ (image.int32At 0).toInt ≤ image.size then
        (NameTable.load image (image.int32At 0).toInt.toNat).map fun names =>
          { image, codeEnd := (image.int32At 0).toInt.toNat, names }
      else .error (.of (.malformed
       s!"name table offset {(image.int32At 0).toInt} outside of {codeStart}..={image.size}")) := by
  rw [load, if_neg (Nat.not_lt.2 hsize)]
  rfl

/-- What is loaded is the image with the end of its code and with the names behind it. -/
theorem load_eq_ok {program : Program} :
    load image = .ok program ↔ program.image = image ∧ codeStart ≤ program.codeEnd ∧
      program.codeEnd ≤ image.size ∧ (image.int32At 0).toInt = program.codeEnd ∧
      NameTable.load image program.codeEnd = .ok program.names := by
  constructor
  · intro h
    have hsize : codeStart ≤ image.size := by
      refine Nat.not_lt.1 fun hshort => ?_
      rw [load, if_pos hshort] at h
      cases h
    rw [load_eq hsize] at h
    split at h
    · rename_i hheader
      obtain ⟨n, hn⟩ := Int.eq_ofNat_of_zero_le (Int.le_trans (Int.natCast_nonneg _) hheader.1)
      have hstart : codeStart ≤ n := by omega
      have hinside : n ≤ image.size := by omega
      rw [hn, Int.toNat_natCast] at h
      cases hnames : NameTable.load image n with
      | error e =>
        rw [hnames] at h
        cases h
      | ok names =>
        rw [hnames] at h
        cases h
        exact ⟨rfl, hstart, hinside, hn, hnames⟩
    · cases h
  · obtain ⟨image', codeEnd, names⟩ := program
    rintro ⟨rfl, hstart, hinside, hheader, hnames⟩
    have hsize := Nat.le_trans hstart hinside
    rw [load_eq hsize, hheader, if_pos (by omega), Int.toNat_natCast, hnames]
    rfl

/-- The loader accepts the format and nothing else: an image is loaded as a program where it
conforms to the end of its code and to some records, and these are the names of the program. Every
other image is refused as malformed. -/
theorem load_iff_conforms (image : Image) :
    (∀ program, load image = .ok program ↔ program.image = image ∧
      ∃ records, Conforms image program.codeEnd records ∧
        program.names.entries = records.map Prod.swap) ∧
    ∀ e, load image = .error e → ∃ detail, e = .of (.malformed detail) := by
  refine ⟨fun program => ⟨fun h => ?_, ?_⟩, fun e h => ?_⟩
  · obtain ⟨himage, hstart, hinside, hheader, hnames⟩ := load_eq_ok.1 h
    obtain ⟨missing, records, hspells, hspellable, hnew, hentries⟩ :=
      NameTable.exists_spells_of_readFrom hnames
    have hsigned := (image.ofCount_of_toInt_int32At 0 hheader).1
    refine ⟨himage, records, ⟨?_, hsigned, hstart, hinside, ⟨missing, hspells⟩, hspellable, ?_⟩, ?_⟩
    · exact (header_iff hsigned).2 ⟨Nat.le_trans hstart hinside, hheader⟩
    · exact List.pairwise_map.2 hnew.distinct
    · rw [hentries, NameTable.entries_ofRecords hspellable]
      rfl
  · rintro ⟨himage, records, h, hentries⟩
    obtain ⟨missing, hspells⟩ := h.spelled
    refine load_eq_ok.2 ⟨himage, h.start, h.inside, ((header_iff h.signed).1 h.header).2, ?_⟩
    -- The records are read into the empty table, in which no symbol has a name.
    have hread := @NameTable.readFrom_of_spells _ _ _ .empty _ hspells
      (fun r hr => (h.spellable r hr).length)
      ⟨fun r hr => rfl, List.pairwise_map.1 h.distinct⟩
    rw [NameTable.load, hread, NameTable.entries_ofRecords h.spellable, ← hentries]
    rfl
  · by_cases hsize : codeStart ≤ image.size
    · rw [load_eq hsize] at h
      split at h
      · cases hnames : NameTable.load image (image.int32At 0).toInt.toNat with
        | error e' =>
          rw [hnames] at h
          cases h
          exact NameTable.malformed_of_readFrom hnames
        | ok names =>
          rw [hnames] at h
          cases h
      · cases h
        exact ⟨_, rfl⟩
    · rw [load, if_pos (Nat.not_le.1 hsize)] at h
      cases h
      exact ⟨_, rfl⟩

end Program

end Bytewalk
