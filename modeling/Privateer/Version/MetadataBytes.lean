import Privateer.Data.HashNames
import Privateer.Version.Metadata

/-!
# The bytes of `_metadata`

`update_metadata` lays the names of a prefix of the table out byte by byte and writes them
at the start of the file, which keeps its tail; the open constructor cuts the file into
names and fills up the table.  Here both are modelled on bytes, and composed.  On files that
hold whole names they agree with the lists of names that the other modules work with.
-/

namespace Privateer

/-! ## Encoding -/

/-- The inner loop of `update_metadata`: one name, character by character. -/
def encodeName (blocksIds : List (List Byte)) (blocksBytes : List Byte) (block : ℕ) :
    List Byte :=
  (List.range hashSize).foldl
    (fun bytes position =>
      bytes.set (block * hashSize + position) ((blocksIds.getD block []).getD position 0))
    blocksBytes

/-- The buffer that `update_metadata` writes, filled from memory that is not initialised. -/
def encodeNames (uninitialised : ℕ → Byte) (blocksIds : List (List Byte)) (numBlocks : ℕ) :
    List Byte :=
  (List.range numBlocks).foldl (encodeName blocksIds)
    ((List.range (numBlocks * hashSize)).map uninitialised)

/-! ## Decoding -/

/-- A store to the array of names; one past its end is undefined. -/
def writeName (table : List (List Byte)) (index : ℕ) (name : List Byte) :
    Option (List (List Byte)) :=
  if index < table.length then some (table.set index name) else none

/-- The values of the loop variable that steps by `HASH_SIZE` up to the size of the file. -/
def nameOffsets (metadataSize : ℕ) : List ℕ :=
  (List.range ((metadataSize + (hashSize - 1)) / hashSize)).map (· * hashSize)

/-- At most `HASH_SIZE` characters from an offset on. -/
def nameAt (allHashes : List Byte) (offset : ℕ) : List Byte :=
  (allHashes.drop offset).take hashSize

def emptyBlockHash : List Byte :=
  List.replicate hashSize 48

/-- The two loops of the open constructor that fill the table. -/
def decodeNames (numBlocks : ℕ) (allHashes : List Byte) : Option (List (List Byte)) := do
  let table ← (nameOffsets allHashes.length).foldlM
    (fun table offset => writeName table (offset / hashSize) (nameAt allHashes offset))
    (List.replicate numBlocks [])
  let numOccupiedBlocks := allHashes.length / hashSize
  (List.range' numOccupiedBlocks (numBlocks - numOccupiedBlocks)).foldlM
    (fun table index => writeName table index emptyBlockHash) table

/-! ## Loops over arrays -/

section Loops

variable {A : Type*}

/-- A loop that sets consecutive entries after a prefix copies the new entries there. -/
theorem foldl_set_range (head new tail : List A) (default : A) {count : ℕ}
    (hcount : count ≤ tail.length) (hnew : count ≤ new.length) :
    (List.range count).foldl
        (fun entries index => entries.set (head.length + index) (new.getD index default))
        (head ++ tail) =
      head ++ (new.take count ++ tail.drop count) := by
  induction count with
  | zero => rfl
  | succ count ih =>
      have hentry : new.getD count default = new[count] := by
        rw [List.getD_eq_getElem?_getD, List.getElem?_eq_getElem hnew]
        rfl
      have htail : tail.drop count = tail[count] :: tail.drop (count + 1) :=
        List.drop_eq_getElem_cons hcount
      have hlength : (head ++ new.take count).length = head.length + count := by
        rw [List.length_append, List.length_take, Nat.min_eq_left (by omega)]
      rw [List.range_succ, List.foldl_append, ih (by omega) (by omega), List.foldl_cons,
        List.foldl_nil, htail, ← List.append_assoc, ← hlength, List.set_append_right _ _ le_rfl,
        Nat.sub_self, List.set_cons_zero, hentry, ← List.take_concat_get' _ _ hnew,
        List.append_assoc, List.append_assoc]
      rfl

/-- The table after the entries from `start` on, `count` of them, were set. -/
def fillFrom (start count : ℕ) (entryAt : ℕ → A) (table : List A) : List A :=
  table.mapIdx fun index old =>
    if start ≤ index ∧ index < start + count then entryAt index else old

@[simp]
theorem length_fillFrom (start count : ℕ) (entryAt : ℕ → A) (table : List A) :
    (fillFrom start count entryAt table).length = table.length :=
  List.length_mapIdx

theorem getElem?_fillFrom (start count : ℕ) (entryAt : ℕ → A) (table : List A) (index : ℕ) :
    (fillFrom start count entryAt table)[index]? = table[index]?.map fun old =>
      if start ≤ index ∧ index < start + count then entryAt index else old :=
  List.getElem?_mapIdx

theorem fillFrom_zero (start : ℕ) (entryAt : ℕ → A) (table : List A) :
    fillFrom start 0 entryAt table = table := by
  refine List.ext_getElem? fun index => ?_
  have hoff : ¬ (start ≤ index ∧ index < start + 0) := by omega
  simp only [getElem?_fillFrom, hoff, if_false, Option.map_id']

theorem fillFrom_succ (start count : ℕ) (entryAt : ℕ → A) (table : List A) :
    fillFrom start (count + 1) entryAt table =
      (fillFrom start count entryAt table).set (start + count) (entryAt (start + count)) := by
  refine List.ext_getElem? fun index => ?_
  rw [List.getElem?_set, length_fillFrom, getElem?_fillFrom, getElem?_fillFrom]
  by_cases hindex : start + count = index
  · subst hindex
    have hin : start ≤ start + count ∧ start + count < start + (count + 1) := by omega
    rw [if_pos rfl]
    by_cases hlength : start + count < table.length
    · rw [if_pos hlength, List.getElem?_eq_getElem hlength, Option.map_some, if_pos hin]
    · rw [if_neg hlength, List.getElem?_eq_none (Nat.le_of_not_lt hlength)]
      rfl
  · have hsame : (start ≤ index ∧ index < start + (count + 1)) =
        (start ≤ index ∧ index < start + count) := by
      rw [eq_iff_iff]
      omega
    rw [if_neg hindex]
    simp only [hsame]

end Loops

/-- A loop that stays within the table fills it. -/
theorem foldlM_writeName (start : ℕ) {count : ℕ} (nameOf : ℕ → List Byte)
    {table : List (List Byte)} (hfits : start + count ≤ table.length) :
    (List.range' start count).foldlM (fun table index => writeName table index (nameOf index))
      table = some (fillFrom start count nameOf table) := by
  induction count with
  | zero => rw [fillFrom_zero]; rfl
  | succ count ih =>
      have hwrite : writeName (fillFrom start count nameOf table) (start + count)
          (nameOf (start + count)) = some (fillFrom start (count + 1) nameOf table) := by
        rw [writeName, length_fillFrom, if_pos (by omega), ← fillFrom_succ]
      rw [List.range'_1_concat, List.foldlM_append, ih (by omega)]
      change (writeName _ _ _ >>= fun table => some table) = _
      rw [hwrite]
      rfl

/-! ## What decoding yields -/

/-- The loop takes every multiple of `HASH_SIZE` below the size of the file. -/
theorem mem_nameOffsets {metadataSize offset : ℕ} :
    offset ∈ nameOffsets metadataSize ↔ hashSize ∣ offset ∧ offset < metadataSize := by
  rw [nameOffsets, List.mem_map]
  simp only [List.mem_range, hashSize]
  constructor
  · rintro ⟨index, hindex, rfl⟩
    exact ⟨Nat.dvd_mul_left _ _, by omega⟩
  · rintro ⟨⟨index, rfl⟩, hlt⟩
    exact ⟨index, by omega, Nat.mul_comm _ _⟩

/-- A file that fits is decoded: whole names stay, everything else is empty. -/
theorem decodeNames_eq {numBlocks : ℕ} {allHashes : List Byte}
    (hfits : allHashes.length ≤ hashSize * numBlocks) :
    decodeNames numBlocks allHashes = some ((List.range numBlocks).map fun index =>
      if index < allHashes.length / hashSize then nameAt allHashes (index * hashSize)
      else emptyBlockHash) := by
  have hsize : hashSize = 64 := rfl
  rw [hsize] at hfits
  have hread : (nameOffsets allHashes.length).foldlM
      (fun table offset => writeName table (offset / hashSize) (nameAt allHashes offset))
      (List.replicate numBlocks []) =
      some (fillFrom 0 ((allHashes.length + (hashSize - 1)) / hashSize)
        (fun index => nameAt allHashes (index * hashSize)) (List.replicate numBlocks [])) := by
    have hindex : ∀ index, index * hashSize / hashSize = index :=
      fun index => Nat.mul_div_cancel index (by omega)
    rw [nameOffsets, List.foldlM_map, List.range_eq_range']
    simp only [hindex]
    refine foldlM_writeName 0 _ ?_
    rw [List.length_replicate, hsize]
    omega
  rw [decodeNames, hread]
  change List.foldlM _ _ _ = _
  rw [foldlM_writeName]
  · refine congrArg some (List.ext_getElem? fun index => ?_)
    rw [getElem?_fillFrom, getElem?_fillFrom, List.getElem?_map, List.getElem?_replicate]
    by_cases hindex : index < numBlocks
    · rw [if_pos hindex, List.getElem?_range hindex, Option.map_some, Option.map_some,
        Option.map_some, hsize]
      by_cases hoccupied : index < allHashes.length / 64
      · rw [if_neg (by omega), if_pos (by omega), if_pos hoccupied]
      · rw [if_pos (by omega), if_neg hoccupied]
    · have hnone : (List.range numBlocks)[index]? = none :=
        List.getElem?_eq_none (by rw [List.length_range]; omega)
      rw [if_neg hindex, hnone]
      rfl
  · rw [length_fillFrom, List.length_replicate, hsize]
    omega

/-! ## What encoding yields -/

theorem length_flatten_names {names : List (List Byte)}
    (hnames : ∀ name ∈ names, name.length = hashSize) :
    names.flatten.length = names.length * hashSize := by
  induction names with
  | nil => exact (Nat.zero_mul _).symm
  | cons name names ih =>
      obtain ⟨hname, hrest⟩ := List.forall_mem_cons.mp hnames
      rw [List.flatten_cons, List.length_append, hname, ih hrest, List.length_cons,
        Nat.add_one_mul, Nat.add_comm]

/-- The buffer holds the names one after the other, and nothing of what was in memory. -/
theorem encodeNames_eq (uninitialised : ℕ → Byte) {blocksIds : List (List Byte)}
    (hnames : ∀ name ∈ blocksIds, name.length = hashSize) {numBlocks : ℕ}
    (hfits : numBlocks ≤ blocksIds.length) :
    encodeNames uninitialised blocksIds numBlocks = (blocksIds.take numBlocks).flatten := by
  have hrun : ∀ count ≤ numBlocks,
      (List.range count).foldl (encodeName blocksIds)
          ((List.range (numBlocks * hashSize)).map uninitialised) =
        (blocksIds.take count).flatten ++
          ((List.range (numBlocks * hashSize)).map uninitialised).drop (count * hashSize) := by
    intro count hcount
    induction count with
    | zero => rw [Nat.zero_mul]; rfl
    | succ count ih =>
        have hblock : count < blocksIds.length := by omega
        have hname : (blocksIds.getD count []) = blocksIds[count] := by
          rw [List.getD_eq_getElem?_getD, List.getElem?_eq_getElem hblock]
          rfl
        have hlength : (blocksIds.take count).flatten.length = count * hashSize := by
          rw [length_flatten_names fun name hmem => hnames name (List.mem_of_mem_take hmem),
            List.length_take, Nat.min_eq_left (by omega)]
        have hsize := hnames _ (List.getElem_mem hblock)
        have hwhole : blocksIds[count].take hashSize = blocksIds[count] :=
          List.take_of_length_le hsize.le
        rw [List.range_succ, List.foldl_append, ih (by omega), List.foldl_cons, List.foldl_nil,
          encodeName, hname, ← hlength, foldl_set_range, hwhole, List.drop_drop,
          ← List.take_concat_get' _ _ hblock, List.flatten_append,
          List.flatten_singleton, List.append_assoc, hlength, ← Nat.add_one_mul]
        · rw [List.length_drop, List.length_map, List.length_range, hlength, ← Nat.sub_mul]
          exact Nat.le_mul_of_pos_left _ (by omega)
        · omega
  rw [encodeNames, hrun numBlocks le_rfl, List.drop_of_length_le, List.append_nil]
  rw [List.length_map, List.length_range]

/-! ## Writing and reading back -/

theorem nameAt_flatten {names : List (List Byte)}
    (hnames : ∀ name ∈ names, name.length = hashSize) {index : ℕ}
    (hindex : index < names.length) (rest : List Byte) :
    nameAt (names.flatten ++ rest) (index * hashSize) = names[index] := by
  have hsplit : names = names.take index ++ names[index] :: names.drop (index + 1) := by
    rw [← List.drop_eq_getElem_cons, List.take_append_drop]
  have hlength : (names.take index).flatten.length = index * hashSize := by
    rw [length_flatten_names fun name hmem => hnames name (List.mem_of_mem_take hmem),
      List.length_take, Nat.min_eq_left hindex.le]
  have hsize := hnames _ (List.getElem_mem hindex)
  have hflatten : names.flatten ++ rest = (names.take index).flatten ++
      (names[index] ++ ((names.drop (index + 1)).flatten ++ rest)) := by
    conv_lhs => rw [hsplit]
    rw [List.flatten_append, List.flatten_cons, List.append_assoc, List.append_assoc]
  rw [nameAt, hflatten, ← hlength, List.drop_left, ← hsize, List.take_left]

/-- Behind what was written the file is as before. -/
theorem nameAt_overwrite {new old : List Byte} {offset : ℕ} (hbehind : new.length ≤ offset) :
    nameAt (overwrite new old) offset = nameAt old offset := by
  rw [nameAt, overwrite, List.drop_append, List.drop_eq_nil_of_le hbehind, List.nil_append,
    List.drop_drop, Nat.add_sub_cancel' hbehind]
  rfl

/-- `update_metadata` followed by `open`: for any previous content that fits and any
prefix of the table, the names written are read back, behind them the whole names of the
old file stay, and everything else is empty; no store misses the table. -/
theorem decodeNames_overwrite (uninitialised : ℕ → Byte) (previous : List Byte)
    (blocksIds : List (List Byte)) (written : ℕ)
    (hnames : ∀ name ∈ blocksIds, name.length = hashSize)
    (hwritten : written ≤ blocksIds.length)
    (hfits : previous.length ≤ hashSize * blocksIds.length) :
    let content := overwrite (encodeNames uninitialised blocksIds written) previous
    (∀ offset ∈ nameOffsets content.length, offset / hashSize < blocksIds.length) ∧
    ∃ table, decodeNames blocksIds.length content = some table ∧
      table.length = blocksIds.length ∧
      ∀ index < blocksIds.length, table[index]? = some
        (if index < written then blocksIds.getD index []
        else if index < previous.length / hashSize then
          (previous.drop (index * hashSize)).take hashSize
        else emptyBlockHash) := by
  have hsize : hashSize = 64 := rfl
  intro content
  have hencoded := encodeNames_eq uninitialised hnames hwritten
  have hbytes : (encodeNames uninitialised blocksIds written).length = written * hashSize := by
    rw [hencoded, length_flatten_names fun name hmem => hnames name (List.mem_of_mem_take hmem),
      List.length_take, Nat.min_eq_left hwritten]
  have hlength : content.length = max (written * hashSize) previous.length := by
    rw [length_overwrite, hbytes]
  have hcontent : content.length ≤ hashSize * blocksIds.length := by
    rw [hsize] at hfits hlength ⊢
    omega
  refine ⟨fun offset hoffset => ?_, _, decodeNames_eq hcontent, ?_, fun index hindex => ?_⟩
  · have hlt := (mem_nameOffsets.mp hoffset).2
    rw [hsize] at hcontent ⊢
    omega
  · rw [List.length_map, List.length_range]
  · rw [List.getElem?_map, List.getElem?_range hindex, Option.map_some]
    refine congrArg some ?_
    by_cases hnew : index < written
    · have hkept : index < content.length / hashSize := by
        rw [hlength, hsize]
        omega
      have htaken : index < (blocksIds.take written).length := by
        rw [List.length_take]
        omega
      have hentry : blocksIds.getD index [] = (blocksIds.take written)[index] := by
        rw [List.getElem_take, List.getD_eq_getElem?_getD, List.getElem?_eq_getElem hindex]
        rfl
      rw [if_pos hkept, if_pos hnew, hentry]
      change nameAt (encodeNames uninitialised blocksIds written ++ _) _ = _
      rw [hencoded]
      exact nameAt_flatten (fun name hmem => hnames name (List.mem_of_mem_take hmem)) htaken _
    · have hkept : index < content.length / hashSize ↔ index < previous.length / hashSize := by
        rw [hlength, hsize]
        omega
      have hbehind : (encodeNames uninitialised blocksIds written).length ≤ index * hashSize := by
        rw [hbytes]
        exact Nat.mul_le_mul_right _ (Nat.le_of_not_lt hnew)
      simp only [if_neg hnew, hkept]
      rw [nameAt_overwrite hbehind]
      rfl

/-- One name is written over a file of one name and a half: the half does not stay. -/
theorem decodeNames_overwrite_half :
    ∃ table, decodeNames 2 (overwrite (encodeNames (fun _ => 7)
        [List.replicate 64 1, List.replicate 64 2] 1) (List.replicate 96 3)) = some table ∧
      table[0]? = some (List.replicate 64 1) ∧ table[1]? = some emptyBlockHash := by
  obtain ⟨-, table, hdecoded, -, hentries⟩ := decodeNames_overwrite (fun _ => 7)
    (List.replicate 96 3) [List.replicate 64 1, List.replicate 64 2] 1 (by decide) (by decide)
    (by decide)
  exact ⟨table, hdecoded, hentries 0 (by decide), hentries 1 (by decide)⟩

/-! ## Files of whole names -/

/-- A table of whole names is decoded to its names, as `open` is modelled on names. -/
theorem decodeNames_flatten {names : List (List Byte)} {numBlocks : ℕ}
    (hnames : ∀ name ∈ names, name.length = hashSize) (hfits : names.length ≤ numBlocks) :
    decodeNames numBlocks names.flatten =
      some ((List.range numBlocks).map fun index => names.getD index emptyBlockHash) := by
  have hlength := length_flatten_names hnames
  have hsize : hashSize = 64 := rfl
  rw [decodeNames_eq]
  · refine congrArg some (List.map_congr_left fun index hindex => ?_)
    rw [hlength, Nat.mul_div_cancel _ (by omega)]
    by_cases hname : index < names.length
    · have hfound := nameAt_flatten hnames hname []
      rw [List.append_nil] at hfound
      rw [if_pos hname, hfound, List.getD_eq_getElem?_getD, List.getElem?_eq_getElem hname]
      rfl
    · rw [if_neg hname, List.getD_eq_getElem?_getD,
        List.getElem?_eq_none (Nat.le_of_not_lt hname)]
      rfl
  · rw [hlength, hsize]
    omega

/-- Writing names over names, as `update_metadata` is modelled on names. -/
theorem overwrite_flatten {new old : List (List Byte)}
    (hnew : ∀ name ∈ new, name.length = hashSize)
    (hold : ∀ name ∈ old, name.length = hashSize) :
    overwrite new.flatten old.flatten = (overwrite new old).flatten := by
  rw [overwrite, overwrite, List.flatten_append, length_flatten_names hnew]
  congr 1
  by_cases hshort : new.length ≤ old.length
  · have hsplit := List.take_append_drop new.length old
    have hlength : (old.take new.length).flatten.length = new.length * hashSize := by
      rw [length_flatten_names fun name hmem => hold name (List.mem_of_mem_take hmem),
        List.length_take, Nat.min_eq_left hshort]
    conv_lhs => rw [← hsplit, List.flatten_append, ← hlength, List.drop_left]
  · have hlong : old.flatten.length ≤ new.length * hashSize := by
      rw [length_flatten_names hold]
      exact Nat.mul_le_mul_right _ (by omega)
    rw [List.drop_eq_nil_of_le hlong, List.drop_eq_nil_of_le (by omega)]
    rfl

end Privateer
