import Privateer.Data.Numerals
import Privateer.Data.Overwrite

/-!
# Names of blocks

`compute_hash` writes the 32 bytes of a SHA-256 digest as hexadecimal digits, two for
each byte, and `get_blocks_subdirectory` reads the first six of them back as a number.
The digest function itself is a parameter.
-/

namespace Privateer

open Numeral

/-- What `SHA256` leaves in its output. -/
structure Digest where
  bytes : List UInt8
  length_bytes : bytes.length = 32
  deriving DecidableEq

def hashSize : ℕ := 64

def hashPrefixLength : ℕ := 6

/-- Whether a character is one of those that a name consists of. -/
def IsNameDigit (character : Char) : Prop :=
  ('0' ≤ character ∧ character ≤ '9') ∨ ('a' ≤ character ∧ character ≤ 'f')

/-- A name of a block, as it stands in `_metadata` and in the names of files. -/
structure BlockName where
  text : List Char
  length_text : text.length = hashSize
  isNameDigit : ∀ character ∈ text, IsNameDigit character

/-- One step of the loop of `compute_hash`: the modifiers come before every byte. -/
def putByte (stream : OutputStream) (byte : UInt8) : OutputStream :=
  (((stream.setfill '0').setw 2).hex).put (0xff &&& byte.toUInt32).toNat

/-- The string that `compute_hash` builds from a digest. -/
def hashText (digest : Digest) : List Char :=
  (digest.bytes.foldl putByte {}).text

/-- The number that `get_blocks_subdirectory` reads from a name. -/
def blockPrefixIndex (blockHash : List Char) : Except ConversionError UInt64 := do
  let hashPrefix ← substr blockHash 0 hashPrefixLength
  stoul ('0' :: 'x' :: hashPrefix) 16

/-- The number of the subdirectory that `get_blocks_subdirectory` selects. -/
def subdirIndex (numSubdirs : UInt64) (blockHash : List Char) :
    Except ConversionError UInt64 := do
  let prefixIndex ← blockPrefixIndex blockHash
  return prefixIndex % numSubdirs

/-! ## The digits of a digest -/

def byteDigits (byte : UInt8) : List Char :=
  [(byte.toNat / 16).digitChar, (byte.toNat % 16).digitChar]

theorem putByte_text (stream : OutputStream) (byte : UInt8) :
    (putByte stream byte).text = stream.text ++ byteDigits byte := by
  have hbyte : (0xff &&& byte.toUInt32).toNat = byte.toNat := by
    have hlt := byte.toNat_lt
    rw [UInt32.toNat_and, UInt8.toNat_toUInt32, Nat.and_comm]
    exact (Nat.and_two_pow_sub_one_eq_mod _ 8).trans (Nat.mod_eq_of_lt hlt)
  change stream.text ++ _ ++ _ = _
  rw [hbyte, List.append_assoc]
  exact congrArg _ (toDigits_byte _ byte.toNat_lt)

theorem hashText_eq (digest : Digest) : hashText digest = digest.bytes.flatMap byteDigits := by
  have hrun : ∀ (bytes : List UInt8) (stream : OutputStream),
      (bytes.foldl putByte stream).text = stream.text ++ bytes.flatMap byteDigits := by
    intro bytes
    induction bytes with
    | nil => exact fun stream => (List.append_nil _).symm
    | cons byte bytes ih =>
        intro stream
        rw [List.foldl_cons, ih, putByte_text, List.flatMap_cons, List.append_assoc]
  exact hrun digest.bytes {}

theorem isNameDigit_digitChar : ∀ digit < 16, IsNameDigit digit.digitChar := by
  unfold IsNameDigit
  decide

theorem digitChar_injective : ∀ left < 16, ∀ right < 16,
    left.digitChar = right.digitChar → left = right := by
  decide

theorem byteDigits_injective : Function.Injective byteDigits := by
  intro left right heq
  have hleft := left.toNat_lt
  have hright := right.toNat_lt
  rw [byteDigits, byteDigits, List.cons_eq_cons, List.cons_eq_cons] at heq
  have hhigh := digitChar_injective _ (by omega) _ (by omega) heq.1
  have hlow := digitChar_injective _ (by omega) _ (by omega) heq.2.1
  exact UInt8.toNat_inj.mp (by omega)

/-- Bytes can be read back from digits, since each byte has two. -/
theorem flatMap_byteDigits_injective : Function.Injective (List.flatMap byteDigits) := by
  intro left
  induction left with
  | nil =>
      intro right heq
      cases right with
      | nil => rfl
      | cons byte right => cases heq
  | cons byte left ih =>
      intro right heq
      cases right with
      | nil => cases heq
      | cons other right =>
          rw [List.flatMap_cons, List.flatMap_cons] at heq
          obtain ⟨hbyte, hrest⟩ := List.append_inj heq rfl
          rw [byteDigits_injective hbyte, ih hrest]

theorem hashText_injective : Function.Injective hashText := by
  intro left right heq
  rw [hashText_eq, hashText_eq] at heq
  cases left
  cases right
  cases flatMap_byteDigits_injective heq
  rfl

theorem length_flatMap_byteDigits (bytes : List UInt8) :
    (bytes.flatMap byteDigits).length = 2 * bytes.length := by
  induction bytes with
  | nil => rfl
  | cons byte bytes ih =>
      rw [List.flatMap_cons, List.length_append, ih, List.length_cons, byteDigits]
      exact Nat.add_comm _ _

theorem length_hashText (digest : Digest) : (hashText digest).length = hashSize := by
  rw [hashText_eq, length_flatMap_byteDigits, digest.length_bytes]
  rfl

theorem isNameDigit_hashText (digest : Digest) :
    ∀ character ∈ hashText digest, IsNameDigit character := by
  intro character hmem
  rw [hashText_eq] at hmem
  obtain ⟨byte, -, hdigit⟩ := List.mem_flatMap.mp hmem
  have hbyte := byte.toNat_lt
  rcases List.mem_pair.mp hdigit with rfl | rfl
  · exact isNameDigit_digitChar _ (by omega)
  · exact isNameDigit_digitChar _ (by omega)

/-- The name of the blocks with a digest. -/
def hashName (digest : Digest) : BlockName where
  text := hashText digest
  length_text := length_hashText digest
  isNameDigit := isNameDigit_hashText digest

/-! ## Placing a name -/

/-- The first three bytes of a digest, as a big-endian number. -/
def leadingBytes (digest : Digest) : ℕ :=
  (digest.bytes.getD 0 0).toNat * 65536 + (digest.bytes.getD 1 0).toNat * 256 +
    (digest.bytes.getD 2 0).toNat

/-- Digits after the prefix `0x` are read as the number that they are in base 16. -/
theorem read_prefixed {first : ℕ} {digits : List ℕ}
    (hdigits : ∀ digit ∈ first :: digits, digit < 16) :
    read 16 ('0' :: 'x' :: (first :: digits).map Nat.digitChar) =
      some (false, ofDigits 16 (first :: digits)) := by
  have hskip : skipPrefix 16 ('0' :: 'x' :: (first :: digits).map Nat.digitChar) =
      (first :: digits).map Nat.digitChar := by
    rw [List.map_cons, skipPrefix, digitIn_digitChar _ (hdigits _ List.mem_cons_self)]
    exact if_pos ⟨rfl, rfl, .inl rfl, rfl⟩
  have hleading : leadingDigits 16 ((first :: digits).map Nat.digitChar) = first :: digits := by
    refine leadingDigits_eq ?_
    rw [List.map_map]
    exact List.map_congr_left fun digit hdigit => digitIn_digitChar _ (hdigits _ hdigit)
  have hzero : '0'.isDigit := rfl
  rw [Numeral.read, takeSign_of_isDigit hzero, hskip, hleading, if_neg (List.cons_ne_nil _ _)]

theorem leadingBytes_lt (digest : Digest) : leadingBytes digest < 2 ^ 24 := by
  have hfirst := (digest.bytes.getD 0 0).toNat_lt
  have hsecond := (digest.bytes.getD 1 0).toNat_lt
  have hthird := (digest.bytes.getD 2 0).toNat_lt
  rw [leadingBytes]
  omega

theorem take_hashText {first second third : UInt8} {rest : List UInt8}
    {hlength : (first :: second :: third :: rest).length = 32} :
    (hashText ⟨first :: second :: third :: rest, hlength⟩).take hashPrefixLength =
      [first.toNat / 16, first.toNat % 16, second.toNat / 16, second.toNat % 16,
        third.toNat / 16, third.toNat % 16].map Nat.digitChar := by
  rw [hashText_eq]
  rfl

/-- The prefix of a name is always read, and its number is the first three bytes. -/
theorem blockPrefixIndex_hashText (digest : Digest) :
    blockPrefixIndex (hashText digest) = .ok (UInt64.ofNat (leadingBytes digest)) := by
  match digest with
  | ⟨first :: second :: third :: rest, hlength⟩ =>
      have hfirst := first.toNat_lt
      have hsecond := second.toNat_lt
      have hthird := third.toNat_lt
      have hvalue : ofDigits 16 [first.toNat / 16, first.toNat % 16, second.toNat / 16,
          second.toNat % 16, third.toNat / 16, third.toNat % 16] =
          leadingBytes ⟨first :: second :: third :: rest, hlength⟩ := by
        change Nat.ofDigits 16 [third.toNat % 16, third.toNat / 16, second.toNat % 16,
          second.toNat / 16, first.toNat % 16, first.toNat / 16] =
          first.toNat * 65536 + second.toNat * 256 + third.toNat
        simp only [Nat.ofDigits_cons, Nat.ofDigits_nil]
        omega
      have hbound := leadingBytes_lt ⟨first :: second :: third :: rest, hlength⟩
      rw [blockPrefixIndex, substr, if_neg (Nat.not_lt_zero _), List.drop_zero, take_hashText]
      change stoul _ 16 = _
      rw [stoul, read_prefixed, hvalue]
      · exact if_pos (by omega)
      · intro digit hdigit
        simp only [List.mem_cons, List.not_mem_nil, or_false] at hdigit
        omega
  | ⟨[], hlength⟩ | ⟨[_], hlength⟩ | ⟨[_, _], hlength⟩ => cases hlength

/-- The subdirectory of a name is the one with the number of the first three bytes. -/
theorem subdirIndex_hashText (numSubdirs : UInt64) (digest : Digest) :
    subdirIndex numSubdirs (hashText digest) =
      .ok (UInt64.ofNat (leadingBytes digest) % numSubdirs) := by
  rw [subdirIndex, blockPrefixIndex_hashText]
  rfl

/-! ## Names as a type -/

/-- The number that the leading digits of a name stand for. -/
def BlockName.prefixIndex (name : BlockName) : ℕ :=
  match blockPrefixIndex name.text with
  | .error _ => 0
  | .ok index => index.toNat

theorem prefixIndex_hashName (digest : Digest) :
    (hashName digest).prefixIndex = leadingBytes digest := by
  have hbound := leadingBytes_lt digest
  change (match blockPrefixIndex (hashText digest) with
    | .error _ => 0
    | .ok index => index.toNat) = _
  rw [blockPrefixIndex_hashText]
  exact Nat.mod_eq_of_lt (by omega)

/-- `EMPTY_BLOCK_HASH`. -/
def emptyBlockName : BlockName where
  text := List.replicate hashSize '0'
  length_text := List.length_replicate
  isNameDigit := fun _ hmem => by
    rw [List.eq_of_mem_replicate hmem]
    exact isNameDigit_digitChar 0 (by omega)

end Privateer
