import Privateer.Data.Numerals
import Privateer.Datastore.Object

/-!
# Block size and capacity

The constructor without a stash path reads the block size from the environment; `create`
rounds the size of a region up to blocks.  Both compute with the 64 bits of `size_t`.  The
value of `(size_t) NAN`, which the code stores for a text that is no number, is left open by
the language and a parameter here.
-/

namespace Privateer

open Numeral

/-- `get_environment_variable`, for a variable that is not set or has a text.  Only the
exception of a text without a number is caught. -/
def getEnvironmentVariable (nanAsSize : UInt64) :
    Option (List Char) → Except ConversionError UInt64
  | none => .ok 0
  | some text =>
      match stoi text with
      | .ok value => .ok (UInt64.ofInt value)
      | .error .invalidArgument => .ok nanAsSize
      | .error .outOfRange => .error .outOfRange

def defaultBlockSize : UInt64 := UInt64.ofNat fileGranularityDefaultBytes

/-- `init_block_size` of a new object.  No value of `size_t` is a NaN after its conversion to
`double`. -/
def initBlockSizeFrom (nanAsSize : UInt64) (blockSizeText numBlocksText : Option (List Char)) :
    Except ConversionError UInt64 := do
  let blockSize ← getEnvironmentVariable nanAsSize blockSizeText
  if blockSize = 0 then
    let numBlocks ← getEnvironmentVariable nanAsSize numBlocksText
    if numBlocks = 0 then return defaultBlockSize else return blockSize
  else return blockSize

/-- The constructors of `Privateer`. -/
inductive Constructor where
  | withoutStash
  | withStash
  deriving DecidableEq

/-- The block size after a constructor with action `CREATE`. -/
def Constructor.blockSize (constructor : Constructor) (nanAsSize : UInt64)
    (blockSizeText numBlocksText : Option (List Char)) : Except ConversionError UInt64 :=
  match constructor with
  | .withoutStash => initBlockSizeFrom nanAsSize blockSizeText numBlocksText
  | .withStash => .ok 0

/-- The rounding of the create constructor; `none` is a division by zero. -/
def roundedCapacity (regionMaxCapacity blockSize : UInt64) : Option UInt64 :=
  if blockSize = 0 then none
  else if regionMaxCapacity % blockSize ≠ 0 ∧ regionMaxCapacity ≠ 0 then
    some ((regionMaxCapacity / blockSize + 1) * blockSize)
  else some regionMaxCapacity

/-- The block size that the environment asks for: a decimal number in the positive range of
`int`, or else the default. -/
def requestedBlockSize (blockSizeText : Option (List Char)) : UInt64 :=
  match blockSizeText.bind decimalValue with
  | none => defaultBlockSize
  | some value => if 1 ≤ value ∧ value < 2 ^ 31 then UInt64.ofNat value else defaultBlockSize

/-- `create` reaches the rounding with the requested block size and rounds exactly. -/
def SetsUp (nanAsSize : UInt64) (constructor : Constructor)
    (blockSizeText numBlocksText : Option (List Char)) (regionSize : UInt64) : Prop :=
  ∃ blockSize capacity,
    constructor.blockSize nanAsSize blockSizeText numBlocksText = .ok blockSize ∧
    0 < blockSize ∧ blockSize = requestedBlockSize blockSizeText ∧
    roundedCapacity regionSize blockSize = some capacity ∧
    ∀ least : ℕ, IsLeast {size | blockSize.toNat ∣ size ∧ regionSize.toNat ≤ size} least →
      least < 2 ^ 64 → capacity.toNat = least

/-! ## Rounding -/

/-- A size that is no multiple is rounded up to the next one. -/
theorem isLeast_roundUp {size block : ℕ} (hblock : 0 < block) (hrest : size % block ≠ 0) :
    IsLeast {multiple | block ∣ multiple ∧ size ≤ multiple} ((size / block + 1) * block) := by
  have hsplit := Nat.div_add_mod size block
  have hmod := Nat.mod_lt size hblock
  constructor
  · refine ⟨Nat.dvd_mul_left _ _, ?_⟩
    rw [Nat.add_one_mul, Nat.mul_comm]
    omega
  · rintro multiple ⟨⟨count, rfl⟩, hle⟩
    have hcount : size / block < count := by
      have hproduct : block * (size / block) < block * count := by omega
      exact lt_of_mul_lt_mul_left hproduct (Nat.zero_le _)
    rw [Nat.mul_comm block]
    exact Nat.mul_le_mul_right _ hcount

theorem roundedCapacity_least {regionSize blockSize : UInt64} (hpos : 0 < blockSize) :
    ∃ capacity, roundedCapacity regionSize blockSize = some capacity ∧
      ∀ least : ℕ, IsLeast {size | blockSize.toNat ∣ size ∧ regionSize.toNat ≤ size} least →
        least < 2 ^ 64 → capacity.toNat = least := by
  have hblock : 0 < blockSize.toNat := UInt64.lt_iff_toNat_lt.mp hpos
  have hne : blockSize ≠ 0 := by
    rintro rfl
    exact absurd hblock (lt_irrefl 0)
  have hzero : regionSize % blockSize = 0 ↔ regionSize.toNat % blockSize.toNat = 0 := by
    rw [← UInt64.toNat_inj, UInt64.toNat_mod, UInt64.toNat_zero]
  rw [roundedCapacity, if_neg hne]
  by_cases hround : regionSize % blockSize ≠ 0 ∧ regionSize ≠ 0
  · rw [if_pos hround]
    refine ⟨_, rfl, fun least hleast hfits => ?_⟩
    have hvalue := hleast.unique (isLeast_roundUp hblock (hzero.not.mp hround.1))
    rw [hvalue] at hfits ⊢
    have hcount : regionSize.toNat / blockSize.toNat + 1 < 2 ^ 64 :=
      lt_of_le_of_lt (Nat.le_mul_of_pos_right _ hblock) hfits
    rw [UInt64.toNat_mul, UInt64.toNat_add, UInt64.toNat_div, UInt64.toNat_one,
      Nat.mod_eq_of_lt hcount, Nat.mod_eq_of_lt hfits]
  · rw [if_neg hround]
    refine ⟨_, rfl, fun least hleast hfits => ?_⟩
    have hdvd : blockSize.toNat ∣ regionSize.toNat := by
      by_cases hmultiple : regionSize % blockSize = 0
      · exact Nat.dvd_of_mod_eq_zero (hzero.mp hmultiple)
      · have hempty : regionSize = 0 := by
          by_contra hsome
          exact hround ⟨hmultiple, hsome⟩
        rw [hempty]
        exact Nat.dvd_zero _
    exact le_antisymm hleast.1.2 (hleast.2 ⟨hdvd, le_rfl⟩)

/-! ## Reading the environment -/

/-- What the environment gives for a variable: zero when it is not set, the value of the
number at the start of its text, or whatever `(size_t) NAN` is. -/
inductive ReadsAs (nanAsSize : UInt64) : Option (List Char) → UInt64 → Prop
  | unset : ReadsAs nanAsSize none 0
  | number {text : List Char} {value : ℤ} (hvalue : stoi text = .ok value) :
      ReadsAs nanAsSize (some text) (UInt64.ofInt value)
  | noNumber {text : List Char} (hnone : stoi text = .error .invalidArgument) :
      ReadsAs nanAsSize (some text) nanAsSize

theorem readsAs_iff {nanAsSize value : UInt64} {text : Option (List Char)} :
    ReadsAs nanAsSize text value ↔ getEnvironmentVariable nanAsSize text = .ok value := by
  constructor
  · rintro (_ | hvalue | hnone)
    · rfl
    · rw [getEnvironmentVariable, hvalue]
    · rw [getEnvironmentVariable, hnone]
  · intro hread
    cases text with
    | none => cases hread; exact .unset
    | some text =>
        rw [getEnvironmentVariable] at hread
        cases hstoi : stoi text with
        | ok number =>
            rw [hstoi] at hread
            cases hread
            exact .number hstoi
        | error error =>
            rw [hstoi] at hread
            cases error with
            | invalidArgument => cases hread; exact .noNumber hstoi
            | outOfRange => cases hread

/-- A decimal number in the positive range of `int` is read as it is. -/
theorem getEnvironmentVariable_decimal {nanAsSize : UInt64} {text : List Char} {value : ℕ}
    (hvalue : decimalValue text = some value) (hbound : value < 2 ^ 31) :
    getEnvironmentVariable nanAsSize (some text) = .ok (UInt64.ofNat value) := by
  have hread : stoi text = .ok value := by
    rw [stoi, read_of_decimalValue hvalue]
    exact if_pos ⟨by simp only [Bool.false_eq_true, if_false]; omega,
      by simp only [Bool.false_eq_true, if_false]; omega⟩
  rw [getEnvironmentVariable, hread]
  refine congrArg (fun number => Except.ok (UInt64.ofNat number)) ?_
  omega

/-! ## When the set-up is right -/

/-- The constructor is the one without a stash path, and the block size in the environment
is a decimal number in the positive range of `int`, or reads as the default, or reads as zero
as the number of blocks does. -/
def Readable (nanAsSize : UInt64) (constructor : Constructor)
    (blockSizeText numBlocksText : Option (List Char)) : Prop :=
  constructor = .withoutStash ∧
    ((∃ value, blockSizeText.bind decimalValue = some value ∧ 1 ≤ value ∧ value < 2 ^ 31) ∨
      ReadsAs nanAsSize blockSizeText defaultBlockSize ∨
      (ReadsAs nanAsSize blockSizeText 0 ∧ ReadsAs nanAsSize numBlocksText 0))

variable {nanAsSize blockSize regionSize : UInt64} {constructor : Constructor}
variable {blockSizeText numBlocksText : Option (List Char)}

theorem requestedBlockSize_pos (blockSizeText : Option (List Char)) :
    0 < requestedBlockSize blockSizeText := by
  rw [requestedBlockSize]
  cases blockSizeText.bind decimalValue with
  | none => decide
  | some value =>
      dsimp only
      by_cases hrange : 1 ≤ value ∧ value < 2 ^ 31
      · rw [if_pos hrange, UInt64.lt_iff_toNat_lt, UInt64.toNat_ofNat',
          Nat.mod_eq_of_lt (by omega)]
        exact hrange.1
      · rw [if_neg hrange]
        decide

/-- Where the block size is the requested one, the rest of the set-up is right. -/
theorem setsUp_iff : SetsUp nanAsSize constructor blockSizeText numBlocksText regionSize ↔
    constructor.blockSize nanAsSize blockSizeText numBlocksText =
      .ok (requestedBlockSize blockSizeText) := by
  constructor
  · rintro ⟨blockSize, capacity, hblockSize, -, rfl, -⟩
    exact hblockSize
  · intro hblockSize
    have hpos := requestedBlockSize_pos blockSizeText
    obtain ⟨capacity, hcapacity, hleast⟩ := roundedCapacity_least hpos
    exact ⟨_, capacity, hblockSize, hpos, rfl, hcapacity, hleast⟩

/-- What `init_block_size` yields is the default exactly if the block size reads as the
default, or both variables read as zero. -/
theorem initBlockSizeFrom_eq_default :
    initBlockSizeFrom nanAsSize blockSizeText numBlocksText = .ok defaultBlockSize ↔
      ReadsAs nanAsSize blockSizeText defaultBlockSize ∨
        (ReadsAs nanAsSize blockSizeText 0 ∧ ReadsAs nanAsSize numBlocksText 0) := by
  have hdefault : (0 : UInt64) ≠ defaultBlockSize := by decide
  rw [readsAs_iff, readsAs_iff, readsAs_iff, initBlockSizeFrom]
  cases hblock : getEnvironmentVariable nanAsSize blockSizeText with
  | error error =>
      constructor
      · exact nofun
      · rintro (heq | ⟨heq, -⟩) <;> cases heq
  | ok blockSize =>
      change (if blockSize = 0 then _ else _) = _ ↔ _
      by_cases hzero : blockSize = 0
      · subst hzero
        rw [if_pos rfl]
        cases hblocks : getEnvironmentVariable nanAsSize numBlocksText with
        | error error =>
            constructor
            · exact nofun
            · rintro (heq | ⟨-, heq⟩)
              · exact absurd (Except.ok.inj heq) hdefault
              · cases heq
        | ok numBlocks =>
            change (if numBlocks = 0 then _ else _) = _ ↔ _
            by_cases hnone : numBlocks = 0
            · rw [if_pos hnone, hnone]
              exact iff_of_true rfl (.inr ⟨rfl, rfl⟩)
            · rw [if_neg hnone]
              constructor
              · exact fun heq => absurd (Except.ok.inj heq) hdefault
              · rintro (heq | ⟨-, heq⟩)
                · exact absurd (Except.ok.inj heq) hdefault
                · exact absurd (Except.ok.inj heq) hnone
      · rw [if_neg hzero]
        constructor
        · exact .inl
        · rintro (heq | ⟨heq, -⟩)
          · exact heq
          · exact absurd (Except.ok.inj heq) hzero

/-- Block size and capacity are set up as requested, for a region of any size, exactly when
the environment is readable and the constructor the one without a stash path. -/
theorem setsUp_iff_readable (nanAsSize : UInt64) (constructor : Constructor)
    (blockSizeText numBlocksText : Option (List Char)) (regionSize : UInt64) :
    SetsUp nanAsSize constructor blockSizeText numBlocksText regionSize ↔
      Readable nanAsSize constructor blockSizeText numBlocksText := by
  rw [setsUp_iff, Readable]
  cases constructor with
  | withStash =>
      have hpos := requestedBlockSize_pos blockSizeText
      constructor
      · intro heq
        rw [← Except.ok.inj heq] at hpos
        exact absurd hpos (UInt64.lt_irrefl 0)
      · exact fun hreadable => nomatch hreadable.1
  | withoutStash =>
      change initBlockSizeFrom nanAsSize blockSizeText numBlocksText = _ ↔ _
      by_cases hrange : ∃ value,
          blockSizeText.bind decimalValue = some value ∧ 1 ≤ value ∧ value < 2 ^ 31
      · obtain ⟨value, hvalue, hpos, hbound⟩ := hrange
        refine iff_of_true ?_ ⟨rfl, .inl ⟨value, hvalue, hpos, hbound⟩⟩
        obtain ⟨text, rfl, hdecimal⟩ := Option.bind_eq_some_iff.mp hvalue
        have hread : getEnvironmentVariable nanAsSize (some text) = .ok (UInt64.ofNat value) :=
          getEnvironmentVariable_decimal hdecimal hbound
        have hne : UInt64.ofNat value ≠ 0 := by
          rw [Ne, ← UInt64.toNat_inj, UInt64.toNat_ofNat', Nat.mod_eq_of_lt (by omega)]
          exact Nat.pos_iff_ne_zero.mp hpos
        rw [requestedBlockSize, hvalue, initBlockSizeFrom, hread]
        dsimp only
        rw [if_pos ⟨hpos, hbound⟩]
        exact if_neg hne
      · have hdefault : requestedBlockSize blockSizeText = defaultBlockSize := by
          rw [requestedBlockSize]
          cases hvalue : blockSizeText.bind decimalValue with
          | none => rfl
          | some value =>
              exact if_neg fun hbounds => hrange ⟨value, hvalue, hbounds⟩
        rw [hdefault, initBlockSizeFrom_eq_default]
        exact ⟨fun hreads => ⟨rfl, .inr hreads⟩, fun hreadable =>
          hreadable.2.resolve_left hrange⟩

/-- The constructor with a stash path leaves the block size at zero, whatever the
environment says; the other one does not survive a number that is no `int`. -/
theorem withStash_divides_by_zero :
    Constructor.withStash.blockSize 0 (some ['4', '0', '9', '6']) none = .ok 0 ∧
      roundedCapacity 8192 0 = none ∧
      Constructor.withoutStash.blockSize 0 (some "99999999999".toList) none =
        .error .outOfRange ∧
      ¬ SetsUp 0 .withStash (some ['4', '0', '9', '6']) none 8192 := by
  refine ⟨rfl, rfl, by decide, ?_⟩
  rintro ⟨blockSize, capacity, heq, hpos, -⟩
  rw [← Except.ok.inj heq] at hpos
  exact absurd hpos (UInt64.lt_irrefl 0)

/-- An object is constructed with the size that the environment gives, read as numbers. -/
theorem initBlockSizeFrom_eq {numBlocks : UInt64}
    (hblockSize : ReadsAs nanAsSize blockSizeText blockSize)
    (hnumBlocks : ReadsAs nanAsSize numBlocksText numBlocks) :
    initBlockSizeFrom nanAsSize blockSizeText numBlocksText =
      .ok (UInt64.ofNat (initBlockSize blockSize.toNat numBlocks.toNat)) := by
  rw [readsAs_iff] at hblockSize hnumBlocks
  have hzero : ∀ value : UInt64, value.toNat = 0 ↔ value = 0 :=
    fun value => by rw [← UInt64.toNat_inj, UInt64.toNat_zero]
  rw [initBlockSizeFrom, hblockSize, initBlockSize]
  change (if blockSize = 0 then _ else _) = _
  by_cases hunset : blockSize = 0
  · rw [if_pos hunset, if_pos ((hzero _).mpr hunset), hnumBlocks]
    change (if numBlocks = 0 then _ else _) = _
    by_cases hnone : numBlocks = 0
    · rw [if_pos hnone, if_pos ((hzero _).mpr hnone)]
      rfl
    · rw [if_neg hnone, if_neg ((hzero _).not.mpr hnone), hunset]
      rfl
  · rw [if_neg hunset, if_neg ((hzero _).not.mpr hunset), UInt64.ofNat_toNat]
    rfl

end Privateer
