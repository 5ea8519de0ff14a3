import Mathlib.Tactic

/-!
# A region cut into blocks

An array that is indexed without bound is cut into blocks of one size.  Writing
an entry of the array writes it in its block and leaves the other blocks.
-/

namespace Privateer

variable {A : Type*}

/-- The entries of one block of a region. -/
def blockOf (blockSize : ℕ) (region : ℕ → A) (block : ℕ) : List A :=
  (List.range blockSize).map fun position => region (block * blockSize + position)

@[simp]
theorem length_blockOf (blockSize : ℕ) (region : ℕ → A) (block : ℕ) :
    (blockOf blockSize region block).length = blockSize := by
  simp [blockOf]

theorem getD_blockOf {blockSize : ℕ} (hpos : 0 < blockSize) (region : ℕ → A) (offset : ℕ)
    (default : A) :
    (blockOf blockSize region (offset / blockSize)).getD (offset % blockSize) default =
      region offset := by
  have hposition := Nat.mod_lt offset hpos
  have hoffset := Nat.div_add_mod' offset blockSize
  simp [blockOf, hposition, hoffset]

/-- A block is known by its entries. -/
theorem blockOf_eq_of_getD {blockSize block : ℕ} {region : ℕ → A} {content : List A}
    {default : A} (hlength : content.length = blockSize)
    (hentries : ∀ position < blockSize,
      region (block * blockSize + position) = content.getD position default) :
    blockOf blockSize region block = content := by
  apply List.ext_getElem
  · rw [length_blockOf, hlength]
  · intro position hleft hright
    have hposition : position < blockSize := by rwa [length_blockOf] at hleft
    simp [blockOf, hentries position hposition, hright]

theorem blockOf_update_self (blockSize : ℕ) (region : ℕ → A) (offset : ℕ) (value : A) :
    blockOf blockSize (Function.update region offset value) (offset / blockSize) =
      (blockOf blockSize region (offset / blockSize)).set (offset % blockSize) value := by
  apply List.ext_getElem
  · simp
  · intro position hleft hright
    have hposition : position < blockSize := by rwa [length_blockOf] at hleft
    have hoffset := Nat.div_add_mod' offset blockSize
    simp only [blockOf, List.getElem_map, List.getElem_range, List.getElem_set,
      Function.update_apply]
    by_cases hhere : offset % blockSize = position
    · rw [if_pos (by omega), if_pos hhere]
    · rw [if_neg (by omega), if_neg hhere]

theorem blockOf_update_of_ne {blockSize : ℕ} (hpos : 0 < blockSize) (region : ℕ → A)
    {offset block : ℕ} (hne : block ≠ offset / blockSize) (value : A) :
    blockOf blockSize (Function.update region offset value) block =
      blockOf blockSize region block := by
  apply List.map_congr_left
  intro position hposition
  rw [List.mem_range] at hposition
  have hdiv : (block * blockSize + position) / blockSize = block := by
    rw [Nat.add_comm, Nat.add_mul_div_right _ _ hpos, Nat.div_eq_of_lt hposition, Nat.zero_add]
  apply Function.update_of_ne
  intro hsame
  rw [hsame] at hdiv
  exact hne hdiv.symm

/-- Writing an entry of a region writes it in its block. -/
theorem blockOf_update {blockSize : ℕ} (hpos : 0 < blockSize) (region : ℕ → A)
    (offset : ℕ) (value : A) :
    blockOf blockSize (Function.update region offset value) =
      Function.update (blockOf blockSize region) (offset / blockSize)
        ((blockOf blockSize region (offset / blockSize)).set (offset % blockSize) value) := by
  funext block
  by_cases hsame : block = offset / blockSize
  · rw [hsame, Function.update_self, blockOf_update_self]
  · rw [Function.update_of_ne hsame, blockOf_update_of_ne hpos region hsame]

end Privateer
