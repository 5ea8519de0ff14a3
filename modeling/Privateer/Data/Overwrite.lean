import Mathlib.Tactic

/-!
# Overwriting a prefix

A positional write at offset zero replaces the first entries of a file and
leaves the rest; a shorter file grows.  A read past the end of a file yields a
default entry.
-/

namespace Privateer

variable {A : Type*}

/-- The file `old` after `new` was written at its start. -/
def overwrite (new old : List A) : List A :=
  new ++ old.drop new.length

/-- The file cut or filled up to `length` entries. -/
def resize (fill : A) (length : ℕ) (old : List A) : List A :=
  old.take length ++ List.replicate (length - old.length) fill

@[simp]
theorem length_overwrite (new old : List A) :
    (overwrite new old).length = max new.length old.length := by
  simp only [overwrite, List.length_append, List.length_drop]
  omega

@[simp]
theorem length_resize (fill : A) (length : ℕ) (old : List A) :
    (resize fill length old).length = length := by
  simp only [resize, List.length_append, List.length_take, List.length_replicate]
  omega

@[simp]
theorem overwrite_nil (new : List A) : overwrite new [] = new := by
  simp [overwrite]

theorem overwrite_of_length_le {new old : List A} (hlength : old.length ≤ new.length) :
    overwrite new old = new := by
  simp [overwrite, List.drop_eq_nil_of_le hlength]

theorem resize_of_length_eq (fill : A) {length : ℕ} {old : List A}
    (hlength : old.length = length) : resize fill length old = old := by
  simp [resize, hlength]

theorem getD_overwrite (new old : List A) (index : ℕ) (default : A) :
    (overwrite new old).getD index default =
      if index < new.length then new.getD index default else old.getD index default := by
  simp only [overwrite, List.getD_eq_getElem?_getD]
  by_cases hindex : index < new.length
  · rw [if_pos hindex, List.getElem?_append_left hindex]
  · rw [if_neg hindex, List.getElem?_append_right (by omega), List.getElem?_drop]
    congr 2
    omega

/-- Overwriting changes nothing exactly when the new entries are there already. -/
theorem overwrite_eq_self_iff {new old : List A} : overwrite new old = old ↔ new <+: old := by
  constructor
  · exact fun hsame => ⟨_, hsame⟩
  · rintro ⟨rest, rfl⟩
    rw [overwrite, List.drop_left]

theorem mem_overwrite {new old : List A} {entry : A} (hentry : entry ∈ overwrite new old) :
    entry ∈ new ∨ entry ∈ old := by
  rcases List.mem_append.mp hentry with hnew | hold
  · exact .inl hnew
  · exact .inr (List.mem_of_mem_drop hold)

end Privateer
