import Mathlib.Tactic

/-!
# Two lists that share out a set

A cache keeps the members of a finite set on two lists, most recent first: the
clean members and the dirty ones.  `Shared clean dirty resident` says that the
lists have no duplicates, are disjoint and cover the set exactly; it is kept by
pushing a new member, by moving a member between the lists and by dropping the
last member of a list.
-/

namespace Privateer

variable {A : Type*}

/-- The two lists share out the members of `resident`. -/
structure Shared (clean dirty : List A) (resident : Finset A) : Prop where
  nodup : (clean ++ dirty).Nodup
  mem_iff : ∀ member, member ∈ resident ↔ member ∈ clean ∨ member ∈ dirty

/-- `list::remove`: every occurrence goes. -/
def removeAll [DecidableEq A] (member : A) (members : List A) : List A :=
  members.filter (· ≠ member)

@[simp]
theorem mem_removeAll [DecidableEq A] {member other : A} {members : List A} :
    other ∈ removeAll member members ↔ other ∈ members ∧ other ≠ member := by
  simp [removeAll]

namespace Shared

variable {clean dirty : List A} {resident : Finset A} {member : A}

theorem empty : Shared ([] : List A) [] ∅ := ⟨List.nodup_nil, by simp⟩

theorem not_mem_dirty (hshared : Shared clean dirty resident) (hclean : member ∈ clean) :
    member ∉ dirty := fun hdirty =>
  List.disjoint_of_nodup_append hshared.nodup hclean hdirty

theorem nodup_dirty (hshared : Shared clean dirty resident) : dirty.Nodup :=
  (List.nodup_append.mp hshared.nodup).2.1

theorem mem_dropLast_iff {members : List A} (hnodup : members.Nodup)
    (hlast : members.getLast? = some member) (other : A) :
    other ∈ members.dropLast ↔ other ∈ members ∧ other ≠ member := by
  obtain ⟨front, rfl⟩ := List.getLast?_eq_some_iff.mp hlast
  rw [List.dropLast_concat]
  have hnot : member ∉ front := fun hmember =>
    List.disjoint_of_nodup_append hnodup hmember (List.mem_singleton.mpr rfl)
  constructor
  · intro hother
    exact ⟨List.mem_append_left _ hother, fun heq => hnot (heq ▸ hother)⟩
  · rintro ⟨hother, hne⟩
    rcases List.mem_append.mp hother with hfront | hsingle
    · exact hfront
    · exact absurd (List.mem_singleton.mp hsingle) hne

/-- All dirty members become clean, in any order. -/
theorem flush (hshared : Shared clean dirty resident) {moved : List A}
    (hperm : moved.Perm dirty) : Shared (moved ++ clean) [] resident where
  nodup := by
    have hswap : (moved ++ clean).Perm (clean ++ dirty) :=
      (hperm.append_right clean).trans List.perm_append_comm
    rw [List.append_nil, hswap.nodup_iff]
    exact hshared.nodup
  mem_iff := fun other => by
    rw [hshared.mem_iff, List.mem_append, hperm.mem_iff]
    simp [or_comm]

variable [DecidableEq A]

theorem push_clean (hshared : Shared clean dirty resident) (hnew : member ∉ resident) :
    Shared (member :: clean) dirty (insert member resident) where
  nodup := by
    rw [List.cons_append, List.nodup_cons, List.mem_append, ← hshared.mem_iff]
    exact ⟨hnew, hshared.nodup⟩
  mem_iff := fun other => by
    rw [Finset.mem_insert, List.mem_cons, hshared.mem_iff, or_assoc]

theorem push_dirty (hshared : Shared clean dirty resident) (hnew : member ∉ resident) :
    Shared clean (member :: dirty) (insert member resident) where
  nodup := by
    have hperm : (clean ++ member :: dirty).Perm (member :: (clean ++ dirty)) :=
      List.perm_middle
    rw [hperm.nodup_iff, List.nodup_cons, List.mem_append, ← hshared.mem_iff]
    exact ⟨hnew, hshared.nodup⟩
  mem_iff := fun other => by
    rw [Finset.mem_insert, List.mem_cons, hshared.mem_iff, or_left_comm]

/-- A clean member becomes dirty. -/
theorem move (hshared : Shared clean dirty resident) (hclean : member ∈ clean) :
    Shared (removeAll member clean) (member :: dirty) resident where
  nodup := by
    have hperm : (removeAll member clean ++ member :: dirty).Perm
        (member :: (removeAll member clean ++ dirty)) := List.perm_middle
    have hsublist : (removeAll member clean ++ dirty).Sublist (clean ++ dirty) :=
      List.filter_sublist.append (List.Sublist.refl dirty)
    rw [hperm.nodup_iff, List.nodup_cons, List.mem_append, mem_removeAll]
    refine ⟨?_, hshared.nodup.sublist hsublist⟩
    rintro (⟨-, hne⟩ | hdirty)
    · exact hne rfl
    · exact hshared.not_mem_dirty hclean hdirty
  mem_iff := fun other => by
    rw [hshared.mem_iff, mem_removeAll, List.mem_cons]
    by_cases hother : other = member
    · simp [hother, hclean]
    · simp [hother]

theorem pop_clean (hshared : Shared clean dirty resident)
    (hlast : clean.getLast? = some member) :
    Shared clean.dropLast dirty (resident.erase member) where
  nodup := hshared.nodup.sublist
    ((List.dropLast_sublist clean).append (List.Sublist.refl dirty))
  mem_iff := fun other => by
    have hmember : member ∈ clean := List.mem_of_getLast? hlast
    have hdirty := hshared.not_mem_dirty hmember
    rw [Finset.mem_erase, hshared.mem_iff,
      mem_dropLast_iff (List.nodup_append.mp hshared.nodup).1 hlast]
    by_cases hother : other = member
    · simp [hother, hdirty]
    · simp [hother]

theorem pop_dirty (hshared : Shared clean dirty resident)
    (hlast : dirty.getLast? = some member) :
    Shared clean dirty.dropLast (resident.erase member) where
  nodup := hshared.nodup.sublist
    ((List.Sublist.refl clean).append (List.dropLast_sublist dirty))
  mem_iff := fun other => by
    have hmember : member ∈ dirty := List.mem_of_getLast? hlast
    have hclean : member ∉ clean := fun h => hshared.not_mem_dirty h hmember
    rw [Finset.mem_erase, hshared.mem_iff, mem_dropLast_iff hshared.nodup_dirty hlast]
    by_cases hother : other = member
    · simp [hother, hclean]
    · simp [hother]

end Shared

end Privateer
