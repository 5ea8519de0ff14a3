import Privateer.Datastore.Object

/-!
# What the calls of a `Privateer` object do

No access and no commit changes the regions of an object or their registrations.  While
there is one region, every call reaches its manager; once there are two, only the last one
can still be committed or destroyed.
-/

namespace Privateer

variable {Hash : Type}

theorem Path.below_ne_nil (directory name : Path) : directory.below name ≠ [] :=
  List.append_ne_nil_of_right_ne_nil _ (List.cons_ne_nil _ _)

theorem Path.below_injective {directory name other : Path}
    (hsame : directory.below name = directory.below other) : name = other :=
  (List.cons.inj (List.append_cancel_left hsame)).2

/-- A stash directory is never a blocks directory. -/
theorem Path.stash_ne_blocks (directory other : Path) :
    directory.below stashName ≠ other.below blocksName := by
  intro hsame
  have hreverse := congrArg List.reverse hsame
  simp [Path.below, stashName, blocksName] at hreverse

namespace SigsegvHandlerDispatcher

/-- One of the maps has an entry for the address. -/
def Registers (dispatcher : SigsegvHandlerDispatcher) (addr : ℕ) : Prop :=
  addr ∈ dispatcher.regions ∨ addr ∈ dispatcher.regionManagers

theorem registers_addVirtualMemoryManager {dispatcher : SigsegvHandlerDispatcher}
    {addr other length vmm : ℕ} :
    (dispatcher.addVirtualMemoryManager addr length vmm).Registers other ↔
      other = addr ∨ dispatcher.Registers other := by
  simp only [Registers, addVirtualMemoryManager, Std.TreeMap.mem_insertIfNew,
    Std.LawfulEqCmp.compare_eq_iff_eq, @eq_comm ℕ addr other]
  tauto

theorem registers_removeVirtualMemoryManager {dispatcher : SigsegvHandlerDispatcher}
    {addr other : ℕ} :
    (dispatcher.removeVirtualMemoryManager addr).Registers other ↔
      other ≠ addr ∧ dispatcher.Registers other := by
  simp only [Registers, removeVirtualMemoryManager, Std.TreeMap.mem_erase, ne_eq,
    Std.LawfulEqCmp.compare_eq_iff_eq, @eq_comm ℕ addr other]
  tauto

end SigsegvHandlerDispatcher

namespace PrivateerObject

variable {object object' : PrivateerObject Hash} {index : ℕ}

/-- The start addresses of all regions. -/
def starts (object : PrivateerObject Hash) : List ℕ :=
  object.managers.map MappedManager.regionStartAddress

/-- How the pointer and the dispatcher follow the regions. -/
structure Tracks (object : PrivateerObject Hash) : Prop where
  vmm : object.vmm = if object.starts = [] then none else some (object.starts.length - 1)
  registered : ∀ addr ∈ object.starts, object.dispatcher.Registers addr
  nodup : object.starts.Nodup

/-- The same regions under the same registrations. -/
structure SameRegions (object object' : PrivateerObject Hash) : Prop where
  vmm : object'.vmm = object.vmm
  starts : object'.starts = object.starts
  dispatcher : object'.dispatcher = object.dispatcher

theorem Tracks.keep (htracks : object.Tracks) (hsame : object.SameRegions object') :
    object'.Tracks where
  vmm := by rw [hsame.vmm, hsame.starts, htracks.vmm]
  registered := by
    rw [hsame.starts, hsame.dispatcher]
    exact htracks.registered
  nodup := by
    rw [hsame.starts]
    exact htracks.nodup

theorem starts_addManager {manager : SigactionVirtualMemoryManager Hash} {address length : ℕ} :
    (object.addManager manager address length).starts = object.starts ++ [address] := by
  simp [starts, addManager]

/-- A new region is registered, and the pointer moves to its manager. -/
theorem Tracks.addManager (htracks : object.Tracks)
    {manager : SigactionVirtualMemoryManager Hash} {address length : ℕ}
    (hunmapped : address ∉ object.starts) :
    (object.addManager manager address length).Tracks where
  vmm := by
    rw [starts_addManager, if_neg (by simp), List.length_append, List.length_singleton,
      Nat.add_sub_cancel, starts, List.length_map]
    rfl
  registered := by
    intro addr haddr
    rw [starts_addManager, List.mem_append, List.mem_singleton] at haddr
    refine SigsegvHandlerDispatcher.registers_addVirtualMemoryManager.mpr ?_
    rcases haddr with hold | hnew
    · exact .inr (htracks.registered addr hold)
    · exact .inl hnew
  nodup := by
    rw [starts_addManager, List.nodup_append_comm, List.singleton_append, List.nodup_cons]
    exact ⟨hunmapped, htracks.nodup⟩

/-- A manager is replaced by one with the same region. -/
theorem sameRegions_setManager {mapped : MappedManager Hash}
    (hmapped : object.managers[index]? = some mapped)
    (manager : SigactionVirtualMemoryManager Hash) :
    object.SameRegions (object.setManager index { mapped with manager := manager }) where
  vmm := rfl
  starts := by
    obtain ⟨hindex, rfl⟩ := List.getElem?_eq_some_iff.mp hmapped
    rw [starts, starts, setManager, List.map_set]
    change (object.managers.map MappedManager.regionStartAddress).set index
      object.managers[index].regionStartAddress = _
    rw [← List.map_set, List.set_getElem_self]
  dispatcher := rfl

theorem SameRegions.refl (object : PrivateerObject Hash) : object.SameRegions object :=
  ⟨rfl, rfl, rfl⟩

theorem SameRegions.trans {first second third : PrivateerObject Hash}
    (hfirst : first.SameRegions second) (hsecond : second.SameRegions third) :
    first.SameRegions third where
  vmm := hsecond.vmm.trans hfirst.vmm
  starts := hsecond.starts.trans hfirst.starts
  dispatcher := hsecond.dispatcher.trans hfirst.dispatcher

variable [DecidableEq Hash] {build : Build Hash} {files files' : FileSystem Hash}

/-! ## Accesses and commits -/

theorem sameRegions_of_access {offset : ℕ} {isWrite : Bool}
    (hrun : (object.access build index offset isWrite).run FileSystem.answer files =
      (.returned object', files')) : object.SameRegions object' := by
  unfold access at hrun
  cases hmapped : object.managers[index]? with
  | none =>
      rw [hmapped] at hrun
      cases (Prod.mk.inj hrun).1
  | some mapped =>
      simp only [hmapped] at hrun
      split_ifs at hrun with hpermits
      · cases (Prod.mk.inj hrun).1
        exact SameRegions.refl object
      · cases htarget : object.dispatcher.handlerOf (mapped.regionStartAddress + offset) with
        | none =>
            rw [htarget] at hrun
            cases (Prod.mk.inj hrun).1
        | some target =>
            simp only [htarget] at hrun
            cases hhandling : object.managers[target]? with
            | none =>
                rw [hhandling] at hrun
                cases (Prod.mk.inj hrun).1
            | some handling =>
                simp only [hhandling] at hrun
                obtain ⟨handled, between, -, hlast⟩ := Program.run_bind_returned hrun
                have hsame := sameRegions_setManager hhandling handled
                generalize object.setManager target { handling with manager := handled } =
                  retried at hlast hsame
                cases hagain : retried.managers[index]? with
                | none =>
                    rw [hagain] at hlast
                    cases (Prod.mk.inj hlast).1
                | some again =>
                    simp only [hagain] at hlast
                    split_ifs at hlast
                    · cases (Prod.mk.inj hlast).1
                      exact hsame
                    · cases (Prod.mk.inj hlast).1

theorem readByte_returned {offset : ℕ} {byte : Byte}
    (hrun : (object.readByte build index offset).run FileSystem.answer files =
      (.returned (byte, object'), files')) :
    (object.access build index offset false).run FileSystem.answer files =
        (.returned object', files') ∧
      ∃ mapped, object'.managers[index]? = some mapped ∧
        byte = (mapped.memory (offset / mapped.blockSize)).getD (offset % mapped.blockSize) 0 := by
  obtain ⟨accessed, between, haccess, hlast⟩ := Program.run_bind_returned hrun
  cases hmapped : accessed.managers[index]? with
  | none =>
      rw [hmapped] at hlast
      cases (Prod.mk.inj hlast).1
  | some mapped =>
      simp only [hmapped] at hlast
      cases (Prod.mk.inj hlast).1
      cases (Prod.mk.inj hlast).2
      exact ⟨haccess, mapped, hmapped, rfl⟩

theorem writeByte_returned {offset : ℕ} {byte : Byte}
    (hrun : (object.writeByte build index offset byte).run FileSystem.answer files =
      (.returned object', files')) :
    ∃ accessed mapped, (object.access build index offset true).run FileSystem.answer files =
        (.returned accessed, files') ∧ accessed.managers[index]? = some mapped ∧
      object' = accessed.setManager index
        { mapped with
          memory := Function.update mapped.memory (offset / mapped.blockSize)
            ((mapped.memory (offset / mapped.blockSize)).set (offset % mapped.blockSize) byte) } := by
  obtain ⟨accessed, between, haccess, hlast⟩ := Program.run_bind_returned hrun
  cases hmapped : accessed.managers[index]? with
  | none =>
      rw [hmapped] at hlast
      cases (Prod.mk.inj hlast).1
  | some mapped =>
      simp only [hmapped] at hlast
      cases (Prod.mk.inj hlast).1
      cases (Prod.mk.inj hlast).2
      exact ⟨accessed, mapped, haccess, hmapped, rfl⟩

/-- `msync` and the destructor work on the manager that `vmm` points to. -/
theorem msync_returned {schedule : MsyncSchedule}
    (hrun : (object.msync build schedule).run FileSystem.answer files =
      (.returned object', files')) :
    ∃ index mapped committed, object.managers[index]? = some mapped ∧
      (SigactionVirtualMemoryManager.msync build mapped.manager schedule).run FileSystem.answer
        files = (.returned committed, files') ∧
      object' = object.setManager index { mapped with manager := committed } := by
  unfold msync at hrun
  cases hvmm : object.vmm with
  | none =>
      rw [hvmm] at hrun
      cases (Prod.mk.inj hrun).1
  | some index =>
      simp only [hvmm] at hrun
      cases hmapped : object.managers[index]? with
      | none =>
          rw [hmapped] at hrun
          cases (Prod.mk.inj hrun).1
      | some mapped =>
          simp only [hmapped] at hrun
          obtain ⟨committed, between, hmsync, hlast⟩ := Program.run_bind_returned hrun
          cases (Prod.mk.inj hlast).1
          cases (Prod.mk.inj hlast).2
          exact ⟨index, mapped, committed, hmapped, hmsync, rfl⟩

theorem destroy_returned {schedule : MsyncSchedule} {dispatcher : SigsegvHandlerDispatcher}
    (hrun : (object.destroy build schedule).run FileSystem.answer files =
      (.returned dispatcher, files')) :
    ∃ index mapped, object.vmm = some index ∧ object.managers[index]? = some mapped ∧
      (SigactionVirtualMemoryManager.close build mapped.manager schedule).run FileSystem.answer
        files = (.returned (), files') ∧
      dispatcher = object.dispatcher.removeVirtualMemoryManager mapped.regionStartAddress := by
  unfold destroy at hrun
  cases hvmm : object.vmm with
  | none =>
      rw [hvmm] at hrun
      cases (Prod.mk.inj hrun).1
  | some index =>
      simp only [hvmm] at hrun
      cases hmapped : object.managers[index]? with
      | none =>
          rw [hmapped] at hrun
          cases (Prod.mk.inj hrun).1
      | some mapped =>
          simp only [hmapped] at hrun
          obtain ⟨closed, between, hclose, hlast⟩ := Program.run_bind_returned hrun
          cases (Prod.mk.inj hlast).1
          cases (Prod.mk.inj hlast).2
          exact ⟨index, mapped, rfl, hmapped, hclose, rfl⟩

/-! ## Objects with one region -/

section Single

variable {mapped : MappedManager Hash}

omit [DecidableEq Hash] in
theorem getElem?_single (hmanagers : object.managers = [mapped]) {other : MappedManager Hash}
    (hother : object.managers[index]? = some other) : index = 0 ∧ other = mapped := by
  rw [hmanagers] at hother
  cases index with
  | zero => exact ⟨rfl, (Option.some.inj hother).symm⟩
  | succ later => cases hother

/-- With one region, the dispatcher hands every fault to its manager. -/
theorem access_single (hmanagers : object.managers = [mapped]) {offset : ℕ} {isWrite : Bool}
    (hrun : (object.access build index offset isWrite).run FileSystem.answer files =
      (.returned object', files')) :
    index = 0 ∧ ∃ accessed, (SigactionVirtualMemoryManager.access build mapped.manager offset
        isWrite).run FileSystem.answer files = (.returned accessed, files') ∧
      object'.managers = [{ mapped with manager := accessed }] := by
  unfold access at hrun
  cases hmapped : object.managers[index]? with
  | none =>
      rw [hmapped] at hrun
      cases (Prod.mk.inj hrun).1
  | some other =>
      obtain ⟨rfl, rfl⟩ := getElem?_single hmanagers hmapped
      simp only [hmapped] at hrun
      refine ⟨rfl, ?_⟩
      unfold SigactionVirtualMemoryManager.access
      dsimp only
      split_ifs at hrun with hpermits
      · cases (Prod.mk.inj hrun).1
        cases (Prod.mk.inj hrun).2
        rw [if_pos hpermits]
        exact ⟨other.manager, rfl, hmanagers⟩
      · rw [if_neg hpermits]
        cases htarget : object.dispatcher.handlerOf (other.regionStartAddress + offset) with
        | none =>
            rw [htarget] at hrun
            cases (Prod.mk.inj hrun).1
        | some target =>
            simp only [htarget] at hrun
            cases hhandling : object.managers[target]? with
            | none =>
                rw [hhandling] at hrun
                cases (Prod.mk.inj hrun).1
            | some handling =>
                obtain ⟨rfl, rfl⟩ := getElem?_single hmanagers hhandling
                simp only [hhandling, Nat.add_sub_cancel_left] at hrun
                obtain ⟨handled, between, hhandler, hlast⟩ := Program.run_bind_returned hrun
                have hset : (object.setManager 0 { handling with manager := handled }).managers =
                    [{ handling with manager := handled }] := by
                  rw [setManager, hmanagers]
                  rfl
                simp only [hset, List.getElem?_cons_zero] at hlast
                split_ifs at hlast with hpermits'
                · cases (Prod.mk.inj hlast).1
                  cases (Prod.mk.inj hlast).2
                  refine ⟨handled, ?_, hset⟩
                  rw [Program.run_bind_of_returned hhandler, if_pos hpermits']
                  rfl
                · cases (Prod.mk.inj hlast).1

end Single

end PrivateerObject

end Privateer
