import Privateer.Datastore.Destroy
import Privateer.Logic.Runs

/-!
# Faults of one process

All `Privateer` objects of a process share the dispatcher and the action of SIGSEGV.  An
object registers the region that it creates under the size that was asked for, while the
manager rounds the size up to whole blocks; its destructor sets an action for the whole
process whose handler it never fills in.  This module follows any number of objects through
their calls and says when every fault is handed to the manager of its region.
-/

namespace Privateer

open Std (TreeMap)

namespace SigsegvHandlerDispatcher

variable {dispatcher : SigsegvHandlerDispatcher} {addr address length vmm : ℕ}

/-- The entries that the two maps have for a region. -/
def Enters (dispatcher : SigsegvHandlerDispatcher) (addr length vmm : ℕ) : Prop :=
  dispatcher.regions[addr]? = some length ∧ dispatcher.regionManagers[addr]? = some vmm

theorem Enters.registers (henters : dispatcher.Enters addr length vmm) :
    dispatcher.Registers addr :=
  .inl (TreeMap.isSome_getElem?_iff_mem.mp (Option.isSome_of_eq_some henters.1))

theorem Enters.unique {length' vmm' : ℕ} (henters : dispatcher.Enters addr length vmm)
    (henters' : dispatcher.Enters addr length' vmm') : length' = length ∧ vmm' = vmm :=
  ⟨Option.some.inj (henters'.1.symm.trans henters.1),
    Option.some.inj (henters'.2.symm.trans henters.2)⟩

/-- A fault is handed to a manager for one of the regions that it lies in. -/
theorem handlerOf_eq_some (hhandler : dispatcher.handlerOf address = some vmm) :
    ∃ addr length, dispatcher.Enters addr length vmm ∧ addr ≤ address ∧
      address < addr + length := by
  obtain ⟨region, hregion, hmanager⟩ := Option.bind_eq_some_iff.mp hhandler
  have hinside := List.find?_some hregion
  have hmember := TreeMap.mem_toList_iff_getElem?_eq_some.mp (List.mem_of_find?_eq_some hregion)
  rw [decide_eq_true_iff] at hinside
  exact ⟨region.1, region.2, ⟨hmember, hmanager⟩, hinside.1, hinside.2⟩

/-- A fault that lies in one region only is handed to the manager of that region. -/
theorem handlerOf_of_unique (henters : dispatcher.Enters addr length vmm)
    (hle : addr ≤ address) (hlt : address < addr + length)
    (hunique : ∀ other length', dispatcher.regions[other]? = some length' → other ≤ address →
      address < other + length' → other = addr) :
    dispatcher.handlerOf address = some vmm := by
  unfold handlerOf
  cases hfind : dispatcher.regions.toList.find? fun region =>
      region.1 ≤ address ∧ address < region.1 + region.2 with
  | none =>
      have hnone := List.find?_eq_none.mp hfind (addr, length)
        (TreeMap.mem_toList_iff_getElem?_eq_some.mpr henters.1)
      rw [decide_eq_true_iff] at hnone
      exact absurd ⟨hle, hlt⟩ hnone
  | some region =>
      have hinside := List.find?_some hfind
      rw [decide_eq_true_iff] at hinside
      have hmember :=
        TreeMap.mem_toList_iff_getElem?_eq_some.mp (List.mem_of_find?_eq_some hfind)
      rw [Option.bind_some, hunique _ _ hmember hinside.1 hinside.2]
      exact henters.2

/-- A region at a new address is entered beside the others. -/
theorem enters_addVirtualMemoryManager {other length' vmm' : ℕ}
    (hnew : ¬ dispatcher.Registers addr) :
    (dispatcher.addVirtualMemoryManager addr length vmm).Enters other length' vmm' ↔
      (other = addr ∧ length' = length ∧ vmm' = vmm) ∨
        (other ≠ addr ∧ dispatcher.Enters other length' vmm') := by
  rw [Registers, not_or] at hnew
  simp only [Enters, addVirtualMemoryManager, TreeMap.getElem?_insertIfNew,
    Std.LawfulEqCmp.compare_eq_iff_eq, hnew.1, hnew.2, not_false_iff, and_true]
  by_cases hsame : addr = other
  · subst hsame
    simp [eq_comm]
  · simp [hsame, Ne.symm hsame]

theorem enters_removeVirtualMemoryManager {other length' vmm' : ℕ} :
    (dispatcher.removeVirtualMemoryManager addr).Enters other length' vmm' ↔
      other ≠ addr ∧ dispatcher.Enters other length' vmm' := by
  simp only [Enters, removeVirtualMemoryManager, TreeMap.getElem?_erase,
    Std.LawfulEqCmp.compare_eq_iff_eq]
  by_cases hsame : addr = other
  · subst hsame
    simp
  · simp [hsame, Ne.symm hsame]

end SigsegvHandlerDispatcher

/-! ## Capacities -/

section Capacities

variable {Hash : Type} [DecidableEq Hash] {build : Build Hash} {files files' : FileSystem Hash}

theorem regionSize_le_roundedUp {regionSize blockSize : ℕ} (hpos : 0 < blockSize) :
    regionSize ≤ (if regionSize % blockSize ≠ 0 ∧ regionSize ≠ 0 then
      (regionSize / blockSize + 1) * blockSize else regionSize) := by
  split
  · have hdiv := Nat.div_add_mod regionSize blockSize
    have hmod := Nat.mod_lt regionSize hpos
    rw [Nat.add_mul, Nat.one_mul, Nat.mul_comm]
    omega
  · exact le_rfl

/-- Rounding up leaves the multiples of the block size as they are. -/
theorem roundedUp_eq_iff {regionSize blockSize : ℕ} (hpos : 0 < blockSize)
    (hsize : 0 < regionSize) :
    (if regionSize % blockSize ≠ 0 ∧ regionSize ≠ 0 then
      (regionSize / blockSize + 1) * blockSize else regionSize) = regionSize ↔
        blockSize ∣ regionSize := by
  rw [Nat.dvd_iff_mod_eq_zero]
  by_cases hmultiple : regionSize % blockSize = 0
  · simp [hmultiple]
  · have hdiv := Nat.div_add_mod regionSize blockSize
    have hmod := Nat.mod_lt regionSize hpos
    rw [if_pos ⟨hmultiple, hsize.ne'⟩, Nat.add_mul, Nat.one_mul, Nat.mul_comm]
    omega

/-- The capacity of a new region. -/
theorem VirtualMemoryManagerBase.create_capacity {regionSize blockSize maxMemBlocks : ℕ}
    {version blocksPath stashPath : Path} {allowOverwrite : Bool}
    {base : VirtualMemoryManagerBase Hash}
    (hrun : (VirtualMemoryManagerBase.create build regionSize blockSize maxMemBlocks version
      blocksPath stashPath allowOverwrite).run FileSystem.answer files =
        (.returned base, files')) :
    base.regionMaxCapacity = (if regionSize % blockSize ≠ 0 ∧ regionSize ≠ 0 then
      (regionSize / blockSize + 1) * blockSize else regionSize) ∧
        0 < base.regionMaxCapacity := by
  obtain ⟨⟨⟩, between, -, hrest⟩ := Program.run_bind_returned hrun
  obtain ⟨storage, between', -, hmapped⟩ := Program.run_bind_returned hrest
  obtain ⟨hcapacity, hlast⟩ := Program.run_ite_exit_returned hmapped
  cases (Prod.mk.inj hlast).1
  exact ⟨rfl, Nat.pos_of_ne_zero (of_decide_eq_true hcapacity)⟩

/-- A region that was opened is not empty. -/
theorem VirtualMemoryManagerBase.open_capacity {version stashPath : Path} {maxMemBlocks : ℕ}
    {readOnly : Bool} {base : VirtualMemoryManagerBase Hash}
    (hrun : (VirtualMemoryManagerBase.open build version stashPath maxMemBlocks readOnly).run
      FileSystem.answer files = (.returned base, files')) : 0 < base.regionMaxCapacity := by
  obtain ⟨blocksPath, between, -, hrest⟩ := Program.run_bind_returned hrun
  obtain ⟨storage, between₁, -, hopened⟩ := Program.run_bind_returned hrest
  obtain ⟨-, hsized⟩ := Program.run_ite_exit_returned hopened
  obtain ⟨metadataSize, between₂, -, hread⟩ := Program.run_bind_returned hsized
  obtain ⟨capacity, between₃, -, hmapped⟩ := Program.run_bind_returned hread
  obtain ⟨hcapacity, hloaded⟩ := Program.run_ite_exit_returned hmapped
  have hpos : 0 < capacity := Nat.pos_of_ne_zero (of_decide_eq_true hcapacity)
  obtain ⟨entries, between₄, -, hlast⟩ := Program.run_bind_returned hloaded
  cases entries with
  | none => cases (Prod.mk.inj hlast).1
  | some entries =>
      by_cases hfits : entries.length ≤ capacity / storage.blockGranularity
      · simp only [if_pos hfits] at hlast
        cases (Prod.mk.inj hlast).1
        exact hpos
      · simp only [if_neg hfits] at hlast
        cases (Prod.mk.inj hlast).1

end Capacities

/-! ## The process -/

/-- The addresses of a region. -/
def MappedManager.Contains {Hash : Type} (mapped : MappedManager Hash) (address : ℕ) : Prop :=
  mapped.regionStartAddress ≤ address ∧
    address < mapped.regionStartAddress + mapped.regionMaxCapacity

/-- The managers made so far and the ones not deleted, the dispatcher, whether its handler is
the action of SIGSEGV, the live objects and the files. -/
structure ProcessState (Hash : Type) where
  managers : List (MappedManager Hash)
  mapped : Finset ℕ
  dispatcher : SigsegvHandlerDispatcher
  handlesSigsegv : Bool
  objects : ℕ → Option (PrivateerObject Hash)
  files : FileSystem Hash

/-- A call of an object; mappings get the addresses that the kernel chose. -/
inductive ProcessRequest where
  | construct (id : ℕ)
  | create (id : ℕ) (version : Path) (regionSize maxMemBlocks : ℕ) (allowOverwrite : Bool)
      (address : ℕ)
  | «open» (id : ℕ) (version : Path) (maxMemBlocks : ℕ) (readOnly : Bool) (address : ℕ)
  | destroy (id : ℕ) (schedule : MsyncSchedule)

namespace ProcessState

variable {Hash : Type}

/-- No object yet. -/
def initial (files : FileSystem Hash) : ProcessState Hash where
  managers := []
  mapped := ∅
  dispatcher := .empty
  handlesSigsegv := false
  objects := fun _ => none
  files := files

/-- An object with the managers and the dispatcher that it shares with the others. -/
def view (state : ProcessState Hash) (object : PrivateerObject Hash) : PrivateerObject Hash :=
  { object with managers := state.managers, dispatcher := state.dispatcher }

/-- An object has made one more manager; it installs the handler of the dispatcher. -/
def mapping (state : ProcessState Hash) (id : ℕ) (object : PrivateerObject Hash)
    (files : FileSystem Hash) : ProcessState Hash where
  managers := object.managers
  mapped := insert state.managers.length state.mapped
  dispatcher := object.dispatcher
  handlesSigsegv := true
  objects := Function.update state.objects id (some object)
  files := files

/-- An object is destroyed with its last manager.  The action that it sets for SIGSEGV has no
handler. -/
def destroyed (state : ProcessState Hash) (id index : ℕ)
    (dispatcher : SigsegvHandlerDispatcher) (files : FileSystem Hash) : ProcessState Hash :=
  { state with
    mapped := state.mapped.erase index
    dispatcher := dispatcher
    handlesSigsegv := false
    objects := Function.update state.objects id none
    files := files }

/-- The manager whose handler is called for a fault. -/
def dispatch (state : ProcessState Hash) (address : ℕ) : Option ℕ :=
  if state.handlesSigsegv then state.dispatcher.handlerOf address else none

/-- The mappings of the managers do not overlap. -/
def Disjoint (state : ProcessState Hash) : Prop :=
  ∀ index ∈ state.mapped, ∀ other ∈ state.mapped, index ≠ other → ∀ mapped mapped' address,
    state.managers[index]? = some mapped → state.managers[other]? = some mapped' →
      ¬ (mapped.Contains address ∧ mapped'.Contains address)

/-- Every address of the region of a live object is dispatched to its manager, and nothing
is dispatched to a manager whose region does not contain it. -/
structure Dispatches (state : ProcessState Hash) : Prop where
  live : ∀ id object index mapped address, state.objects id = some object →
    object.vmm = some index → state.managers[index]? = some mapped →
      mapped.Contains address → state.dispatch address = some index
  contained : ∀ address index, state.dispatch address = some index → index ∈ state.mapped ∧
    ∃ mapped, state.managers[index]? = some mapped ∧ mapped.Contains address

variable [DecidableEq Hash]

/-- One call on an object.  The mappings of the process are pairwise disjoint. -/
inductive Step (build : Build Hash) :
    ProcessState Hash → ProcessRequest → ProcessState Hash → Prop
  | construct {state : ProcessState Hash} {id : ℕ} {object : PrivateerObject Hash}
      {files : FileSystem Hash} (hnew : state.objects id = none)
      (hconstructs : Constructs state.files object files) :
      Step build state (.construct id)
        { state with objects := Function.update state.objects id (some object), files := files }
  | create {state : ProcessState Hash} {id : ℕ} {object after : PrivateerObject Hash}
      {files : FileSystem Hash} {version : Path} {regionSize maxMemBlocks address : ℕ}
      {allowOverwrite : Bool} (hobject : state.objects id = some object) (hsize : 0 < regionSize)
      (hrun : ((state.view object).create build version regionSize maxMemBlocks allowOverwrite
        address).run FileSystem.answer state.files = (.returned after, files))
      (hdisjoint : (state.mapping id after files).Disjoint) :
      Step build state (.create id version regionSize maxMemBlocks allowOverwrite address)
        (state.mapping id after files)
  | «open» {state : ProcessState Hash} {id : ℕ} {object after : PrivateerObject Hash}
      {files : FileSystem Hash} {version : Path} {maxMemBlocks address : ℕ} {readOnly : Bool}
      (hobject : state.objects id = some object)
      (hrun : ((state.view object).open build version maxMemBlocks readOnly address).run
        FileSystem.answer state.files = (.returned after, files))
      (hdisjoint : (state.mapping id after files).Disjoint) :
      Step build state (.open id version maxMemBlocks readOnly address)
        (state.mapping id after files)
  | destroy {state : ProcessState Hash} {id index : ℕ} {object : PrivateerObject Hash}
      {dispatcher : SigsegvHandlerDispatcher} {files : FileSystem Hash}
      {schedule : MsyncSchedule} (hobject : state.objects id = some object)
      (hvmm : object.vmm = some index)
      (hrun : ((state.view object).destroy build schedule).run FileSystem.answer state.files =
        (.returned dispatcher, files)) :
      Step build state (.destroy id schedule) (state.destroyed id index dispatcher files)

omit [DecidableEq Hash] in
/-- A region is created in whole blocks, and an object is destroyed when no other one has a
region. -/
def Whole (state : ProcessState Hash) : ProcessRequest → Prop
  | .create id _ regionSize _ _ _ =>
      ∀ object, state.objects id = some object → object.blockSize ∣ regionSize
  | .destroy id _ => ∀ other object, other ≠ id → state.objects other = some object →
      object.vmm = none
  | _ => True

/-- How the dispatcher follows the managers that are not deleted. -/
structure Tracks (state : ProcessState Hash) : Prop where
  entered : ∀ address, state.dispatcher.Registers address →
    ∃ length index mapped, state.dispatcher.Enters address length index ∧ index ∈ state.mapped ∧
      state.managers[index]? = some mapped ∧ mapped.regionStartAddress = address ∧
        length ≤ mapped.regionMaxCapacity
  mapped : ∀ index ∈ state.mapped, ∃ mapped length, state.managers[index]? = some mapped ∧
    0 < mapped.regionMaxCapacity ∧
      state.dispatcher.Enters mapped.regionStartAddress length index
  disjoint : state.Disjoint
  owned : ∀ id object index, state.objects id = some object → object.vmm = some index →
    index ∈ state.mapped
  distinct : ∀ id other object object' index, state.objects id = some object →
    state.objects other = some object' → object.vmm = some index → object'.vmm = some index →
      id = other

omit [DecidableEq Hash]

variable {state : ProcessState Hash}

/-- The regions of live objects are registered with all of their addresses. -/
def Covers (state : ProcessState Hash) : Prop :=
  ∀ id object index mapped, state.objects id = some object → object.vmm = some index →
    state.managers[index]? = some mapped →
      state.dispatcher.Enters mapped.regionStartAddress mapped.regionMaxCapacity index

/-- The handler of the dispatcher is installed while a live object has a region. -/
def Handled (state : ProcessState Hash) : Prop :=
  ∀ id object index, state.objects id = some object → object.vmm = some index →
    state.handlesSigsegv = true

theorem Tracks.contains_start (htracks : state.Tracks) {index : ℕ} {mapped : MappedManager Hash}
    (hindex : index ∈ state.mapped) (hmapped : state.managers[index]? = some mapped) :
    mapped.Contains mapped.regionStartAddress := by
  obtain ⟨mapped', length, hmapped', hpos, -⟩ := htracks.mapped index hindex
  obtain rfl := Option.some.inj (hmapped.symm.trans hmapped')
  exact ⟨le_rfl, by omega⟩

/-- Two mappings with an address in common are one. -/
theorem Tracks.index_unique (htracks : state.Tracks) {index other address : ℕ}
    {mapped mapped' : MappedManager Hash} (hindex : index ∈ state.mapped)
    (hother : other ∈ state.mapped) (hmapped : state.managers[index]? = some mapped)
    (hmapped' : state.managers[other]? = some mapped') (hcontains : mapped.Contains address)
    (hcontains' : mapped'.Contains address) : other = index := by
  by_contra hne
  exact htracks.disjoint index hindex other hother (Ne.symm hne) mapped mapped' address hmapped
    hmapped' ⟨hcontains, hcontains'⟩

/-- A fault is never handed to a manager whose region does not contain it. -/
theorem Tracks.contained (htracks : state.Tracks) {address index : ℕ}
    (hhandler : state.dispatcher.handlerOf address = some index) : index ∈ state.mapped ∧
      ∃ mapped, state.managers[index]? = some mapped ∧ mapped.Contains address := by
  obtain ⟨addr, length, henters, hle, hlt⟩ := SigsegvHandlerDispatcher.handlerOf_eq_some hhandler
  obtain ⟨length', index', mapped, henters', hindex, hmapped, hstart, hlength⟩ :=
    htracks.entered addr henters.registers
  obtain ⟨rfl, rfl⟩ := henters'.unique henters
  refine ⟨hindex, mapped, hmapped, ?_, ?_⟩
  · rw [hstart]
    exact hle
  · omega

/-- An address is handed to the manager that is registered with it. -/
theorem Tracks.handlerOf (htracks : state.Tracks) {address length index : ℕ}
    {mapped : MappedManager Hash} (hindex : index ∈ state.mapped)
    (hmapped : state.managers[index]? = some mapped)
    (henters : state.dispatcher.Enters mapped.regionStartAddress length index)
    (hle : mapped.regionStartAddress ≤ address)
    (hlt : address < mapped.regionStartAddress + length)
    (hlength : length ≤ mapped.regionMaxCapacity) :
    state.dispatcher.handlerOf address = some index := by
  apply SigsegvHandlerDispatcher.handlerOf_of_unique henters hle hlt
  intro other length' hother hle' hlt'
  have hregisters : state.dispatcher.Registers other :=
    .inl (TreeMap.isSome_getElem?_iff_mem.mp (Option.isSome_of_eq_some hother))
  obtain ⟨length'', index', mapped', henters', hindex', hmapped', hstart, hlength'⟩ :=
    htracks.entered other hregisters
  obtain rfl : length' = length'' := Option.some.inj (hother.symm.trans henters'.1)
  have hsame : index' = index :=
    htracks.index_unique hindex hindex' hmapped hmapped' ⟨hle, by omega⟩
      ⟨by omega, by omega⟩
  subst hsame
  obtain rfl := Option.some.inj (hmapped.symm.trans hmapped')
  exact hstart.symm

/-- Faults are dispatched as they should be when all live regions are registered whole and
the handler is installed. -/
theorem Tracks.dispatches_iff (htracks : state.Tracks) :
    state.Dispatches ↔ state.Covers ∧ state.Handled := by
  constructor
  · intro hdispatches
    have hlast : ∀ id object index mapped, state.objects id = some object →
        object.vmm = some index → state.managers[index]? = some mapped →
          state.handlesSigsegv = true ∧ state.dispatcher.handlerOf
            (mapped.regionStartAddress + mapped.regionMaxCapacity - 1) = some index := by
      intro id object index mapped hobject hvmm hmapped
      obtain ⟨hle, hlt⟩ :=
        htracks.contains_start (htracks.owned id object index hobject hvmm) hmapped
      have hdispatch := hdispatches.live id object index mapped
        (mapped.regionStartAddress + mapped.regionMaxCapacity - 1) hobject hvmm hmapped
        ⟨by omega, by omega⟩
      unfold dispatch at hdispatch
      split at hdispatch
      · rename_i hhandles
        exact ⟨hhandles, hdispatch⟩
      · cases hdispatch
    constructor
    · intro id object index mapped hobject hvmm hmapped
      have hindex := htracks.owned id object index hobject hvmm
      obtain ⟨hle, hlt⟩ := htracks.contains_start hindex hmapped
      obtain ⟨-, hhandler⟩ := hlast id object index mapped hobject hvmm hmapped
      obtain ⟨addr, length, henters, hin, hout⟩ :=
        SigsegvHandlerDispatcher.handlerOf_eq_some hhandler
      obtain ⟨length', index', mapped', henters', -, hmapped', hstart, hlength⟩ :=
        htracks.entered addr henters.registers
      obtain ⟨rfl, rfl⟩ := henters'.unique henters
      obtain rfl := Option.some.inj (hmapped.symm.trans hmapped')
      subst hstart
      obtain rfl : length = mapped.regionMaxCapacity := by omega
      exact henters
    · intro id object index hobject hvmm
      obtain ⟨mapped, -, hmapped, -⟩ :=
        htracks.mapped index (htracks.owned id object index hobject hvmm)
      exact (hlast id object index mapped hobject hvmm hmapped).1
  · rintro ⟨hcovers, hhandled⟩
    constructor
    · intro id object index mapped address hobject hvmm hmapped hcontains
      rw [dispatch, if_pos (hhandled id object index hobject hvmm)]
      exact htracks.handlerOf (htracks.owned id object index hobject hvmm) hmapped
        (hcovers id object index mapped hobject hvmm hmapped) hcontains.1 hcontains.2 le_rfl
    · intro address index hdispatch
      unfold dispatch at hdispatch
      split at hdispatch
      · exact htracks.contained hdispatch
      · cases hdispatch

/-! ## Steps -/

theorem Tracks.index_lt (htracks : state.Tracks) {index : ℕ} (hindex : index ∈ state.mapped) :
    index < state.managers.length := by
  obtain ⟨mapped, -, hmapped, -⟩ := htracks.mapped index hindex
  exact (List.getElem?_eq_some_iff.mp hmapped).1

section Mapping

variable {id address length : ℕ} {object : PrivateerObject Hash} {files : FileSystem Hash}
variable {manager : SigactionVirtualMemoryManager Hash}

theorem managers_mapping :
    (state.mapping id ((state.view object).addManager manager address length) files).managers =
      state.managers ++ [{ manager := manager, regionStartAddress := address }] := rfl

/-- The managers that were there are found where they were. -/
theorem getElem?_mapping {index : ℕ} (hindex : index < state.managers.length) :
    (state.mapping id ((state.view object).addManager manager address length)
      files).managers[index]? = state.managers[index]? := by
  rw [managers_mapping, List.getElem?_append_left hindex]

theorem getElem?_mapping_new :
    (state.mapping id ((state.view object).addManager manager address length)
      files).managers[state.managers.length]? =
        some { manager := manager, regionStartAddress := address } := by
  rw [managers_mapping, List.getElem?_append_right le_rfl, Nat.sub_self]
  rfl

/-- The objects after one of them was replaced. -/
theorem objects_update {objects : ℕ → Option (PrivateerObject Hash)} {other : ℕ}
    {object' : PrivateerObject Hash} {replaced : Option (PrivateerObject Hash)}
    (hobject : Function.update objects id replaced other = some object') :
    (other = id ∧ replaced = some object') ∨ (other ≠ id ∧ objects other = some object') := by
  by_cases hsame : other = id
  · rw [hsame, Function.update_self] at hobject
    exact .inl ⟨hsame, hobject⟩
  · rw [Function.update_of_ne hsame] at hobject
    exact .inr ⟨hsame, hobject⟩

variable (htracks : state.Tracks)
variable (hdisjoint : (state.mapping id ((state.view object).addManager manager address length)
  files).Disjoint)
variable (hpos : 0 < manager.regionMaxCapacity)

include htracks hdisjoint hpos

/-- The kernel maps a region where none is registered. -/
theorem not_registers_mapping : ¬ state.dispatcher.Registers address := by
  intro hregisters
  obtain ⟨length', index, mapped, -, hindex, hmapped, rfl, -⟩ :=
    htracks.entered address hregisters
  have hlt := htracks.index_lt hindex
  have hstart := htracks.contains_start hindex hmapped
  refine hdisjoint index (Finset.mem_insert_of_mem hindex) state.managers.length
    (Finset.mem_insert_self _ _) hlt.ne mapped _ mapped.regionStartAddress ?_
    getElem?_mapping_new ⟨hstart, ?_⟩
  · rw [getElem?_mapping hlt]
    exact hmapped
  · exact ⟨le_rfl, Nat.lt_add_of_pos_right hpos⟩

theorem enters_mapping {addr length' index : ℕ} :
    (state.mapping id ((state.view object).addManager manager address length)
      files).dispatcher.Enters addr length' index ↔
        (addr = address ∧ length' = length ∧ index = state.managers.length) ∨
          (addr ≠ address ∧ state.dispatcher.Enters addr length' index) :=
  SigsegvHandlerDispatcher.enters_addVirtualMemoryManager
    (not_registers_mapping htracks hdisjoint hpos)

/-- The entries of the regions that were there stay. -/
theorem enters_mapping_old {addr length' index : ℕ}
    (henters : state.dispatcher.Enters addr length' index) :
    (state.mapping id ((state.view object).addManager manager address length)
      files).dispatcher.Enters addr length' index := by
  refine (enters_mapping htracks hdisjoint hpos).mpr (.inr ⟨?_, henters⟩)
  rintro rfl
  exact not_registers_mapping htracks hdisjoint hpos henters.registers

theorem Tracks.mapping (hlength : length ≤ manager.regionMaxCapacity) :
    (state.mapping id ((state.view object).addManager manager address length) files).Tracks where
  entered := by
    intro addr hregisters
    rcases SigsegvHandlerDispatcher.registers_addVirtualMemoryManager.mp hregisters with
      rfl | hold
    · refine ⟨length, state.managers.length, _, (enters_mapping htracks hdisjoint hpos).mpr
        (.inl ⟨rfl, rfl, rfl⟩), Finset.mem_insert_self _ _, getElem?_mapping_new, rfl, hlength⟩
    · obtain ⟨length', index, mapped, henters, hindex, hmapped, hstart, hle⟩ :=
        htracks.entered addr hold
      refine ⟨length', index, mapped, enters_mapping_old htracks hdisjoint hpos henters,
        Finset.mem_insert_of_mem hindex, ?_, hstart, hle⟩
      rw [getElem?_mapping (htracks.index_lt hindex)]
      exact hmapped
  mapped := by
    intro index hindex
    rcases Finset.mem_insert.mp hindex with rfl | hold
    · exact ⟨_, length, getElem?_mapping_new, hpos,
        (enters_mapping htracks hdisjoint hpos).mpr (.inl ⟨rfl, rfl, rfl⟩)⟩
    · obtain ⟨mapped, length', hmapped, hcapacity, henters⟩ := htracks.mapped index hold
      refine ⟨mapped, length', ?_, hcapacity,
        enters_mapping_old htracks hdisjoint hpos henters⟩
      rw [getElem?_mapping (htracks.index_lt hold)]
      exact hmapped
  disjoint := hdisjoint
  owned := by
    intro other object' index hobject hvmm
    rcases objects_update hobject with ⟨rfl, hnew⟩ | ⟨-, hold⟩
    · cases hnew
      obtain rfl : state.managers.length = index := Option.some.inj hvmm
      exact Finset.mem_insert_self _ _
    · exact Finset.mem_insert_of_mem (htracks.owned other object' index hold hvmm)
  distinct := by
    intro first second object₁ object₂ index hfirst hsecond hvmm₁ hvmm₂
    rcases objects_update hfirst with ⟨rfl, hnew₁⟩ | ⟨hne₁, hold₁⟩
    · rcases objects_update hsecond with ⟨rfl, -⟩ | ⟨hne₂, hold₂⟩
      · rfl
      · cases hnew₁
        obtain rfl : state.managers.length = index := Option.some.inj hvmm₁
        exact absurd (htracks.index_lt (htracks.owned _ _ _ hold₂ hvmm₂)) (lt_irrefl _)
    · rcases objects_update hsecond with ⟨rfl, hnew₂⟩ | ⟨hne₂, hold₂⟩
      · cases hnew₂
        obtain rfl : state.managers.length = index := Option.some.inj hvmm₂
        exact absurd (htracks.index_lt (htracks.owned _ _ _ hold₁ hvmm₁)) (lt_irrefl _)
      · exact htracks.distinct first second object₁ object₂ index hold₁ hold₂ hvmm₁ hvmm₂

/-- The new region is registered whole when its length is the capacity. -/
theorem covers_mapping_iff (hcovers : state.Covers) :
    (state.mapping id ((state.view object).addManager manager address length) files).Covers ↔
      length = manager.regionMaxCapacity := by
  constructor
  · intro hcovers'
    have henters := hcovers' id _ state.managers.length _ (Function.update_self _ _ _) rfl
      getElem?_mapping_new
    rcases (enters_mapping htracks hdisjoint hpos).mp henters with ⟨-, hsame, -⟩ | ⟨hne, -⟩
    · exact hsame.symm
    · exact absurd rfl hne
  · rintro rfl other object' index mapped hobject hvmm hmapped
    rcases objects_update hobject with ⟨rfl, hnew⟩ | ⟨-, hold⟩
    · cases hnew
      obtain rfl : state.managers.length = index := Option.some.inj hvmm
      obtain rfl := Option.some.inj (getElem?_mapping_new.symm.trans hmapped)
      exact (enters_mapping htracks hdisjoint hpos).mpr (.inl ⟨rfl, rfl, rfl⟩)
    · rw [getElem?_mapping (htracks.index_lt (htracks.owned _ _ _ hold hvmm))] at hmapped
      exact enters_mapping_old htracks hdisjoint hpos
        (hcovers other object' index mapped hold hvmm hmapped)

/-- After a region was mapped faults are dispatched if its length is the capacity. -/
theorem dispatches_mapping_iff (hlength : length ≤ manager.regionMaxCapacity)
    (hdispatches : state.Dispatches) :
    (state.mapping id ((state.view object).addManager manager address length)
      files).Dispatches ↔ length = manager.regionMaxCapacity := by
  rw [(htracks.mapping hdisjoint hpos hlength).dispatches_iff]
  have hcovers := covers_mapping_iff htracks hdisjoint hpos
    (htracks.dispatches_iff.mp hdispatches).1
  exact ⟨fun hboth => hcovers.mp hboth.1, fun hsame => ⟨hcovers.mpr hsame, fun _ _ _ _ _ => rfl⟩⟩

end Mapping

section Destroying

variable {id index : ℕ} {object : PrivateerObject Hash} {files : FileSystem Hash}
variable {mapped : MappedManager Hash}
variable (htracks : state.Tracks) (hobject : state.objects id = some object)
variable (hvmm : object.vmm = some index) (hmapped : state.managers[index]? = some mapped)

include htracks hobject hvmm hmapped

/-- The other managers start elsewhere. -/
theorem start_ne_destroyed {other : ℕ} {mapped' : MappedManager Hash} (hne : other ≠ index)
    (hother : other ∈ state.mapped) (hmapped' : state.managers[other]? = some mapped') :
    mapped'.regionStartAddress ≠ mapped.regionStartAddress := by
  intro hsame
  have hindex := htracks.owned id object index hobject hvmm
  have hstart := htracks.contains_start hother hmapped'
  rw [hsame] at hstart
  exact hne (htracks.index_unique hindex hother hmapped hmapped'
    (htracks.contains_start hindex hmapped) hstart)

theorem Tracks.destroyed : (state.destroyed id index
    (state.dispatcher.removeVirtualMemoryManager mapped.regionStartAddress) files).Tracks where
  entered := by
    intro address hregisters
    obtain ⟨hne, hold⟩ :=
      SigsegvHandlerDispatcher.registers_removeVirtualMemoryManager.mp hregisters
    obtain ⟨length, other, mapped', henters, hother, hmapped', hstart, hlength⟩ :=
      htracks.entered address hold
    refine ⟨length, other, mapped',
      SigsegvHandlerDispatcher.enters_removeVirtualMemoryManager.mpr ⟨hne, henters⟩,
      Finset.mem_erase.mpr ⟨?_, hother⟩, hmapped', hstart, hlength⟩
    rintro rfl
    obtain rfl := Option.some.inj (hmapped.symm.trans hmapped')
    exact hne hstart.symm
  mapped := by
    intro other hother
    obtain ⟨hne, hold⟩ := Finset.mem_erase.mp hother
    obtain ⟨mapped', length, hmapped', hpos, henters⟩ := htracks.mapped other hold
    exact ⟨mapped', length, hmapped', hpos,
      SigsegvHandlerDispatcher.enters_removeVirtualMemoryManager.mpr
        ⟨start_ne_destroyed htracks hobject hvmm hmapped hne hold hmapped', henters⟩⟩
  disjoint := fun first hfirst second hsecond =>
    htracks.disjoint first (Finset.mem_of_mem_erase hfirst) second
      (Finset.mem_of_mem_erase hsecond)
  owned := by
    intro other object' index' hobject' hvmm'
    rcases objects_update hobject' with ⟨-, hnone⟩ | ⟨hne, hold⟩
    · cases hnone
    · refine Finset.mem_erase.mpr ⟨?_, htracks.owned other object' index' hold hvmm'⟩
      rintro rfl
      exact hne (htracks.distinct other id object' object index' hold hobject hvmm' hvmm)
  distinct := by
    intro first second object₁ object₂ index' hfirst hsecond
    rcases objects_update hfirst with ⟨-, hnone⟩ | ⟨-, hold₁⟩
    · cases hnone
    · rcases objects_update hsecond with ⟨-, hnone⟩ | ⟨-, hold₂⟩
      · cases hnone
      · exact htracks.distinct first second object₁ object₂ index' hold₁ hold₂

/-- After an object was destroyed faults are dispatched if no other object has a region. -/
theorem dispatches_destroyed_iff :
    (state.destroyed id index
      (state.dispatcher.removeVirtualMemoryManager mapped.regionStartAddress) files).Dispatches ↔
        ∀ other object', other ≠ id → state.objects other = some object' →
          object'.vmm = none := by
  have hnext : (state.destroyed id index
      (state.dispatcher.removeVirtualMemoryManager mapped.regionStartAddress) files).Tracks :=
    htracks.destroyed hobject hvmm hmapped
  rw [hnext.dispatches_iff]
  constructor
  · rintro ⟨-, hhandled⟩ other object' hne hold
    cases hvmm' : object'.vmm with
    | none => rfl
    | some index' =>
        cases hhandled other object' index' ((Function.update_of_ne hne _ _).trans hold) hvmm'
  · intro hnone
    have hlive : ∀ other object' index', Function.update state.objects id none other =
        some object' → object'.vmm = some index' → False := by
      intro other object' index' hobject' hvmm'
      rcases objects_update hobject' with ⟨-, hgone⟩ | ⟨hne, hold⟩
      · cases hgone
      · cases (hnone other object' hne hold).symm.trans hvmm'
    exact ⟨fun other object' index' _ hobject' hvmm' _ =>
        (hlive other object' index' hobject' hvmm').elim,
      fun other object' index' hobject' hvmm' => (hlive other object' index' hobject' hvmm').elim⟩

end Destroying

/-- A new object has no region. -/
theorem Tracks.construct (htracks : state.Tracks) {id : ℕ} {object : PrivateerObject Hash}
    {files : FileSystem Hash} (hnone : object.vmm = none) :
    ({ state with objects := Function.update state.objects id (some object), files := files } :
      ProcessState Hash).Tracks where
  entered := htracks.entered
  mapped := htracks.mapped
  disjoint := htracks.disjoint
  owned := by
    intro other object' index hobject hvmm
    rcases objects_update hobject with ⟨-, hnew⟩ | ⟨-, hold⟩
    · cases hnew
      cases hnone.symm.trans hvmm
    · exact htracks.owned other object' index hold hvmm
  distinct := by
    intro first second object₁ object₂ index hfirst hsecond hvmm₁ hvmm₂
    rcases objects_update hfirst with ⟨-, hnew⟩ | ⟨-, hold₁⟩
    · cases hnew
      cases hnone.symm.trans hvmm₁
    · rcases objects_update hsecond with ⟨-, hnew⟩ | ⟨-, hold₂⟩
      · cases hnew
        cases hnone.symm.trans hvmm₂
      · exact htracks.distinct first second object₁ object₂ index hold₁ hold₂ hvmm₁ hvmm₂

theorem Dispatches.construct (hdispatches : state.Dispatches) {id : ℕ}
    {object : PrivateerObject Hash} {files : FileSystem Hash} (hnone : object.vmm = none) :
    ({ state with objects := Function.update state.objects id (some object), files := files } :
      ProcessState Hash).Dispatches where
  live := by
    intro other object' index mapped address hobject hvmm
    rcases objects_update hobject with ⟨-, hnew⟩ | ⟨-, hold⟩
    · cases hnew
      cases hnone.symm.trans hvmm
    · exact hdispatches.live other object' index mapped address hold hvmm
  contained := hdispatches.contained

variable [DecidableEq Hash] {build : Build Hash} {next : ProcessState Hash}
variable {request : ProcessRequest}

/-- The condition is exact for one call. -/
theorem Step.dispatches (hstep : Step build state request next) (htracks : state.Tracks)
    (hdispatches : state.Dispatches) :
    next.Tracks ∧ (next.Dispatches ↔ state.Whole request) := by
  cases hstep with
  | construct hnew hconstructs =>
      obtain ⟨basePath, stashBasePath, blockSize, rfl⟩ := hconstructs.eq_initial
      exact ⟨htracks.construct rfl, iff_of_true (hdispatches.construct rfl) trivial⟩
  | @create id object after files version regionSize maxMemBlocks address allowOverwrite hobject
      hsize hrun hdisjoint =>
      obtain ⟨hblockSize, manager, hcreate, rfl⟩ := create_returned hrun
      obtain ⟨base, between, hbase, hlast⟩ := Program.run_bind_returned hcreate
      cases (Prod.mk.inj hlast).1
      obtain ⟨hcapacity, hpos⟩ := VirtualMemoryManagerBase.create_capacity hbase
      have hblocks : 0 < object.blockSize := Nat.pos_of_ne_zero hblockSize
      have hlength : regionSize ≤ base.regionMaxCapacity := by
        rw [hcapacity]
        exact regionSize_le_roundedUp hblocks
      refine ⟨htracks.mapping hdisjoint hpos hlength, ?_⟩
      rw [dispatches_mapping_iff htracks hdisjoint hpos hlength hdispatches, eq_comm]
      have hrounded : base.regionMaxCapacity = regionSize ↔ object.blockSize ∣ regionSize := by
        rw [hcapacity]
        exact roundedUp_eq_iff hblocks hsize
      refine hrounded.trans ⟨fun hdvd object' hobject' => ?_, fun hwhole => hwhole object hobject⟩
      cases hobject.symm.trans hobject'
      exact hdvd
  | «open» hobject hrun hdisjoint =>
      obtain ⟨manager, hopen, rfl⟩ := open_returned hrun
      obtain ⟨base, between, hbase, hlast⟩ := Program.run_bind_returned hopen
      cases (Prod.mk.inj hlast).1
      have hpos := VirtualMemoryManagerBase.open_capacity hbase
      exact ⟨htracks.mapping hdisjoint hpos le_rfl, iff_of_true
        ((dispatches_mapping_iff htracks hdisjoint hpos le_rfl hdispatches).mpr rfl) trivial⟩
  | destroy hobject hvmm hrun =>
      obtain ⟨index, mapped, hindex, hmapped, -, rfl⟩ := PrivateerObject.destroy_returned hrun
      cases hvmm.symm.trans hindex
      exact ⟨htracks.destroyed hobject hvmm hmapped,
        dispatches_destroyed_iff htracks hobject hvmm hmapped⟩

/-- In all runs of any number of objects, every fault is dispatched to the manager of its
region exactly if every region is created in whole blocks and an object is destroyed only when
no other one has a region. -/
theorem dispatches_iff_whole {files : FileSystem Hash}
    {trace : List (ProcessRequest × ProcessState Hash)}
    (hrun : Run (Step build) (initial files) trace) :
    (∀ state ∈ Run.states (initial files) trace, state.Dispatches) ↔
      Run.Each Whole (initial files) trace := by
  have htracks : (initial files).Tracks := by
    refine ⟨?_, ?_, ?_, ?_, ?_⟩
    · rintro address (hregistered | hregistered)
      · exact absurd hregistered TreeMap.not_mem_emptyc
      · exact absurd hregistered TreeMap.not_mem_emptyc
    · exact fun index hindex => absurd hindex (Finset.notMem_empty index)
    · exact fun index hindex => absurd hindex (Finset.notMem_empty index)
    · exact fun id object index hobject => by cases hobject
    · exact fun id other object object' index hobject => by cases hobject
  apply hrun.forall_states_iff _ htracks
  · constructor
    · intro id object index mapped address hobject
      cases hobject
    · intro address index hdispatch
      cases hdispatch
  · exact fun state request next htracks hdispatches hstep =>
      hstep.dispatches htracks hdispatches

omit [DecidableEq Hash] in
/-- A first mapping overlaps no other. -/
theorem disjoint_mapping_first {files : FileSystem Hash} {id : ℕ}
    {object : PrivateerObject Hash} (hmapped : state.mapped = ∅) :
    (state.mapping id object files).Disjoint := by
  intro index hindex other hother hne
  have hone : ∀ index ∈ (state.mapping id object files).mapped,
      index = state.managers.length := by
    intro index hindex
    rcases Finset.mem_insert.mp hindex with hnew | hold
    · exact hnew
    · rw [hmapped] at hold
      exact absurd hold (Finset.notMem_empty index)
  exact absurd ((hone index hindex).trans (hone other hother).symm) hne

theorem constructs_object (blockSize : ℕ) (hpos : blockSize ≠ 0) :
    Constructs FileSystem.empty
      (.initial ['/', 'd'] ['/', 'd'] blockSize : PrivateerObject (Option (List Byte)))
        smallFiles := by
  have hrun : (PrivateerObject.construct PrivateerObject.createAction ['/', 'd'] blockSize 0).run
      FileSystem.answer FileSystem.empty =
        (.returned (.initial ['/', 'd'] ['/', 'd'] (initBlockSize blockSize 0)), smallFiles) := rfl
  rw [initBlockSize, if_neg hpos] at hrun
  exact .plain hrun

/-- One object maps a region of two blocks, which another one opens after the first is
destroyed. -/
theorem dispatches_iff_whole_twoBlocks :
    ∃ trace, trace.map Prod.fst = [.construct 0, .construct 1, .create 0 ['v'] 4 0 false 4096,
        .destroy 0 ⟨[], []⟩, .open 1 ['v'] 0 true 8192] ∧
      Run (Step Build.transparent) (initial FileSystem.empty) trace ∧
      ∀ state ∈ Run.states (initial FileSystem.empty) trace, state.Dispatches := by
  have hrun : Run (Step Build.transparent) (initial FileSystem.empty)
      [(.construct 0, _), (.construct 1, _), (.create 0 ['v'] 4 0 false 4096, _),
        (.destroy 0 ⟨[], []⟩, _), (.open 1 ['v'] 0 true 8192, _)] :=
    .cons (.construct rfl (constructs_object 2 (by decide))) <|
    .cons (.construct rfl (.plain (rfl : (PrivateerObject.construct PrivateerObject.openAction
      ['/', 'd'] 0 0).run FileSystem.answer _ = (.returned _, _)))) <|
    .cons (.create rfl (by decide) rfl (disjoint_mapping_first rfl)) <|
    .cons (.destroy rfl rfl rfl) <|
    .cons (.open rfl rfl (disjoint_mapping_first rfl)) .nil
  refine ⟨_, rfl, hrun, (dispatches_iff_whole hrun).mpr
    ⟨trivial, trivial, fun object hobject => ?_, fun other object hother hobject => ?_, trivial,
      trivial⟩⟩
  · cases hobject
    exact ⟨2, rfl⟩
  · by_cases hone : other = 1
    · subst hone
      cases hobject
      rfl
    · have hnone : (none : Option (PrivateerObject (Option (List Byte)))) = some object := by
        rw [← hobject]
        simp [mapping, initial, hother, hone]
      cases hnone

/-- A region of three bytes in blocks of two has an address that no manager gets. -/
theorem tail_not_dispatched :
    ∃ trace, trace.map Prod.fst = [.construct 0, .create 0 ['v'] 3 0 false 4096] ∧
      Run (Step Build.transparent) (initial FileSystem.empty) trace ∧
      ¬ (Run.last (initial FileSystem.empty) trace).Dispatches := by
  have hrun : Run (Step Build.transparent) (initial FileSystem.empty)
      [(.construct 0, _), (.create 0 ['v'] 3 0 false 4096, _)] :=
    .cons (.construct rfl (constructs_object 2 (by decide))) <|
    .cons (.create rfl (by decide) rfl (disjoint_mapping_first rfl)) .nil
  refine ⟨_, rfl, hrun, fun hdispatches => ?_⟩
  have hdispatch := hdispatches.live 0 _ 0 _ 4099 rfl rfl rfl ⟨by decide, by decide⟩
  revert hdispatch
  decide +kernel

end ProcessState

end Privateer
