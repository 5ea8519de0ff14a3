import Privateer.Datastore.Dispatch

/-!
# Sequences of registrations

The dispatcher keeps its regions in two maps, whose `insert` keeps an entry that is there.
This module follows any sequence of calls that add and remove managers beside the list of
the registrations that are live, and says when a fault goes to the latest of those that
contain its address.
-/

namespace Privateer

namespace SigsegvHandlerDispatcher

variable {dispatcher : SigsegvHandlerDispatcher} {addr address length vmm : ℕ}

/-- An address that is registered keeps its entries. -/
theorem enters_addVirtualMemoryManager_of_enters {other length' vmm' length'' vmm'' : ℕ}
    (henters : dispatcher.Enters addr length' vmm') :
    (dispatcher.addVirtualMemoryManager addr length vmm).Enters other length'' vmm'' ↔
      dispatcher.Enters other length'' vmm'' := by
  have hregion : addr ∈ dispatcher.regions :=
    Std.TreeMap.isSome_getElem?_iff_mem.mp (Option.isSome_of_eq_some henters.1)
  have hmanager : addr ∈ dispatcher.regionManagers :=
    Std.TreeMap.isSome_getElem?_iff_mem.mp (Option.isSome_of_eq_some henters.2)
  simp only [Enters, addVirtualMemoryManager, Std.TreeMap.getElem?_insertIfNew, hregion, hmanager,
    not_true_eq_false, and_false, if_false]

end SigsegvHandlerDispatcher

/-! ## Registrations -/

/-- The arguments of `add_virtual_memory_manager`. -/
structure Registration where
  addr : ℕ
  length : ℕ
  vmm : ℕ
  deriving DecidableEq

def Registration.Contains (registration : Registration) (address : ℕ) : Prop :=
  registration.addr ≤ address ∧ address < registration.addr + registration.length

instance (registration : Registration) (address : ℕ) :
    Decidable (registration.Contains address) :=
  inferInstanceAs (Decidable (_ ∧ _))

inductive RegistrationCall where
  | add (registration : Registration)
  | remove (addr : ℕ)
  deriving DecidableEq

/-- The dispatcher, and the registrations since removed from none, the latest first. -/
structure RegistrationState where
  dispatcher : SigsegvHandlerDispatcher
  live : List Registration

namespace RegistrationState

def initial : RegistrationState where
  dispatcher := .empty
  live := []

/-- What a call does; to remove an address takes away all its registrations. -/
def after (state : RegistrationState) : RegistrationCall → RegistrationState
  | .add registration =>
      { dispatcher := state.dispatcher.addVirtualMemoryManager registration.addr
          registration.length registration.vmm
        live := registration :: state.live }
  | .remove addr =>
      { dispatcher := state.dispatcher.removeVirtualMemoryManager addr
        live := state.live.filter (·.addr ≠ addr) }

/-- The range of a registration does not wrap, and overlaps no live one but those at its
own address. -/
inductive Step : RegistrationState → RegistrationCall → RegistrationState → Prop
  | add {state : RegistrationState} {registration : Registration}
      (hwrap : registration.addr + registration.length < 2 ^ 64)
      (hdisjoint : ∀ other ∈ state.live, other.addr ≠ registration.addr →
        ∀ address, registration.Contains address → ¬ other.Contains address) :
      Step state (.add registration) (state.after (.add registration))
  | remove {state : RegistrationState} {addr : ℕ} :
      Step state (.remove addr) (state.after (.remove addr))

/-- The latest live registration that contains an address. -/
def latest (state : RegistrationState) (address : ℕ) : Option Registration :=
  state.live.find? (·.Contains address)

/-- Every fault is handed to the manager of the latest live registration that contains its
address, and the process exits exactly where there is none. -/
def FollowsLatest (state : RegistrationState) : Prop :=
  ∀ address, state.dispatcher.handlerOf address = (state.latest address).map (·.vmm)

/-- An address that is registered is added again only with the manager that is registered
and no greater length, or without any length. -/
def Agrees (state : RegistrationState) : RegistrationCall → Prop
  | .add registration => ∀ length vmm,
      state.dispatcher.Enters registration.addr length vmm →
        registration.length = 0 ∨ (registration.length ≤ length ∧ registration.vmm = vmm)
  | .remove _ => True

instance (state : RegistrationState) (call : RegistrationCall) : Decidable (Agrees state call) :=
  match call with
  | .add registration =>
      decidable_of_iff (∀ length ∈ state.dispatcher.regions[registration.addr]?,
          ∀ vmm ∈ state.dispatcher.regionManagers[registration.addr]?,
            registration.length = 0 ∨ (registration.length ≤ length ∧ registration.vmm = vmm))
        ⟨fun hall length vmm henters => hall length henters.1 vmm henters.2,
          fun hall length hlength vmm hvmm => hall length vmm ⟨hlength, hvmm⟩⟩
  | .remove _ => .isTrue trivial

/-! ## What the maps hold -/

/-- An address with an entry in one map has entries in both, which are those of a live
registration; the ranges at different addresses are disjoint. -/
structure Tracks (state : RegistrationState) : Prop where
  registered : ∀ addr, state.dispatcher.Registers addr →
    ∃ length vmm, state.dispatcher.Enters addr length vmm
  entered : ∀ addr length vmm, state.dispatcher.Enters addr length vmm →
    ⟨addr, length, vmm⟩ ∈ state.live
  disjoint : ∀ registration ∈ state.live, ∀ other ∈ state.live,
    registration.addr ≠ other.addr → ∀ address, registration.Contains address →
      ¬ other.Contains address

/-- The entries at an address cover all registrations that are live there. -/
def Covers (state : RegistrationState) : Prop :=
  ∀ registration ∈ state.live, ∃ length vmm,
    state.dispatcher.Enters registration.addr length vmm ∧
      (registration.length = 0 ∨ (registration.length ≤ length ∧ registration.vmm = vmm))

variable {state next : RegistrationState} {call : RegistrationCall}
variable {addr length vmm address : ℕ}

/-- The entry that contains an address gets its faults. -/
theorem Tracks.handlerOf_eq (htracks : state.Tracks)
    (henters : state.dispatcher.Enters addr length vmm)
    (hcontains : Registration.Contains ⟨addr, length, vmm⟩ address) :
    state.dispatcher.handlerOf address = some vmm := by
  refine state.dispatcher.handlerOf_of_unique henters hcontains.1 hcontains.2 ?_
  intro other length' hother hle hlt
  by_contra hne
  have hregistered : state.dispatcher.Registers other :=
    .inl (Std.TreeMap.isSome_getElem?_iff_mem.mp (Option.isSome_of_eq_some hother))
  obtain ⟨length'', vmm', hentered⟩ := htracks.registered other hregistered
  have hlength : length'' = length' := Option.some.inj (hentered.1.symm.trans hother)
  subst hlength
  exact htracks.disjoint _ (htracks.entered _ _ _ henters) _ (htracks.entered _ _ _ hentered)
    (Ne.symm hne) address hcontains ⟨hle, hlt⟩

/-- Outside of all entries the process exits. -/
theorem handlerOf_eq_none (houtside : ∀ addr length vmm,
    state.dispatcher.Enters addr length vmm →
      ¬ Registration.Contains ⟨addr, length, vmm⟩ address) :
    state.dispatcher.handlerOf address = none := by
  refine Option.eq_none_iff_forall_ne_some.mpr fun vmm hhandler => ?_
  obtain ⟨addr, length, henters, hle, hlt⟩ := state.dispatcher.handlerOf_eq_some hhandler
  exact houtside addr length vmm henters ⟨hle, hlt⟩

/-- Where entries cover the live registrations, faults go to the latest one. -/
theorem Tracks.followsLatest (htracks : state.Tracks) (hcovers : state.Covers) :
    state.FollowsLatest := by
  intro address
  cases hlatest : state.latest address with
  | none =>
      have houtside := List.find?_eq_none.mp hlatest
      refine handlerOf_eq_none fun addr length vmm henters hcontains => ?_
      exact houtside _ (htracks.entered _ _ _ henters) (decide_eq_true hcontains)
  | some registration =>
      have hcontains : registration.Contains address := by
        have hfound := List.find?_some hlatest
        exact of_decide_eq_true hfound
      obtain ⟨length, vmm, henters, hcovered⟩ :=
        hcovers _ (List.mem_of_find?_eq_some hlatest)
      obtain ⟨hle, hlt⟩ := hcontains
      rcases hcovered with hzero | ⟨hlength, hvmm⟩
      · omega
      · rw [htracks.handlerOf_eq henters ⟨hle, by dsimp only; omega⟩, ← hvmm]
        rfl

/-! ## Steps -/

/-- An added registration is entered at a new address only. -/
theorem Tracks.enters_add (htracks : state.Tracks) {registration : Registration} :
    (state.after (.add registration)).dispatcher.Enters addr length vmm ↔
      (¬ state.dispatcher.Registers registration.addr ∧
        registration = ⟨addr, length, vmm⟩) ∨ state.dispatcher.Enters addr length vmm := by
  by_cases hregistered : state.dispatcher.Registers registration.addr
  · obtain ⟨length', vmm', henters⟩ := htracks.registered _ hregistered
    rw [after, SigsegvHandlerDispatcher.enters_addVirtualMemoryManager_of_enters henters]
    exact ⟨.inr, fun hcases => hcases.resolve_left fun hnew => hnew.1 hregistered⟩
  · rw [after, SigsegvHandlerDispatcher.enters_addVirtualMemoryManager hregistered]
    constructor
    · rintro (⟨rfl, rfl, rfl⟩ | ⟨-, hold⟩)
      · exact .inl ⟨hregistered, rfl⟩
      · exact .inr hold
    · rintro (⟨-, rfl⟩ | hold)
      · exact .inl ⟨rfl, rfl, rfl⟩
      · refine .inr ⟨?_, hold⟩
        rintro rfl
        exact hregistered hold.registers

theorem Step.tracks (hstep : Step state call next) (htracks : state.Tracks) :
    next.Tracks := by
  cases hstep with
  | @add registration hwrap hdisjoint =>
      refine ⟨fun addr haddr => ?_, fun addr length vmm henters => ?_, ?_⟩
      · by_cases hregistered : state.dispatcher.Registers addr
        · obtain ⟨length, vmm, henters⟩ := htracks.registered addr hregistered
          exact ⟨length, vmm, htracks.enters_add.mpr (.inr henters)⟩
        · rcases SigsegvHandlerDispatcher.registers_addVirtualMemoryManager.mp haddr with
            rfl | hold
          · exact ⟨_, _, htracks.enters_add.mpr (.inl ⟨hregistered, rfl⟩)⟩
          · exact absurd hold hregistered
      · rcases htracks.enters_add.mp henters with ⟨-, rfl⟩ | hold
        · exact List.mem_cons_self
        · exact List.mem_cons_of_mem _ (htracks.entered _ _ _ hold)
      · intro first hfirst second hsecond hne address hcontains hother
        rcases List.mem_cons.mp hfirst with rfl | hold
        · rcases List.mem_cons.mp hsecond with rfl | hold'
          · exact hne rfl
          · exact hdisjoint second hold' (Ne.symm hne) address hcontains hother
        · rcases List.mem_cons.mp hsecond with rfl | hold'
          · exact hdisjoint first hold hne address hother hcontains
          · exact htracks.disjoint first hold second hold' hne address hcontains hother
  | @remove removed =>
      refine ⟨fun addr haddr => ?_, fun addr length vmm henters => ?_, ?_⟩
      · obtain ⟨hne, hold⟩ :=
          SigsegvHandlerDispatcher.registers_removeVirtualMemoryManager.mp haddr
        obtain ⟨length, vmm, henters⟩ := htracks.registered addr hold
        exact ⟨length, vmm,
          SigsegvHandlerDispatcher.enters_removeVirtualMemoryManager.mpr ⟨hne, henters⟩⟩
      · obtain ⟨hne, hold⟩ :=
          SigsegvHandlerDispatcher.enters_removeVirtualMemoryManager.mp henters
        exact List.mem_filter.mpr ⟨htracks.entered _ _ _ hold, decide_eq_true hne⟩
      · intro first hfirst second hsecond
        exact htracks.disjoint _ (List.mem_of_mem_filter hfirst) _
          (List.mem_of_mem_filter hsecond)

/-- A call that agrees with the entries leaves them covering the live registrations. -/
theorem Step.covers (hstep : Step state call next) (htracks : state.Tracks)
    (hcovers : state.Covers) (hagrees : state.Agrees call) : next.Covers := by
  cases hstep with
  | @add registration hwrap hdisjoint =>
      intro other hother
      rcases List.mem_cons.mp hother with rfl | hold
      · by_cases hregistered : state.dispatcher.Registers other.addr
        · obtain ⟨length, vmm, henters⟩ := htracks.registered _ hregistered
          exact ⟨length, vmm, htracks.enters_add.mpr (.inr henters),
            hagrees length vmm henters⟩
        · exact ⟨other.length, other.vmm, htracks.enters_add.mpr (.inl ⟨hregistered, rfl⟩),
            .inr ⟨le_rfl, rfl⟩⟩
      · obtain ⟨length, vmm, henters, hcovered⟩ := hcovers other hold
        exact ⟨length, vmm, htracks.enters_add.mpr (.inr henters), hcovered⟩
  | @remove removed =>
      intro other hother
      obtain ⟨hold, hne⟩ := List.mem_filter.mp hother
      obtain ⟨length, vmm, henters, hcovered⟩ := hcovers other hold
      exact ⟨length, vmm, SigsegvHandlerDispatcher.enters_removeVirtualMemoryManager.mpr
        ⟨of_decide_eq_true hne, henters⟩, hcovered⟩

/-- Where faults still follow the latest registration after a call, it agreed with the
entries. -/
theorem Step.agrees (hstep : Step state call next) (htracks : state.Tracks)
    (hfollows : next.FollowsLatest) : state.Agrees call := by
  have htracks' := hstep.tracks htracks
  cases hstep with
  | @remove removed => trivial
  | @add registration hwrap hdisjoint =>
      intro length vmm henters
      have hentered : (state.after (.add registration)).dispatcher.Enters
          registration.addr length vmm := htracks.enters_add.mpr (.inr henters)
      -- The new registration is the latest one for its range, so its entry has the range.
      have hentry : ∀ address, registration.Contains address →
          address < registration.addr + length ∧ registration.vmm = vmm := by
        intro address hcontains
        have hhandler : (state.after (.add registration)).dispatcher.handlerOf address =
            some registration.vmm := by
          have hfound : (registration :: state.live).find? (·.Contains address) =
              some registration := List.find?_cons_of_pos (by exact decide_eq_true hcontains)
          rw [hfollows address]
          exact congrArg _ hfound
        obtain ⟨addr', length', henters', hle, hlt⟩ :=
          SigsegvHandlerDispatcher.handlerOf_eq_some hhandler
        have hsame : registration.addr = addr' := by
          by_contra hne
          exact htracks'.disjoint registration List.mem_cons_self _
            (htracks'.entered _ _ _ henters') hne address hcontains ⟨hle, hlt⟩
        subst hsame
        obtain ⟨hlength, hvmm⟩ := hentered.unique henters'
        rw [hlength] at hlt
        exact ⟨hlt, hvmm⟩
      by_cases hzero : registration.length = 0
      · exact .inl hzero
      have hfirst := hentry registration.addr ⟨le_rfl, by omega⟩
      have hlast := hentry (registration.addr + (registration.length - 1))
        ⟨Nat.le_add_right _ _, by omega⟩
      exact .inr ⟨by omega, hfirst.2⟩

theorem tracks_initial : initial.Tracks := by
  have hnone : ∀ addr, ¬ initial.dispatcher.Registers addr := by
    rintro addr (hregion | hmanager)
    · exact absurd hregion Std.TreeMap.not_mem_emptyc
    · exact absurd hmanager Std.TreeMap.not_mem_emptyc
  refine ⟨fun addr haddr => absurd haddr (hnone addr), fun addr length vmm henters => ?_, ?_⟩
  · exact absurd henters.registers (hnone addr)
  · exact fun registration hregistration => absurd hregistration List.not_mem_nil

/-- For every sequence of calls, faults follow the latest registration throughout exactly if
every call agrees with the entries. -/
theorem follows_latest_iff {trace : List (RegistrationCall × RegistrationState)}
    (hrun : Run Step initial trace) :
    (∀ state ∈ Run.states initial trace, state.FollowsLatest) ↔
      Run.Each Agrees initial trace := by
  have hgoal : ∀ state : RegistrationState, state.Tracks ∧ state.Covers →
      state.FollowsLatest := fun state hstrong => hstrong.1.followsLatest hstrong.2
  refine hrun.forall_states_iff_of_stronger hgoal ?_ ⟨tracks_initial, ?_⟩
  · rintro state call next ⟨htracks, hcovers⟩ hstep
    exact ⟨hstep.agrees htracks, fun hagrees =>
      ⟨hstep.tracks htracks, hstep.covers htracks hcovers hagrees⟩⟩
  · exact fun registration hregistration => absurd hregistration List.not_mem_nil

/-- A range may be added where every live one has its address, ends in front of it or starts
behind it. -/
theorem Step.add_apart {registration : Registration}
    (hwrap : registration.addr + registration.length < 2 ^ 64)
    (hapart : ∀ other ∈ state.live, other.addr = registration.addr ∨
      other.addr + other.length ≤ registration.addr ∨
        registration.addr + registration.length ≤ other.addr) :
    Step state (.add registration) (state.after (.add registration)) := by
  refine .add hwrap fun other hother hne address hcontains hcontained => ?_
  obtain ⟨hle, hlt⟩ := hcontains
  obtain ⟨hle', hlt'⟩ := hcontained
  rcases hapart other hother with hsame | hbefore | hafter
  · exact hne hsame
  · omega
  · omega

/-- Regions of two managers live side by side; one is removed, and its address used for a
third manager, which registers a second time. -/
theorem follows_latest_iff_removed :
    ∃ trace, trace.map Prod.fst = [.add ⟨4096, 4, 0⟩, .add ⟨8192, 16, 1⟩, .remove 4096,
        .add ⟨4096, 8, 2⟩, .add ⟨4096, 8, 2⟩] ∧
      Run Step initial trace ∧ ∀ state ∈ Run.states initial trace, state.FollowsLatest := by
  have hrun : Run Step initial
      [(.add ⟨4096, 4, 0⟩, _), (.add ⟨8192, 16, 1⟩, _), (.remove 4096, _),
        (.add ⟨4096, 8, 2⟩, _), (.add ⟨4096, 8, 2⟩, _)] :=
    .cons (.add_apart (by decide) (by decide)) <|
      .cons (.add_apart (by decide) (by decide)) <| .cons .remove <|
      .cons (.add_apart (by decide) (by decide)) <|
      .cons (.add_apart (by decide) (by decide)) .nil
  exact ⟨_, rfl, hrun, (follows_latest_iff hrun).mpr (by decide +kernel)⟩

/-- A region is mapped again at its address by another manager, and its faults still go to
the first one. -/
theorem second_manager_ignored :
    ∃ trace, trace.map Prod.fst = [.add ⟨4096, 4, 0⟩, .add ⟨4096, 4, 1⟩] ∧
      Run Step initial trace ∧
      (Run.last initial trace).dispatcher.handlerOf 4096 = some 0 ∧
      ¬ (Run.last initial trace).FollowsLatest := by
  have hrun : Run Step initial [(.add ⟨4096, 4, 0⟩, _), (.add ⟨4096, 4, 1⟩, _)] :=
    .cons (.add_apart (by decide) (by decide)) <|
      .cons (.add_apart (by decide) (by decide)) .nil
  refine ⟨_, rfl, hrun, by decide +kernel, fun hfollows => ?_⟩
  have hlatest := hfollows 4096
  revert hlatest
  decide +kernel

end RegistrationState

end Privateer
