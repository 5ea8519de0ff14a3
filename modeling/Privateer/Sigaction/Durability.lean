import Privateer.Sigaction.Session

/-!
# What a session shows and what it commits

Whatever is evicted, stashed, reloaded and committed, a session reads what a
plain array would hold.  A commit, however, writes the table of names only up to
the highest resident block, so a version denotes the region exactly when the rest
of its table already did; a snapshot starts from an empty table, so there the rest
of the region must be zero.
-/

namespace Privateer

namespace SigactionVirtualMemoryManager

variable {Hash : Type} [DecidableEq Hash] {blocks : BlocksDirectory Hash}
variable {manager : SigactionVirtualMemoryManager Hash} {files files' : FileSystem Hash}

/-- A session reads what a plain array holds, and never exits. -/
theorem session_reads_flat (hsound : blocks.build.Sound)
    (hcompression : blocks.build.useCompression = false) {start : Start}
    (hstart : start.WellFormed blocks files)
    (hopen : (start.program blocks.build).run FileSystem.answer files =
      (.returned manager, files')) {operations : List Operation}
    (hwithin : ∀ operation ∈ operations,
      operation.Within (manager.numBlocks * manager.blockSize)) :
    ∃ last final, (performAll blocks.build operations manager).run FileSystem.answer files' =
      (.returned (flatReads operations (start.region blocks.build files blocks.blockSize), last),
        final) := by
  obtain ⟨hsession, hpermitted⟩ := Session.of_start hsound hcompression hstart hopen
  rw [hsession.coherent.blockSize] at hwithin
  obtain ⟨last, final, hrun, -⟩ := hsession.run_performAll hsound hcompression hwithin
    fun operation _ => hpermitted operation
  exact ⟨last, final, hrun⟩

theorem session_reads_flat_twoBlocks :
    ∃ last final, (runSession .transparent twoBlocks
        [.write 1 7, .write 0 5, .read 1, .read 0]).run FileSystem.answer FileSystem.empty =
      (.returned ([7, 5], last), final) := by
  have hopen : (twoBlocks.program .transparent).run FileSystem.answer FileSystem.empty =
      (.returned _, _) := rfl
  have hwithin : ∀ operation ∈ [.write 1 7, .write 0 5, .read 1, .read 0],
      Operation.Within 2 operation := by decide
  exact session_reads_flat Build.transparent_sound rfl twoBlocks_wellFormed hopen hwithin

/-! ## What a commit stores -/

/-- The state of a session after some operations. -/
theorem Session.of_run (hsound : blocks.build.Sound)
    (hcompression : blocks.build.useCompression = false) {region : ℕ → Byte}
    {first : SigactionVirtualMemoryManager Hash} {opened : FileSystem Hash}
    (hsession : Session blocks region first opened) {operations : List Operation}
    (hwithin : ∀ operation ∈ operations, operation.Within (first.numBlocks * first.blockSize))
    (hpermitted : ∀ operation ∈ operations, operation.Permitted first.readOnly)
    {reads : List Byte}
    (hrun : (performAll blocks.build operations first).run FileSystem.answer opened =
      (.returned (reads, manager), files')) :
    Session blocks (flatRegion operations region) manager files' := by
  rw [hsession.coherent.blockSize] at hwithin
  obtain ⟨last, final, hperformed, hlast, -⟩ :=
    hsession.run_performAll hsound hcompression hwithin hpermitted
  rw [hrun, Prod.mk.injEq, Outcome.returned.injEq, Prod.mk.injEq] at hperformed
  obtain ⟨⟨-, rfl⟩, rfl⟩ := hperformed
  exact hlast

/-- The names that a commit writes stand for the contents of their blocks. -/
theorem Committed.getD_names {contents : ℕ → List Byte}
    {committed : SigactionVirtualMemoryManager Hash}
    (hcommitted : Committed blocks contents manager committed files files')
    (hresident : ∀ block ∈ manager.presentBlocks, block < manager.numBlocks) :
    ∀ block < ((List.range manager.occupiedBlocks).map committed.blocksIds).length,
      blocks.Names files' (((List.range manager.occupiedBlocks).map committed.blocksIds).getD
        block blocks.build.emptyBlockHash) (contents block) := by
  intro block hblock
  rw [List.length_map, List.length_range] at hblock
  have hlt := hblock.trans_le (VirtualMemoryManagerBase.occupiedBlocks_le hresident)
  rw [← hcommitted.session.numBlocks] at hlt
  simpa [hblock] using hcommitted.names block hlt

end SigactionVirtualMemoryManager

end Privateer
