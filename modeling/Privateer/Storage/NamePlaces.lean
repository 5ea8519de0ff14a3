import Privateer.Data.HashNames
import Privateer.Storage.CallRules

/-!
# The places of named blocks

Every operation of the block storage works on a block in the one subdirectory that its
name selects, on either tier.  With names made from digests, that is the subdirectory
whose number is the value of the first three bytes of the digest modulo 1024.
-/

namespace Privateer

/-! ## Building with digests -/

/-- A build whose names are made from digests; the digest function and the compressor are
parameters. -/
def Build.ofDigest (digestOf : List Byte → Digest) (useCompression : Bool)
    (compress : List Byte → List Byte) (decompress : List Byte → Option (List Byte)) :
    Build BlockName where
  useCompression := useCompression
  computeHash := fun content => hashName (digestOf content)
  emptyBlockHash := emptyBlockName
  prefixIndex := BlockName.prefixIndex
  compress := compress
  decompress := decompress

variable {Hash A : Type}

/-- The data files that a call names. -/
def Call.files : Call Hash → List (DataFile Hash)
  | .fileExists file | .fileSize file | .openFile file _ | .ftruncate file _
  | .pwrite file _ | .pread file _ | .remove file => [file]
  | .rename source target | .copyFile source target => [source, target]
  | _ => []

/-- A block is where its name says. -/
def Build.Locates (build : Build Hash) (file : DataFile Hash) : Prop :=
  ∀ location subdirectory name, file = .block location subdirectory name →
    subdirectory = build.prefixIndex name % numSubdirs

def Call.Locates (build : Build Hash) (call : Call Hash) : Prop :=
  ∀ file ∈ call.files, build.Locates file

namespace BlockStorage

variable {build : Build Hash} {storage : BlockStorage Hash}

theorem locates_of_drawn {file : DataFile Hash} {number : ℕ}
    (hdrawn : file.drawn = some number) : build.Locates file := by
  rintro location subdirectory name rfl
  cases hdrawn

theorem locates_own (location : Path) (name : Hash) :
    build.Locates (.block location (build.prefixIndex name % numSubdirs) name) := by
  rintro location' subdirectory other hfile
  cases hfile
  rfl

theorem locates_one {call : Call Hash} {file : DataFile Hash} (hfiles : call.files = [file])
    (hfile : build.Locates file) : call.Locates build := by
  rw [Call.Locates, hfiles]
  exact List.forall_mem_singleton.mpr hfile

theorem locates_two {call : Call Hash} {source target : DataFile Hash}
    (hfiles : call.files = [source, target]) (hsource : build.Locates source)
    (htarget : build.Locates target) : call.Locates build := by
  rw [Call.Locates, hfiles]
  exact List.forall_mem_cons.mpr ⟨hsource, List.forall_mem_singleton.mpr htarget⟩

theorem locates_none {call : Call Hash} (hfiles : call.files = []) : call.Locates build := by
  rw [Call.Locates, hfiles]
  exact List.forall_mem_nil _

/-- The calls with which a block is stored or looked up name it where it belongs. -/
theorem permits_locates (name : Hash) (onStash : Bool) :
    storage.Permits build (Call.Locates build) name onStash where
  directoryExists := locates_none rfl
  createDirectory := locates_none rfl
  fileExists := locates_one rfl (locates_own _ _)
  mkstemp := fun _ => locates_none rfl
  ftruncate := fun _ _ _ => locates_one rfl (locates_of_drawn rfl)
  pwrite := fun _ _ _ => locates_one rfl (locates_of_drawn rfl)
  rename := fun _ _ => locates_two rfl (locates_of_drawn rfl) (locates_own _ _)
  remove := fun _ _ => locates_one rfl (locates_of_drawn rfl)
  close := locates_none rfl

theorem locates_storeBlock (buffer : List Byte) (writeToFile : Bool) (index : ℕ) :
    (storeBlock build storage buffer writeToFile index).CallsOnly (Call.Locates build) :=
  permits_storeBlock (permits_locates _)

theorem locates_getBlockFullPath (index : ℕ) (name : Hash) :
    (getBlockFullPath build storage index name).CallsOnly (Call.Locates build) :=
  permits_getBlockFullPath (permits_locates name)
    (locates_two rfl (locates_own _ _) (locates_own _ _))

theorem locates_commitStashBlock (index : ℕ) :
    (commitStashBlock build storage index).CallsOnly (Call.Locates build) := by
  apply permits_commitStashBlock
  intro uuid huuid
  have hfile : build.Locates (.stash storage.stashDirectory uuid) := locates_of_drawn rfl
  exact
    { tiers := permits_locates
      openFile := locates_one rfl hfile
      pread := fun _ => locates_one rfl hfile
      remove := locates_one rfl hfile
      rename := fun _ _ => locates_two rfl hfile (locates_own _ _) }

end BlockStorage

/-! ## Names made from digests -/

/-- A call that names a block by its digest names it in the subdirectory of the leading
bytes of the digest. -/
def Call.FollowsDigest (call : Call BlockName) : Prop :=
  ∀ location subdirectory digest,
    .block location subdirectory (hashName digest) ∈ call.files →
      subdirectory = leadingBytes digest % 1024

theorem Call.Locates.followsDigest {build : Build BlockName} {call : Call BlockName}
    (hbuild : build.prefixIndex = BlockName.prefixIndex) (hcall : call.Locates build) :
    call.FollowsDigest := by
  intro location subdirectory digest hmem
  rw [hcall _ hmem location subdirectory _ rfl, hbuild, prefixIndex_hashName]
  rfl

/-- Names of digests have 64 characters, all hexadecimal digits, and differ for different
digests; `get_blocks_subdirectory` reads each of them without an exception and selects the
subdirectory of the first three bytes; and all operations that store or look up a block
work on it there. -/
theorem names_place_blocks (digestOf : List Byte → Digest) (useCompression : Bool)
    (compress : List Byte → List Byte) (decompress : List Byte → Option (List Byte))
    (storage : BlockStorage BlockName) :
    let build := Build.ofDigest digestOf useCompression compress decompress
    (∀ digest, (hashText digest).length = 64 ∧
      ∀ character ∈ hashText digest, IsNameDigit character) ∧
    Function.Injective hashText ∧
    (∀ digest, subdirIndex 1024 (hashText digest) =
      .ok (UInt64.ofNat (leadingBytes digest % 1024))) ∧
    (∀ buffer index,
      (storage.storeBlock build buffer true index).CallsOnly Call.FollowsDigest) ∧
    (∀ index, (storage.commitStashBlock build index).CallsOnly Call.FollowsDigest) ∧
    ∀ index digest,
      (storage.getBlockFullPath build index (hashName digest)).CallsOnly Call.FollowsDigest ∧
        ∀ found, (storage.getBlockFullPath build index (hashName digest)).Returns found →
          found.1.2 = leadingBytes digest % 1024 := by
  intro build
  have hfollows : ∀ call : Call BlockName, call.Locates build → call.FollowsDigest :=
    fun call hcall => hcall.followsDigest rfl
  refine ⟨fun digest => ⟨length_hashText digest, isNameDigit_hashText digest⟩,
    hashText_injective, fun digest => ?_, fun buffer index => ?_, fun index => ?_,
    fun index digest => ⟨?_, fun found hfound => ?_⟩⟩
  · have hbound := leadingBytes_lt digest
    rw [subdirIndex_hashText]
    refine congrArg _ (UInt64.toNat_inj.mp ?_)
    have hmodulus : (1024 : UInt64).toNat = 1024 := rfl
    rw [UInt64.toNat_mod, UInt64.toNat_ofNat', UInt64.toNat_ofNat', hmodulus]
    omega
  · exact (BlockStorage.locates_storeBlock buffer true index).mono hfollows
  · exact (BlockStorage.locates_commitStashBlock index).mono hfollows
  · exact (BlockStorage.locates_getBlockFullPath index _).mono hfollows
  · rw [(BlockStorage.getBlockFullPath_result hfound).1]
    exact congrArg (· % 1024) (prefixIndex_hashName digest)

end Privateer
