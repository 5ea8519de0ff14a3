import Privateer.Logic.Interleaving

/-!
# The indices of a parallel loop

`run_parallel_for_count` cuts `[0, count)` into one range for each thread, with the
arithmetic of `size_t`.  The last ranges are clipped or left out, and every worker
calls the function on the indices of its range in increasing order.  The calls of
all workers, in whatever way they are interleaved, are the indices below `count`,
each once; this is what lets `msync` be modelled by one worker for each block.
-/

namespace Privateer

namespace Program

/-! ## Calls of workers -/

/-- A way in which the calls of workers can come, where every worker makes its own
calls in the order of its list. -/
inductive Interleaved {A : Type*} : List (List A) → List A → Prop
  | done {workers : List (List A)} (hdone : ∀ calls ∈ workers, calls = []) :
      Interleaved workers []
  | call {before after : List (List A)} {next : A} {rest calls : List A}
      (hrest : Interleaved (before ++ rest :: after) calls) :
      Interleaved (before ++ (next :: rest) :: after) (next :: calls)

/-- No call is lost and none is made twice. -/
theorem Interleaved.perm {A : Type*} {workers : List (List A)} {calls : List A}
    (hcalls : Interleaved workers calls) : calls.Perm workers.flatten := by
  induction hcalls with
  | done hdone =>
      rw [List.flatten_eq_nil_iff.mpr hdone]
  | @call before after next rest calls _ ih =>
      rw [List.flatten_append, List.flatten_cons] at ih ⊢
      rw [List.cons_append]
      exact (ih.cons next).trans List.perm_middle.symm

end Program

namespace ParallelFor

/-! ## The ranges -/

/-- What one worker captures, `begin` and `end`. -/
structure WorkerRange where
  first : UInt64
  last : UInt64
  deriving DecidableEq, Repr

namespace WorkerRange

/-- The indices that the worker calls the function on. -/
def indices (range : WorkerRange) : List ℕ :=
  List.range' range.first.toNat (range.last.toNat - range.first.toNat)

end WorkerRange

/-- The number of threads; a machine that does not tell counts as one with a single
thread. -/
def threadCount (hardwareConcurrency : UInt32) (count : UInt64) : UInt64 :=
  min (if hardwareConcurrency = 0 then 1 else hardwareConcurrency.toUInt64) count

def chunkSize (count threads : UInt64) : UInt64 :=
  (count + threads - 1) / threads

/-- The loop that starts the workers, from `threadIndex` on. -/
def startWorkers (count chunk : UInt64) : ℕ → UInt64 → List WorkerRange
  | 0, _ => []
  | remaining + 1, threadIndex =>
      if threadIndex * chunk ≥ count then []
      else
        ⟨threadIndex * chunk, min count (threadIndex * chunk + chunk)⟩ ::
          startWorkers count chunk remaining (threadIndex + 1)

/-- The ranges that `run_parallel_for_count` gives to its workers. -/
def workerRanges (hardwareConcurrency : UInt32) (count : UInt64) : List WorkerRange :=
  if count = 0 then []
  else
    let threads := threadCount hardwareConcurrency count
    startWorkers count (chunkSize count threads) threads.toNat 0

/-! ## Cutting into chunks -/

/-- A chunk that is rounded up fills the count, and by less than one index for each
thread too many. -/
theorem chunk_fills (count : ℕ) {threads : ℕ} (hthreads : 0 < threads) :
    count ≤ threads * ((count + threads - 1) / threads) ∧
      threads * ((count + threads - 1) / threads) ≤ count + threads - 1 := by
  have hsplit := Nat.div_add_mod (count + threads - 1) threads
  have hrest := Nat.mod_lt (count + threads - 1) hthreads
  omega

theorem toNat_min (left right : UInt64) :
    (min left right).toNat = min left.toNat right.toNat := by
  change (if left ≤ right then left else right).toNat = _
  by_cases hle : left ≤ right
  · rw [if_pos hle, min_eq_left (UInt64.le_iff_toNat_le.mp hle)]
  · have hle' : right.toNat ≤ left.toNat := by
      rw [UInt64.le_iff_toNat_le] at hle
      omega
    rw [if_neg hle, min_eq_right hle']

theorem range_clipped {begin count chunk : ℕ} (hbegin : begin ≤ count) :
    List.range' begin (min count (begin + chunk) - begin) ++
        List.range' (begin + chunk) (count - (begin + chunk)) =
      List.range' begin (count - begin) := by
  by_cases hclip : count ≤ begin + chunk
  · rw [min_eq_left hclip, Nat.sub_eq_zero_of_le hclip]
    exact List.append_nil _
  · rw [min_eq_right (by omega), Nat.add_sub_cancel_left, List.range'_append_1]
    congr 1
    omega

/-- The ends of a chunk do not overflow while the loop runs. -/
theorem toNat_ends {threadIndex chunk : UInt64} {remaining : ℕ}
    (hfits : (threadIndex.toNat + (remaining + 1)) * chunk.toNat < 2 ^ 64) :
    (threadIndex * chunk).toNat = threadIndex.toNat * chunk.toNat ∧
      (threadIndex * chunk + chunk).toNat = (threadIndex.toNat + 1) * chunk.toNat := by
  have hwhole : (threadIndex.toNat + 1) * chunk.toNat < 2 ^ 64 := by
    refine lt_of_le_of_lt (Nat.mul_le_mul_right _ ?_) hfits
    omega
  rw [Nat.add_one_mul] at hwhole ⊢
  have hbegin : (threadIndex * chunk).toNat = threadIndex.toNat * chunk.toNat := by
    rw [UInt64.toNat_mul, Nat.mod_eq_of_lt (by omega)]
  exact ⟨hbegin, by rw [UInt64.toNat_add, hbegin, Nat.mod_eq_of_lt hwhole]⟩

/-- Without overflow the workers started from `threadIndex` on get the rest of the
indices, in order. -/
theorem indices_startWorkers {count chunk : UInt64} (remaining : ℕ) {threadIndex : UInt64}
    (hfits : (threadIndex.toNat + remaining) * chunk.toNat < 2 ^ 64)
    (hindex : threadIndex.toNat + remaining < 2 ^ 64)
    (hcover : count.toNat ≤ (threadIndex.toNat + remaining) * chunk.toNat) :
    (startWorkers count chunk remaining threadIndex).flatMap WorkerRange.indices =
      List.range' (threadIndex.toNat * chunk.toNat)
        (count.toNat - threadIndex.toNat * chunk.toNat) := by
  induction remaining generalizing threadIndex with
  | zero =>
      rw [Nat.add_zero] at hcover
      rw [Nat.sub_eq_zero_of_le hcover]
      rfl
  | succ remaining ih =>
      have hstep : (threadIndex.toNat + 1 + remaining) * chunk.toNat < 2 ^ 64 := by
        rwa [Nat.add_assoc, Nat.add_comm 1]
      obtain ⟨hbegin, hend⟩ := toNat_ends hfits
      have hnext : (threadIndex + 1).toNat = threadIndex.toNat + 1 := by
        rw [UInt64.toNat_add, UInt64.toNat_one, Nat.mod_eq_of_lt (by omega)]
      rw [startWorkers]
      by_cases hpast : threadIndex * chunk ≥ count
      · rw [if_pos hpast]
        rw [ge_iff_le, UInt64.le_iff_toNat_le, hbegin] at hpast
        rw [Nat.sub_eq_zero_of_le hpast]
        rfl
      rw [if_neg hpast, List.flatMap_cons, ih (by rwa [hnext]) (by omega)
        (by rw [hnext, Nat.add_assoc, Nat.add_comm 1]; exact hcover), hnext,
        WorkerRange.indices, toNat_min, hbegin, hend]
      rw [ge_iff_le, UInt64.le_iff_toNat_le, hbegin] at hpast
      rw [Nat.add_one_mul]
      generalize threadIndex.toNat * chunk.toNat = begin at *
      exact range_clipped (Nat.lt_of_not_le hpast).le

/-- Every range that is given to a worker is a proper one. -/
theorem bounds_startWorkers {count chunk : UInt64} (hchunk : 0 < chunk.toNat) {remaining : ℕ}
    {threadIndex : UInt64} {range : WorkerRange}
    (hfits : (threadIndex.toNat + remaining) * chunk.toNat < 2 ^ 64)
    (hindex : threadIndex.toNat + remaining < 2 ^ 64)
    (hmem : range ∈ startWorkers count chunk remaining threadIndex) :
    range.first < range.last ∧ range.last ≤ count := by
  induction remaining generalizing threadIndex with
  | zero => cases hmem
  | succ remaining ih =>
      have hnext : (threadIndex + 1).toNat = threadIndex.toNat + 1 := by
        rw [UInt64.toNat_add, UInt64.toNat_one, Nat.mod_eq_of_lt (by omega)]
      rw [startWorkers] at hmem
      by_cases hpast : threadIndex * chunk ≥ count
      · rw [if_pos hpast] at hmem
        cases hmem
      rw [if_neg hpast] at hmem
      cases hmem with
      | head =>
          obtain ⟨hbegin, hend⟩ := toNat_ends hfits
          rw [UInt64.lt_iff_toNat_lt, UInt64.le_iff_toNat_le, toNat_min, hbegin, hend,
            Nat.add_one_mul]
          rw [ge_iff_le, UInt64.le_iff_toNat_le, hbegin] at hpast
          omega
      | tail _ hrest =>
          refine ih ?_ (by omega) hrest
          rwa [hnext, Nat.add_assoc, Nat.add_comm 1]

/-! ## The parallel loop -/

theorem toNat_threadCount {hardwareConcurrency : UInt32} {count : UInt64} (hcount : count ≠ 0) :
    0 < (threadCount hardwareConcurrency count).toNat ∧
      (threadCount hardwareConcurrency count).toNat ≤ count.toNat ∧
      (threadCount hardwareConcurrency count).toNat ≤ max 1 hardwareConcurrency.toNat := by
  have hpos : 0 < count.toNat := by
    rw [Nat.pos_iff_ne_zero, Ne, ← UInt64.toNat_zero, UInt64.toNat_inj]
    exact hcount
  rw [threadCount, toNat_min]
  by_cases hunknown : hardwareConcurrency = 0
  · rw [if_pos hunknown, UInt64.toNat_one]
    omega
  · have hknown : 0 < hardwareConcurrency.toNat := by
      rw [Nat.pos_iff_ne_zero, Ne, ← UInt32.toNat_zero, UInt32.toNat_inj]
      exact hunknown
    rw [if_neg hunknown, UInt32.toNat_toUInt64]
    omega

theorem toNat_chunkSize {count threads : UInt64} (hpos : 0 < threads.toNat)
    (hfits : count.toNat + threads.toNat - 1 < 2 ^ 64) :
    (chunkSize count threads).toNat =
      (count.toNat + threads.toNat - 1) / threads.toNat := by
  have hsum : (count + threads - 1).toNat = count.toNat + threads.toNat - 1 := by
    rw [UInt64.toNat_sub, UInt64.toNat_add, UInt64.toNat_one]
    omega
  rw [chunkSize, UInt64.toNat_div, hsum]

/-- The numbers that the loop of the starts computes with do not overflow. -/
theorem loop_fits {hardwareConcurrency : UInt32} {count : UInt64} (hcount : count ≠ 0)
    (hfits : count.toNat + hardwareConcurrency.toNat < 2 ^ 64) :
    let threads := threadCount hardwareConcurrency count
    0 < (chunkSize count threads).toNat ∧
      count.toNat ≤ threads.toNat * (chunkSize count threads).toNat ∧
      threads.toNat * (chunkSize count threads).toNat < 2 ^ 64 := by
  obtain ⟨hpos, hcount', hknown⟩ := @toNat_threadCount hardwareConcurrency _ hcount
  have hbound := count.toNat_lt
  have hsize := @toNat_chunkSize count _ hpos (by omega)
  obtain ⟨hfills, hexcess⟩ := chunk_fills count.toNat hpos
  rw [← hsize] at hfills hexcess
  refine ⟨Nat.pos_of_ne_zero fun hzero => ?_, hfills, by omega⟩
  rw [hzero] at hfills
  omega

/-- Worker after worker, the indices are those below the count in order. -/
theorem indices_workerRanges {hardwareConcurrency : UInt32} {count : UInt64}
    (hfits : count.toNat + hardwareConcurrency.toNat < 2 ^ 64) :
    (workerRanges hardwareConcurrency count).flatMap WorkerRange.indices =
      List.range count.toNat := by
  rw [workerRanges]
  by_cases hcount : count = 0
  · subst hcount
    rfl
  rw [if_neg hcount]
  obtain ⟨-, hcover, hloop⟩ := loop_fits hcount hfits
  have hthreads := (threadCount hardwareConcurrency count).toNat_lt
  rw [indices_startWorkers, UInt64.toNat_zero, Nat.zero_mul, Nat.sub_zero,
    List.range_eq_range']
  all_goals rw [UInt64.toNat_zero, Nat.zero_add]
  · exact hloop
  · exact hthreads
  · exact hcover

theorem bounds_workerRanges {hardwareConcurrency : UInt32} {count : UInt64}
    {range : WorkerRange} (hfits : count.toNat + hardwareConcurrency.toNat < 2 ^ 64)
    (hrange : range ∈ workerRanges hardwareConcurrency count) :
    range.first < range.last ∧ range.last ≤ count := by
  rw [workerRanges] at hrange
  by_cases hcount : count = 0
  · rw [if_pos hcount] at hrange
    cases hrange
  rw [if_neg hcount] at hrange
  obtain ⟨hchunk, -, hloop⟩ := loop_fits hcount hfits
  refine bounds_startWorkers hchunk ?_ ?_ hrange
  all_goals rw [UInt64.toNat_zero, Nat.zero_add]
  · exact hloop
  · exact (threadCount hardwareConcurrency count).toNat_lt

/-- `run_parallel_for_count` covers every index once: the ranges lie within the count
and are disjoint, their indices are those below the count, and in whatever way the calls
of the workers are interleaved, the function is called once for each index. -/
theorem workers_cover_once (hardwareConcurrency : UInt32) (count : UInt64)
    (hfits : count.toNat + hardwareConcurrency.toNat < 2 ^ 64) :
    (∀ range ∈ workerRanges hardwareConcurrency count,
      range.first ≤ range.last ∧ range.last ≤ count) ∧
    (workerRanges hardwareConcurrency count).Pairwise
      (fun left right => left.indices.Disjoint right.indices) ∧
    (∀ index, (∃ range ∈ workerRanges hardwareConcurrency count, index ∈ range.indices) ↔
      index < count.toNat) ∧
    ∀ calls, Program.Interleaved
      ((workerRanges hardwareConcurrency count).map WorkerRange.indices) calls →
        calls.Perm (List.range count.toNat) := by
  have hindices := indices_workerRanges hfits
  refine ⟨fun range hrange => ?_, ?_, fun index => ?_, fun calls hcalls => ?_⟩
  · obtain ⟨hproper, hwithin⟩ := bounds_workerRanges hfits hrange
    exact ⟨UInt64.le_of_lt hproper, hwithin⟩
  · have hnodup : ((workerRanges hardwareConcurrency count).flatMap
        WorkerRange.indices).Nodup := by
      rw [hindices]
      exact List.nodup_range
    exact (List.nodup_flatMap.mp hnodup).2
  · rw [← List.mem_range, ← hindices, List.mem_flatMap]
  · rw [← hindices]
    exact hcalls.perm

/-- Five indices on four threads: the chunk of two leaves the fourth thread without a
worker. -/
theorem workers_cover_once_fourThreads :
    (workerRanges 4 5).map WorkerRange.indices = [[0, 1], [2, 3], [4]] ∧
      [0, 2, 1, 4, 3].Perm (List.range 5) :=
  ⟨by decide, (workers_cover_once 4 5 (by decide)).2.2.2 _
    (@Program.Interleaved.call _ [] _ _ _ _ (@Program.Interleaved.call _ [[1]] _ _ _ _
      (@Program.Interleaved.call _ [] _ _ _ _ (@Program.Interleaved.call _ [[], [3]] _ _ _ _
        (@Program.Interleaved.call _ [[]] _ _ _ _ (.done (by decide)))))))⟩

theorem filterMap_range_getElem? {A : Type*} (vector : List A) :
    (List.range vector.length).filterMap (vector[·]?) = vector := by
  induction vector with
  | nil => rfl
  | cons entry vector ih =>
      have hfirst : (fun index => (entry :: vector)[index]?) 0 = some entry := rfl
      rw [List.length_cons, List.range_succ_eq_map, List.filterMap_cons_some hfirst,
        List.filterMap_map]
      exact congrArg _ ih

/-- A loop over a vector handles its entries, each once; this is the pool of workers that
`msync` starts. -/
theorem entries_workerRanges {A : Type*} {hardwareConcurrency : UInt32} (vector : List A)
    (hfits : vector.length + hardwareConcurrency.toNat < 2 ^ 64) :
    ((workerRanges hardwareConcurrency (.ofNat vector.length)).flatMap
      WorkerRange.indices).filterMap (vector[·]?) = vector := by
  have hcount : (UInt64.ofNat vector.length).toNat = vector.length := by
    rw [UInt64.toNat_ofNat', Nat.mod_eq_of_lt]
    exact lt_of_le_of_lt (Nat.le_add_right _ _) hfits
  rw [indices_workerRanges (by rwa [hcount]), hcount]
  exact filterMap_range_getElem? vector

end ParallelFor

end Privateer
