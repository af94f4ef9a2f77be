import Md5Simd.Simd.Platform

/-!
# The batch scheduler

`simd/mod.rs`: `hash_many_dispatch` cuts the inputs into runs of equal length and
each run into fused batches and scalar messages, as `pick_batch` says. Without
batch SIMD it is the scalar dispatcher of `multibuf.rs`.

`Filled` (`Multibuf.lean`) is the invariant of both loops: a batch advances it by
the size of the batch, a scalar message by one. What a batch promises its kernel
is `BatchOk`.
-/

namespace Md5Simd

open Lib

/-! ## The loops -/

/-- Size of the next batch of a run, `0` for a scalar message. -/
def pickBatch (left max msgLen : Nat) : Nat :=
  if left < 4 ∨ max < 4 ∨ msgLen < 32 then 0
  else if left < 8 ∧ msgLen < 64 then 0
  else min left (max * MAX_GROUPS)

def Ledger.batchAt (b : Build) (inputs : List Bytes) (lo n : Nat) : EStateM Fault Ledger Unit := do
  record (.batch lo n)
  let batch ← liftE (slice inputs lo n)
  onOutputs (onSlice lo n (Platform.hashEqualN b n batch))

namespace Dispatch

variable (b : Build) (inputs : List Bytes)

def runLength (i len0 run : Nat) : Nat :=
  if h : i + run < inputs.length then
    if inputs[i + run].length = len0 then runLength i len0 (run + 1) else run
  else
    run
termination_by inputs.length - (i + run)

/-- The rest of a run that starts at `i`, `done` messages of it done. -/
def runLoop (max len0 i run done : Nat) : EStateM Fault Ledger Unit :=
  if done < run then
    let batch := pickBatch (run - done) max len0
    if batch = 0 then do
      Ledger.hashAt b inputs (i + done)
      runLoop max len0 i run (done + 1)
    else do
      Ledger.batchAt b inputs (i + done) batch
      runLoop max len0 i run (done + batch)
  else
    pure ()
termination_by run - done

theorem le_runLength (i len0 run : Nat) : run ≤ runLength inputs i len0 run := by
  unfold runLength
  split
  · split
    · exact Nat.le_of_succ_le (le_runLength i len0 (run + 1))
    · exact Nat.le_refl run
  · exact Nat.le_refl run
termination_by inputs.length - (i + run)

def runs (max i : Nat) : EStateM Fault Ledger Unit :=
  if h : i < inputs.length then do
    let len0 := inputs[i].length
    let run := runLength inputs i len0 1
    runLoop b inputs max len0 i run 0
    runs max (i + run)
  else
    pure ()
termination_by inputs.length - i
decreasing_by
  have := le_runLength inputs i inputs[i].length 1
  omega

/-- Hash adjacent equal-length runs by the SIMD selection policy. -/
def hashManyDispatch : EStateM Fault Ledger Unit := do
  let l ← get
  if l.outputs.length < inputs.length then
    throw (Ledger.tooShort l.outputs.length inputs.length)
  else
    let max := Platform.lanes b
    if max ≤ 1 then
      Multibuf.hashManyDispatch b inputs
    else
      runs b inputs max 0

end Dispatch

open Dispatch

/-! ## What a batch meets -/

theorem pickBatch_le (left max msgLen : Nat) : pickBatch left max msgLen ≤ left := by
  unfold pickBatch
  split
  · exact Nat.zero_le left
  · split
    · exact Nat.zero_le left
    · exact Nat.min_le_left _ _

theorem pickBatch_le_groups (left max msgLen : Nat) : pickBatch left max msgLen ≤ max * MAX_GROUPS := by
  unfold pickBatch
  split
  · exact Nat.zero_le _
  · split
    · exact Nat.zero_le _
    · exact Nat.min_le_right _ _

theorem of_pickBatch_ne_zero {left max msgLen : Nat} (h : pickBatch left max msgLen ≠ 0) :
    4 ≤ left ∧ 4 ≤ max ∧ 32 ≤ msgLen := by
  unfold pickBatch at h
  split at h
  · exact absurd rfl h
  · omega

/-- What the batch of `n` inputs from `lo` on promises: it lies inside the inputs, its messages have
one length and they fill one to four groups of the kernel it gets. -/
structure BatchOk (b : Build) (inputs : List Bytes) (lo n : Nat) : Prop where
  nonempty : 1 ≤ n
  inside : lo + n ≤ inputs.length
  sameLength : ∀ s ∈ (inputs.drop lo).take n, ∀ t ∈ (inputs.drop lo).take n, s.length = t.length
  groups : ∃ W, Platform.kernel b n = some W ∧ Lanewise W ∧
    1 ≤ (n + W.LANES - 1) / W.LANES ∧ (n + W.LANES - 1) / W.LANES ≤ MAX_GROUPS

variable {b : Build} {inputs : List Bytes} {outputs : List Digest} {l : Ledger}

theorem batchAt_run {lo n len : Nat} (hlen : inputs.length ≤ outputs.length)
    (hlanes : 1 < Platform.lanes b) (h1 : 1 ≤ n)
    (hin : lo + n ≤ inputs.length) (hwidth : n ≤ Platform.lanes b * MAX_GROUPS)
    (hsame : ∀ s ∈ (inputs.drop lo).take n, s.length = len)
    (hl : Filled b (BatchOk b inputs) inputs outputs lo l) :
    ∃ l', Ledger.batchAt b inputs lo n l = .ok () l' ∧
      Filled b (BatchOk b inputs) inputs outputs (lo + n) l' := by
  have hsize : ((inputs.drop lo).take n).length = n := by
    rw [List.length_take, List.length_drop]; omega
  obtain ⟨W, hW⟩ := exists_kernel hlanes n
  have hok : BatchOk b inputs lo n :=
    ⟨h1, hin, fun s hs t ht => by rw [hsame s hs, hsame t ht],
      W, hW, lanewise_kernel hW, kernel_groups hW h1 hwidth⟩
  have hslot : lo + n ≤ l.outputs.length := by rw [hl.slots]; omega
  have hrun : ∀ zs : List Digest, zs.length = n →
      Platform.hashEqualN b n ((inputs.drop lo).take n) zs =
        .ok () (((inputs.drop lo).take n).map (batchDigest b n)) := fun zs hzs => by
    have hdrop : zs.drop ((inputs.drop lo).take n).length = [] :=
      List.drop_of_length_le (by rw [hsize, hzs])
    rw [hashEqualN_run hsame hsize h1 hwidth (Nat.le_of_eq hzs.symm), hdrop, List.append_nil]
  have hbatch := onSlice_ok hslot (hrun _ (by rw [List.length_take, List.length_drop]; omega))
  unfold Ledger.batchAt
  rw [Ledger.record, bind_ok (modify_run _ l), slice_ok hin, bind_ok (liftE_ok _ _)]
  refine ⟨_, zoom_ok hbatch, hl.call (c := .batch lo n) rfl (fun lo' n' h => ?_) ?_ fun hkernel => ?_⟩
  · cases h
    exact hok
  · rw [length_putSlice (by rw [List.length_map, hsize]) hslot]
  · have hdigest : batchDigest b n = hash b := funext (batchDigest_eq hkernel n)
    rw [hl.digests hkernel, hdigest]
    exact (fill_add hin).symm

/-! ## The loops fill the slice -/

theorem runLength_run {i len0 run : Nat} (hrun : i + run ≤ inputs.length)
    (hsame : ∀ s ∈ (inputs.drop i).take run, s.length = len0) :
    i + runLength inputs i len0 run ≤ inputs.length ∧
      ∀ s ∈ (inputs.drop i).take (runLength inputs i len0 run), s.length = len0 := by
  unfold runLength
  split
  · rename_i h
    split
    · rename_i hlen
      refine runLength_run (by omega) fun s hs => ?_
      have hlt : run < (inputs.drop i).length := by rw [List.length_drop]; omega
      rw [List.take_succ_eq_append_getElem hlt, List.mem_append, List.mem_singleton,
        List.getElem_drop] at hs
      rcases hs with hs | rfl
      · exact hsame s hs
      · exact hlen
    · exact ⟨hrun, hsame⟩
  · exact ⟨hrun, hsame⟩
termination_by inputs.length - (i + run)

theorem runLength_head {i : Nat} (h : i < inputs.length) :
    i + runLength inputs i inputs[i].length 1 ≤ inputs.length ∧
      ∀ s ∈ (inputs.drop i).take (runLength inputs i inputs[i].length 1),
        s.length = inputs[i].length := by
  refine runLength_run h ?_
  intro s hs
  rw [List.drop_eq_getElem_cons h, List.take_succ_cons, List.take_zero, List.mem_singleton] at hs
  rw [hs]

/-- **One run**: whatever its split into batches and scalar messages, it fills its slots. -/
theorem runLoop_run (hlen : inputs.length ≤ outputs.length) {len0 i run : Nat}
    (hrun : i + run ≤ inputs.length) (hsame : ∀ s ∈ (inputs.drop i).take run, s.length = len0)
    (done : Nat) (hdone : done ≤ run) (l : Ledger)
    (hl : Filled b (BatchOk b inputs) inputs outputs (i + done) l) :
    ∃ l', runLoop b inputs (Platform.lanes b) len0 i run done l = .ok () l' ∧
      Filled b (BatchOk b inputs) inputs outputs (i + run) l' := by
  unfold runLoop
  split
  · rename_i hlt
    dsimp only
    split
    · obtain ⟨m, hm, hfill⟩ := hashAt_run hlen (show i + done < inputs.length by omega) hl
      rw [bind_ok hm]
      exact runLoop_run hlen hrun hsame (done + 1) hlt m hfill
    · rename_i hpos
      have hle := pickBatch_le (run - done) (Platform.lanes b) len0
      have hgroups := pickBatch_le_groups (run - done) (Platform.lanes b) len0
      obtain ⟨-, hlanes, -⟩ := of_pickBatch_ne_zero hpos
      generalize pickBatch (run - done) (Platform.lanes b) len0 = batch at hpos hle hgroups
      have hsub : ∀ s ∈ (inputs.drop (i + done)).take batch, s.length = len0 := fun s hs => by
        refine hsame s (List.mem_of_mem_drop (i := done) ?_)
        rw [List.drop_take, List.drop_drop]
        exact List.take_subset_take_left _ (by omega) hs
      obtain ⟨m, hm, hfill⟩ := batchAt_run hlen (by omega) (Nat.pos_of_ne_zero hpos) (by omega)
        hgroups hsub hl
      rw [bind_ok hm]
      rw [Nat.add_assoc] at hfill
      exact runLoop_run hlen hrun hsame (done + batch) (by omega) m hfill
  · obtain rfl : done = run := by omega
    exact ⟨l, rfl, hl⟩
termination_by run - done

theorem runs_run (hlen : inputs.length ≤ outputs.length) (i : Nat) (hi : i ≤ inputs.length)
    (l : Ledger) (hl : Filled b (BatchOk b inputs) inputs outputs i l) :
    ∃ l', runs b inputs (Platform.lanes b) i l = .ok () l' ∧
      Filled b (BatchOk b inputs) inputs outputs inputs.length l' := by
  unfold runs
  split
  · rename_i hlt
    obtain ⟨hin, hsame⟩ := runLength_head hlt
    obtain ⟨m, hm, hfill⟩ := runLoop_run hlen hin hsame 0 (Nat.zero_le _) l hl
    dsimp only
    rw [bind_ok hm]
    exact runs_run hlen _ hin m hfill
  · obtain rfl : i = inputs.length := by omega
    exact ⟨l, rfl, hl⟩
termination_by inputs.length - i
decreasing_by
  have := le_runLength inputs i inputs[i].length 1
  omega

/-- **The scheduler fills the slice** on every platform. -/
theorem hashManyDispatch_run (hlen : inputs.length ≤ outputs.length) :
    ∃ l', hashManyDispatch b inputs ⟨outputs, []⟩ = .ok () l' ∧
      Filled b (BatchOk b inputs) inputs outputs inputs.length l' := by
  unfold hashManyDispatch
  rw [bind_ok (get_run _), if_neg (by simpa using hlen)]
  by_cases hmax : Platform.lanes b ≤ 1
  · rw [if_pos hmax]
    exact Multibuf.hashManyDispatch_run _ hlen
  · rw [if_neg hmax]
    exact runs_run hlen 0 (Nat.zero_le _) _ filled_zero

theorem hashManyDispatch_eq (hk : b.OptKernelOk) (hlen : inputs.length ≤ outputs.length) :
    ∃ calls, hashManyDispatch b inputs ⟨outputs, []⟩ =
      .ok () ⟨inputs.map (hash b) ++ outputs.drop inputs.length, calls⟩ := by
  obtain ⟨l, hrun, hl⟩ := hashManyDispatch_run hlen
  refine ⟨l.calls, hrun.trans ?_⟩
  rw [← fill_all, ← hl.digests hk]

theorem hashManyDispatch_short (h : l.outputs.length < inputs.length) :
    hashManyDispatch b inputs l = .error (Ledger.tooShort l.outputs.length inputs.length) l := by
  unfold hashManyDispatch
  rw [bind_ok (get_run _), if_pos h]
  rfl

/-! ## The dispatch contract -/

/-- **Batch dispatch is one-shot hashing in place.** On every build and platform: a slice with a slot
for every input ends with the one-shot digest of every input in its slot and all other slots as they
were, and a slice that is too short panics with no slot written. -/
theorem hash_many_dispatch (b : Build) (hk : b.OptKernelOk) (inputs : List Bytes)
    (outputs : List Digest) :
    (inputs.length ≤ outputs.length →
      ∃ calls, hashManyDispatch b inputs ⟨outputs, []⟩ =
        .ok () ⟨inputs.map (hash b) ++ outputs.drop inputs.length, calls⟩) ∧
      (outputs.length < inputs.length →
        hashManyDispatch b inputs ⟨outputs, []⟩ =
          .error (Ledger.tooShort outputs.length inputs.length) ⟨outputs, []⟩) :=
  ⟨hashManyDispatch_eq hk, fun h => hashManyDispatch_short (l := ⟨outputs, []⟩) h⟩

/-- A short message and then five of a block, which are one batch. -/
theorem hash_many_dispatch_opt :
    (∃ calls, hashManyDispatch optBuild ([2] :: List.replicate 5 (List.replicate 64 1))
        ⟨List.replicate 7 emptyDigest, []⟩ =
      .ok () ⟨([2] :: List.replicate 5 (List.replicate 64 1)).map (hash optBuild) ++
        [emptyDigest], calls⟩) ∧
      hashManyDispatch optBuild ([2] :: List.replicate 5 (List.replicate 64 1))
        ⟨[emptyDigest], []⟩ = .error (Ledger.tooShort 1 6) ⟨[emptyDigest], []⟩ :=
  ⟨(hash_many_dispatch optBuild optKernelOk_optBuild ([2] :: List.replicate 5 (List.replicate 64 1))
      (List.replicate 7 emptyDigest)).1 (by decide),
    (hash_many_dispatch optBuild optKernelOk_optBuild ([2] :: List.replicate 5 (List.replicate 64 1))
      [emptyDigest]).2 (by decide)⟩

/-- **No call of a dispatch is outside its contract**, with debug assertions or without, on every
platform. The run returns, and since it would fault at an index or slice out of range, a gather
outside its contract, a read outside the allocation of its pointer and an unreachable branch, it
meets none of these; its calls take the inputs in order without gap or overlap; and every batch is
non-empty, of one length and of one to four groups of the kernel it gets. -/
theorem dispatch_batches (b : Build) (inputs : List Bytes) (outputs : List Digest)
    (hlen : inputs.length ≤ outputs.length) :
    ∃ l, hashManyDispatch b inputs ⟨outputs, []⟩ = .ok () l ∧ l.outputs.length = outputs.length ∧
      Tiles 0 inputs.length l.calls ∧ ∀ lo n, .batch lo n ∈ l.calls → BatchOk b inputs lo n := by
  obtain ⟨l, hrun, hl⟩ := hashManyDispatch_run (b := b) hlen
  exact ⟨l, hrun, hl.slots, hl.tiles, hl.batches⟩

/-- Seventy messages on sixteen lanes, without debug assertions. -/
theorem dispatch_batches_release :
    ∃ l, hashManyDispatch { optBuild with debugAssertions := false }
        (List.replicate 70 (List.replicate 64 1)) ⟨List.replicate 70 emptyDigest, []⟩ = .ok () l ∧
      l.outputs.length = (List.replicate 70 emptyDigest).length ∧
      Tiles 0 (List.replicate 70 (List.replicate 64 (1 : U8))).length l.calls ∧
      ∀ lo n, .batch lo n ∈ l.calls → BatchOk { optBuild with debugAssertions := false }
        (List.replicate 70 (List.replicate 64 1)) lo n :=
  dispatch_batches { optBuild with debugAssertions := false } (List.replicate 70 (List.replicate 64 1))
    (List.replicate 70 emptyDigest) (by rw [List.length_replicate, List.length_replicate])

end Md5Simd
