import Md5Simd.Grouping
import Md5Simd.Simd.Plan

/-!
# What a workload costs

The calls of `hash_many` and of `hash_many_grouped` are functions of the build and
the lengths (`schedules_by_length`): neither what the messages hold nor how the
unstable sort orders equal lengths is seen in them. So what they cost is read off
the runs of the lengths. Grouping never hashes more messages alone than `hash_many`
does (`grouping_alone_le`), and on batch SIMD what a run leaves alone is bounded
whatever its size (`hash_many_tails`).
-/

namespace Md5Simd

open Lib Engine

/-- Whether grouping hashes messages of these lengths in sorted order. -/
def reorders (lens : List Nat) : Bool :=
  (groups lens).all (·.length < 4) && lens.any (4 ≤ lens.count ·)

/-- The order of the lengths in which grouping hashes. -/
def groupedLengths (lens : List Nat) : List Nat :=
  if reorders lens then lens.mergeSort (· ≤ ·) else lens

/-- A message hashed on its own. -/
def Call.isScalar : Call → Bool
  | .scalar _ => true
  | _ => false

/-- How many of `n` messages of length `len` in a row are hashed on their own. -/
def alone (b : Build) (len n : Nat) : Nat :=
  let max := Platform.lanes b
  if 1 < max then
    let width := max * MAX_GROUPS
    let rest := if pickBatch width max len = 0 then n else n % width
    if pickBatch rest max len = 0 then rest else 0
  else if pairPathActive b ∧ 64 ≤ len then n % 2
  else n

/-- A bound on what batch SIMD leaves alone of `n` messages of length `len`. -/
def leftover (len n : Nat) : Nat :=
  if 64 ≤ len then min n 3 else if 32 ≤ len then min n 7 else n

variable {b : Build} {sorter : UnstableSort} {inputs : List Bytes} {outputs : List Digest}
  {lens : List Nat}

/-! ## Grouping by length -/

theorem fourAdjacent_iff :
    FourAdjacent inputs ↔ ∃ run ∈ groups (lengths inputs), 4 ≤ run.length :=
  exists_hasRun_iff (by decide) _

theorem sorts_eq_reorders : sorts sorter inputs = reorders (lengths inputs) := by
  have hmany : (∃ len, 4 ≤ (lengths inputs).count len) ↔
      ∃ len ∈ lengths inputs, 4 ≤ (lengths inputs).count len := by
    refine exists_congr fun len => ⟨fun h => ⟨List.count_pos_iff.mp (by omega), h⟩, And.right⟩
  rw [Bool.eq_iff_iff, sorts_iff, fourAdjacent_iff, hmany, reorders]
  simp

/-- Whatever the sort does with equal lengths, the lengths come out as one list. -/
theorem lengths_sortedInputs_eq (sorter : UnstableSort) (inputs : List Bytes) :
    lengths (sortedInputs sorter inputs) = (lengths inputs).mergeSort (· ≤ ·) := by
  apply List.Perm.eq_of_pairwise' lengths_sortedInputs_sorted (List.pairwise_mergeSort' _ _)
  exact lengths_sortedInputs_perm.trans (List.mergeSort_perm _ _).symm

theorem hashManyGrouped_plan (b : Build) (sorter : UnstableSort)
    (hlen : inputs.length ≤ outputs.length) :
    ∃ outs, hashManyGrouped b sorter inputs ⟨outputs, []⟩ =
      .ok () ⟨outs, plan b (groupedLengths (lengths inputs))⟩ := by
  rw [hashManyGrouped_eq sorter hlen, sorts_eq_reorders, groupedLengths]
  by_cases hsorts : reorders (lengths inputs) = true
  · have hslots : (sortedInputs sorter inputs).length ≤
        (List.replicate inputs.length (Vector.replicate 16 0 : Digest)).length := by
      rw [length_sortedInputs, List.length_replicate]
    obtain ⟨l, hrun, hl, hcalls⟩ := dispatch_plan b hslots
    rw [List.length_replicate] at hl
    obtain ⟨outs, hsorted⟩ := hashSorted_dispatch hlen hrun hl
    rw [if_pos hsorts, if_pos hsorts, ← lengths_sortedInputs_eq sorter inputs, ← hcalls]
    exact ⟨outs, hsorted⟩
  · rw [if_neg hsorts, if_neg hsorts]
    obtain ⟨l, hrun, -, hcalls⟩ := dispatch_plan b hlen
    rw [← hcalls]
    exact ⟨l.outputs, hrun⟩

theorem hashMany_plan (b : Build) (hlen : inputs.length ≤ outputs.length) :
    ∃ outs, hashMany b inputs ⟨outputs, []⟩ = .ok () ⟨outs, plan b (lengths inputs)⟩ := by
  obtain ⟨l, hrun, -, hcalls⟩ := dispatch_plan b hlen
  rw [← hcalls]
  exact ⟨l.outputs, hrun⟩

/-- **Schedules see lengths only.** Two workloads with the same lengths are hashed by the same
calls, by `hash_many` and by `hash_many_grouped`, whatever their messages and their output slices
hold and however the two sorts order equal lengths; the calls are those of the runs of the lengths,
which grouping sorts when no run has four messages and some length has. -/
theorem schedules_by_length (b : Build) (sorter : UnstableSort) (inputs : List Bytes)
    (outputs : List Digest) (hlen : inputs.length ≤ outputs.length) :
    (∃ outs, hashMany b inputs ⟨outputs, []⟩ = .ok () ⟨outs, plan b (lengths inputs)⟩) ∧
      ∃ outs, hashManyGrouped b sorter inputs ⟨outputs, []⟩ =
        .ok () ⟨outs, plan b (groupedLengths (lengths inputs))⟩ :=
  ⟨hashMany_plan b hlen, hashManyGrouped_plan b sorter hlen⟩

theorem mergeSort_blocks :
    [64, 1, 64, 1, 64, 1, 64].mergeSort (· ≤ ·) = [1, 1, 1, 64, 64, 64, 64] := by
  apply List.Perm.eq_of_pairwise' (List.pairwise_mergeSort' _ _) (by decide)
  exact (List.mergeSort_perm _ _).trans (by decide)

/-- Seven messages one by one, or three one by one and four in a batch. -/
theorem schedules_by_length_blocks :
    (∃ outs, hashMany optBuild ([64, 1, 64, 1, 64, 1, 64].map (List.replicate · 0))
        ⟨List.replicate 7 emptyDigest, []⟩ = .ok () ⟨outs, scalars 0 7⟩) ∧
      ∃ outs, hashManyGrouped optBuild .merge ([64, 1, 64, 1, 64, 1, 64].map (List.replicate · 0))
        ⟨List.replicate 7 emptyDigest, []⟩ = .ok () ⟨outs, scalars 0 3 ++ [.batch 3 4]⟩ := by
  have h := schedules_by_length optBuild .merge ([64, 1, 64, 1, 64, 1, 64].map (List.replicate · 0))
    (List.replicate 7 emptyDigest) (by decide)
  have hlens : lengths ([64, 1, 64, 1, 64, 1, 64].map (List.replicate · 0)) =
      [64, 1, 64, 1, 64, 1, 64] := by decide
  have hgrouped : groupedLengths [64, 1, 64, 1, 64, 1, 64] = [1, 1, 1, 64, 64, 64, 64] :=
    (if_pos (by decide)).trans mergeSort_blocks
  have hplan : plan optBuild [64, 1, 64, 1, 64, 1, 64] = scalars 0 7 := by decide
  have hplan' : plan optBuild [1, 1, 1, 64, 64, 64, 64] = scalars 0 3 ++ [.batch 3 4] := by decide
  rwa [hlens, hgrouped, hplan, hplan'] at h

/-! ## What is hashed alone -/

/-- How many calls hash one message. -/
def scalarCalls (calls : List Call) : Nat := calls.countP Call.isScalar

theorem scalarCalls_append (cs cs' : List Call) :
    scalarCalls (cs ++ cs') = scalarCalls cs + scalarCalls cs' :=
  List.countP_append

@[simp] theorem scalarCalls_scalars (lo n : Nat) : scalarCalls (scalars lo n) = n := by
  have hall : ∀ c ∈ scalars lo n, c.isScalar = true := by
    intro c hc
    obtain ⟨i, -, rfl⟩ := List.mem_map.mp hc
    rfl
  rw [scalarCalls, List.countP_eq_length.mpr hall, scalars, List.length_map, List.length_range']

theorem scalarCalls_none {cs : List Call} (h : ∀ c ∈ cs, c.isScalar = false) :
    scalarCalls cs = 0 := by
  rw [scalarCalls, List.countP_eq_zero]
  intro c hc
  rw [h c hc]
  exact Bool.false_ne_true

theorem scalarCalls_runCalls (b : Build) (len lo n : Nat) :
    scalarCalls (runCalls b len lo n) = alone b len n := by
  unfold runCalls alone
  dsimp only
  by_cases hb : 1 < Platform.lanes b
  · rw [if_pos hb, if_pos hb]
    dsimp only [batched]
    generalize Platform.lanes b * MAX_GROUPS = width
    have hrest : n - (if pickBatch width (Platform.lanes b) len = 0 then 0 else n / width) * width =
        if pickBatch width (Platform.lanes b) len = 0 then n else n % width := by
      split
      · rw [Nat.zero_mul, Nat.sub_zero]
      · rw [Nat.mod_eq_sub_mul_div, Nat.mul_comm]
    rw [scalarCalls_append, scalarCalls_none (by simp [Call.isScalar]), hrest, Nat.zero_add]
    generalize (if pickBatch width (Platform.lanes b) len = 0 then n else n % width) = rest
    split
    · exact scalarCalls_scalars _ rest
    · rfl
  rw [if_neg hb, if_neg hb]
  by_cases hp : pairPathActive b = true
  swap
  · rw [if_neg hp, if_neg fun h => hp h.1, scalarCalls_scalars]
  rw [if_pos hp, paired]
  by_cases hlen : 64 ≤ len
  · rw [if_pos hlen, if_pos ⟨hp, hlen⟩, scalarCalls_append,
      scalarCalls_none (by simp [Call.isScalar]), scalarCalls_scalars, Nat.zero_add]
  · rw [if_neg hlen, if_neg fun h => hlen h.2, scalarCalls_scalars]

theorem scalarCalls_planRuns (b : Build) (lens : List Nat) (lo : Nat) :
    scalarCalls (planRuns b lo (groups lens)) = runSum (alone b) lens := by
  induction lens using run_induction generalizing lo with
  | hnil => rfl
  | hrun r len lens hr hlens ih =>
    rw [planRuns_append b hr hlens, scalarCalls_append, scalarCalls_runCalls, ih,
      runSum_append hr hlens]

/-- **What a schedule leaves alone** is the sum over the runs. -/
theorem scalarCalls_plan (b : Build) (lens : List Nat) :
    scalarCalls (plan b lens) = runSum (alone b) lens := scalarCalls_planRuns b lens 0

/-! ## Bounds on it -/

theorem four_le_lanes : 1 < Platform.lanes b → 4 ≤ Platform.lanes b := by
  unfold Platform.lanes
  split
  · omega
  split
  · exact fun _ => show 4 ≤ 8 by decide
  split
  · exact fun _ => show 4 ≤ 16 by decide
  split
  · exact fun _ => show 4 ≤ 8 by decide
  · omega

theorem alone_le (b : Build) (len n : Nat) : alone b len n ≤ n := by
  unfold alone
  dsimp only
  split
  · have hrest : (if pickBatch (Platform.lanes b * MAX_GROUPS) (Platform.lanes b) len = 0 then n
        else n % (Platform.lanes b * MAX_GROUPS)) ≤ n := by
      split
      · exact Nat.le_refl n
      · exact Nat.mod_le n _
    generalize (if pickBatch (Platform.lanes b * MAX_GROUPS) (Platform.lanes b) len = 0 then n
        else n % (Platform.lanes b * MAX_GROUPS)) = rest at hrest ⊢
    split
    · exact hrest
    · exact Nat.zero_le n
  · split
    · exact Nat.mod_le n 2
    · exact Nat.le_refl n

theorem alone_le_leftover (hb : 1 < Platform.lanes b) (len n : Nat) :
    alone b len n ≤ leftover len n := by
  have hmax := four_le_lanes hb
  have hle := alone_le b len n
  have hfull : 32 ≤ len → pickBatch (Platform.lanes b * MAX_GROUPS) (Platform.lanes b) len ≠ 0 := by
    intro hlen
    rw [pickBatch_ne_zero_iff, MAX_GROUPS]
    omega
  -- what is left behind the full batches is one more batch, or too few for one
  have hrest : 32 ≤ len → alone b len n ≠ 0 →
      pickBatch (alone b len n) (Platform.lanes b) len = 0 := by
    intro hlen hne
    simp only [alone, if_pos hb, if_neg (hfull hlen)] at hne ⊢
    split at hne
    · rename_i hzero
      rwa [if_pos hzero]
    · exact absurd rfl hne
  have hfew (k : Nat) (hk : 64 ≤ len ∧ k = 4 ∨ 32 ≤ len ∧ k = 8) : alone b len n < k := by
    by_contra hge
    have hzero := hrest (by omega) (by omega)
    exact (pickBatch_ne_zero_iff.mpr ⟨hmax, by omega⟩) hzero
  unfold leftover
  split
  · have := hfew 4 (.inl ⟨by assumption, rfl⟩)
    omega
  · split
    · have := hfew 8 (.inr ⟨by assumption, rfl⟩)
      omega
    · exact hle

theorem alone_add_le (hb : ¬1 < Platform.lanes b) (len m n : Nat) :
    alone b len (m + n) ≤ alone b len m + alone b len n := by
  simp only [alone, if_neg hb]
  split
  · omega
  · exact Nat.le_refl _

theorem alone_of_lt_four (hb : 1 < Platform.lanes b) (len : Nat) {n : Nat} (hn : n < 4) :
    alone b len n = n := by
  have hsmall (k : Nat) (hk : k < 4) : pickBatch k (Platform.lanes b) len = 0 := if_pos (.inl hk)
  have hwidth : n % (Platform.lanes b * MAX_GROUPS) = n := by
    apply Nat.mod_eq_of_lt
    rw [MAX_GROUPS]
    omega
  simp only [alone, if_pos hb, hwidth, ite_self, hsmall n hn, if_true]

theorem runSum_groupedLengths (b : Build) (lens : List Nat) :
    runSum (alone b) (groupedLengths lens) ≤ runSum (alone b) lens := by
  unfold groupedLengths
  split
  swap
  · exact Nat.le_refl _
  rename_i hsorts
  have hshort : ∀ run ∈ groups lens, run.length < 4 := by
    have h := (Bool.and_eq_true_iff.mp hsorts).1
    simpa using h
  have hperm : (lens.mergeSort (· ≤ ·)).Perm lens := List.mergeSort_perm lens _
  by_cases hb : 1 < Platform.lanes b
  · -- all runs are too short to be batched
    calc runSum (alone b) (lens.mergeSort (· ≤ ·))
        ≤ runSum (fun _ n => n) (lens.mergeSort (· ≤ ·)) := runSum_mono (alone_le b) _
      _ = lens.length := by rw [runSum_length, hperm.length_eq]
      _ = runSum (fun _ n => n) lens := (runSum_length lens).symm
      _ = runSum (alone b) lens :=
          (runSum_congr fun run hrun len => alone_of_lt_four hb len (hshort run hrun)).symm
  · have hzero (len : Nat) : alone b len 0 = 0 := Nat.le_zero.mp (alone_le b len 0)
    rw [runSum_sorted _ (List.pairwise_mergeSort' _ lens)]
    simp only [hperm.count_eq]
    exact sum_count_le_runSum hzero (alone_add_le hb) _ lens

/-- **Grouping never hashes more messages alone** than `hash_many` does, on any build. -/
theorem grouping_alone_le (b : Build) (sorter : UnstableSort) (inputs : List Bytes)
    (outputs : List Digest) (hlen : inputs.length ≤ outputs.length) :
    ∃ l l', hashMany b inputs ⟨outputs, []⟩ = .ok () l ∧
      hashManyGrouped b sorter inputs ⟨outputs, []⟩ = .ok () l' ∧
      scalarCalls l'.calls ≤ scalarCalls l.calls := by
  obtain ⟨outs, hmany⟩ := hashMany_plan b hlen
  obtain ⟨outs', hgrouped⟩ := hashManyGrouped_plan b sorter hlen
  refine ⟨_, _, hmany, hgrouped, ?_⟩
  rw [scalarCalls_plan, scalarCalls_plan]
  exact runSum_groupedLengths b (lengths inputs)

theorem grouping_alone_le_blocks :
    ∃ l l', hashMany optBuild ([64, 1, 64, 1, 64, 1, 64].map (List.replicate · 0))
        ⟨List.replicate 7 emptyDigest, []⟩ = .ok () l ∧
      hashManyGrouped optBuild .merge ([64, 1, 64, 1, 64, 1, 64].map (List.replicate · 0))
        ⟨List.replicate 7 emptyDigest, []⟩ = .ok () l' ∧
      scalarCalls l'.calls ≤ scalarCalls l.calls :=
  grouping_alone_le optBuild .merge ([64, 1, 64, 1, 64, 1, 64].map (List.replicate · 0))
    (List.replicate 7 emptyDigest) (by decide)

/-! ## What a run leaves -/

/-- How many of the messages picked by `p` are hashed on their own. -/
def scalarsAt (calls : List Call) (p : Nat → Bool) : Nat :=
  calls.countP fun c => c.isScalar && p c.start

/-- The messages `lo..lo + n`. -/
def inRun (lo n i : Nat) : Bool := decide (lo ≤ i ∧ i < lo + n)

theorem scalarsAt_append (cs cs' : List Call) (p : Nat → Bool) :
    scalarsAt (cs ++ cs') p = scalarsAt cs p + scalarsAt cs' p :=
  List.countP_append

theorem scalarsAt_le (cs : List Call) (p : Nat → Bool) : scalarsAt cs p ≤ scalarCalls cs :=
  List.countP_mono_left fun _ _ h => (Bool.and_eq_true_iff.mp h).1

theorem scalarsAt_none {lo hi : Nat} {cs : List Call} (h : Tiles lo hi cs) {p : Nat → Bool}
    (hp : ∀ i, lo ≤ i → i < hi → p i = false) : scalarsAt cs p = 0 := by
  rw [scalarsAt, List.countP_eq_zero]
  intro c hc
  obtain ⟨hlo, hhi⟩ := h.within hc
  cases c with
  | pair | batch => exact Bool.false_ne_true
  | scalar i =>
    have hpi : p (Call.scalar i).start = false := hp i hlo hhi
    rw [hpi, Bool.and_false]
    exact Bool.false_ne_true

/-- **What is left of a run.** A schedule hashes on their own, of messages that are all in one run,
no more than the run leaves. -/
theorem scalarsAt_runAt (b : Build) {front back : List Nat} {n len : Nat}
    (h : RunAt front n len back lens) {p : Nat → Bool}
    (hp : ∀ i, i < front.length ∨ front.length + n ≤ i → i < lens.length → p i = false) :
    scalarsAt (plan b lens) p ≤ alone b len n := by
  obtain ⟨before, behind, hplan, hbefore, hbehind⟩ := plan_runAt b h
  have hlen : lens.length = front.length + (n + back.length) := by
    rw [h.eq, List.length_append, List.length_append, List.length_replicate]
  have hnone : scalarsAt before p = 0 :=
    scalarsAt_none hbefore fun i _ hi => hp i (.inl hi) (by omega)
  have hnone' : scalarsAt behind p = 0 :=
    scalarsAt_none hbehind fun i hi hlt => hp i (.inr hi) hlt
  rw [hplan, scalarsAt_append, scalarsAt_append, hnone, hnone', Nat.zero_add, Nat.add_zero,
    ← scalarCalls_runCalls b len front.length n]
  exact scalarsAt_le _ p

theorem scalarsAt_sorted (b : Build) (hsorted : lens.Pairwise (· ≤ ·)) {len : Nat}
    (hmem : len ∈ lens) :
    scalarsAt (plan b lens) (fun i => lens[i]? == some len) ≤ alone b len (lens.count len) := by
  obtain ⟨front, back, hrun, hfront, hback⟩ := exists_runAt hsorted hmem
  apply scalarsAt_runAt b hrun
  intro i hi hlt
  rw [beq_eq_false_iff_ne]
  intro hget
  generalize lens.count len = n at hrun hi
  rw [hrun.eq] at hget
  rcases hi with hi | hi
  · rw [List.getElem?_append_left hi] at hget
    exact hfront (List.mem_of_getElem? hget)
  · rw [List.getElem?_append_right (by omega), List.getElem?_append_right (by simp; omega)] at hget
    exact hback (List.mem_of_getElem? hget)

/-- **The tails on batch SIMD.** Of every run, however long it is, `hash_many` hashes at most three
messages on their own if they have 64 bytes and at most seven if they have 32; and of a workload
that grouping sorts, whose calls count in the sorted order, no more than that of every length. -/
theorem hash_many_tails (b : Build) (hb : 1 < Platform.lanes b) (sorter : UnstableSort)
    (inputs : List Bytes) (outputs : List Digest) (hlen : inputs.length ≤ outputs.length) :
    (∃ l, hashMany b inputs ⟨outputs, []⟩ = .ok () l ∧
        ∀ front n len back, RunAt front n len back (lengths inputs) →
          scalarsAt l.calls (inRun front.length n) ≤ leftover len n) ∧
      (sorts sorter inputs = true →
        ∃ l, hashManyGrouped b sorter inputs ⟨outputs, []⟩ = .ok () l ∧
          ∀ len ∈ lengths inputs,
            scalarsAt l.calls (fun i => (lengths (sortedInputs sorter inputs))[i]? == some len) ≤
              leftover len ((lengths inputs).count len)) := by
  constructor
  · obtain ⟨outs, hmany⟩ := hashMany_plan b hlen
    refine ⟨_, hmany, fun front n len back hrun => ?_⟩
    apply Nat.le_trans _ (alone_le_leftover hb len n)
    apply scalarsAt_runAt b hrun
    intro i hi _
    rw [inRun, decide_eq_false_iff_not]
    omega
  · intro hsorts
    obtain ⟨outs, hgrouped⟩ := hashManyGrouped_plan b sorter hlen
    refine ⟨_, hgrouped, fun len hmem => ?_⟩
    have hperm : ((lengths inputs).mergeSort (· ≤ ·)).Perm (lengths inputs) :=
      List.mergeSort_perm _ _
    rw [sorts_eq_reorders] at hsorts
    rw [groupedLengths, if_pos hsorts, lengths_sortedInputs_eq, ← hperm.count_eq]
    apply Nat.le_trans _ (alone_le_leftover hb len _)
    exact scalarsAt_sorted b (List.pairwise_mergeSort' _ _) (hperm.mem_iff.mpr hmem)

/-- A run of 66 messages of a block, and four of one length that grouping brings together. -/
theorem hash_many_tails_blocks :
    (∃ l, hashMany optBuild (List.replicate 66 (List.replicate 64 0))
        ⟨List.replicate 66 emptyDigest, []⟩ = .ok () l ∧ scalarsAt l.calls (inRun 0 66) ≤ 3) ∧
      ∃ l, hashManyGrouped optBuild .merge ([64, 1, 64, 1, 64, 1, 64].map (List.replicate · 0))
        ⟨List.replicate 7 emptyDigest, []⟩ = .ok () l ∧
          scalarsAt l.calls ([1, 1, 1, 64, 64, 64, 64][·]? == some 64) ≤ 3 := by
  have hrun : lengths (List.replicate 66 (List.replicate 64 0)) = List.replicate 66 64 := by
    rw [lengths, List.map_replicate, List.length_replicate]
  have hgrouped : lengths (sortedInputs .merge ([64, 1, 64, 1, 64, 1, 64].map
      (List.replicate · 0))) = [1, 1, 1, 64, 64, 64, 64] := by
    rw [lengths_sortedInputs_eq]
    exact mergeSort_blocks
  have hsorts : sorts .merge ([64, 1, 64, 1, 64, 1, 64].map (List.replicate · 0)) = true := by
    rw [sorts_eq_reorders]
    decide
  have h := (hash_many_tails optBuild (by decide) .merge
    (List.replicate 66 (List.replicate 64 0)) (List.replicate 66 emptyDigest) (by simp)).1
  have h' := (hash_many_tails optBuild (by decide) .merge
    ([64, 1, 64, 1, 64, 1, 64].map (List.replicate · 0)) (List.replicate 7 emptyDigest)
    (by decide)).2 hsorts
  rw [hrun] at h
  rw [hgrouped] at h'
  obtain ⟨l, hmany, htail⟩ := h
  obtain ⟨l', hmany', htail'⟩ := h'
  exact ⟨⟨l, hmany, htail [] 66 64 [] ⟨rfl, by decide, by decide, by decide⟩⟩,
    ⟨l', hmany', htail' 64 (by decide)⟩⟩

end Md5Simd
