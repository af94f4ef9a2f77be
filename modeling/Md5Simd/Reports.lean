import Md5Simd.Workload

/-!
# What a build says of itself

The reports of `platform.rs`, `simd/mod.rs`, `backend.rs` and `engine.rs`: the
widths, the labels and the list of backends. None of them is read by the code that
hashes, so that they are true of it has to be proved: the width bounds every call of
every dispatch as `callLimit` says and the bound is reached, and the labels are those
of the compressor and of the kernel which full batches get (`engine_reports`).
-/

namespace Md5Simd

open Lib Engine

namespace Platform

variable (b : Build)

/-- Compile-time width of the target; the processor may have less. -/
def COMPILE_MAX : Nat :=
  if !compiled b then 1
  else if b.arch = .aarch64 then (Neon8 b.debugAssertions).LANES
  else (Avx512 b.castUpper).LANES

def name : String :=
  if lanes b ≤ 1 then "none"
  else if !compiled b then "none"
  else if b.arch = .aarch64 then "simd-neon8-fused"
  else if x86HasAvx512 b then "simd-avx512-fused"
  else if x86HasAvx2 b then "simd-avx2-fused"
  else "none"

end Platform

variable (b : Build)

def simdLanes : Nat := Platform.COMPILE_MAX b

def runtimeLanes : Nat := Platform.lanes b

def simdActive : Bool := 1 < Platform.lanes b

def simdName : String := Platform.name b

def isPortableOnly : Bool := b.forcePortable

def backendName : String :=
  if b.forcePortable then "portable(force-portable)"
  else if b.opt && b.arch == .x86_64 then "single-asm(x86_64)"
  else if b.opt && b.arch == .aarch64 && b.littleEndian then "single-aarch(aarch64)"
  else if b.arch = .x86_64 then "in-tree(x86_64)"
  else if b.arch = .aarch64 then "in-tree(aarch64)"
  else "in-tree"

/-- Single-stream backends compiled in. -/
def availableBackends : List String :=
  if b.forcePortable then ["portable(force-portable)", "in-tree"]
  else if b.opt && b.arch == .x86_64 then ["single-asm", "in-tree", "portable(force-portable)"]
  else if b.opt && b.arch == .aarch64 && b.littleEndian then
    ["single-aarch", "in-tree", "portable(force-portable)"]
  else ["in-tree", "portable(force-portable)"]

/-- Effective batch width of `hash_many`. -/
def Engine.lanes : Nat :=
  let s := runtimeLanes b
  if 1 < s then s else if pairPathActive b then 2 else 1

/-- The calls of some batch, in one of the two entries. -/
def Dispatches (calls : List Call) : Prop :=
  ∃ sorter inputs outputs outs, hashMany b inputs ⟨outputs, []⟩ = .ok () ⟨outs, calls⟩ ∨
    hashManyGrouped b sorter inputs ⟨outputs, []⟩ = .ok () ⟨outs, calls⟩

/-- The kernel that a label names. -/
def Named (label : String) (W : Wide) : Prop :=
  (label = "simd-neon8-fused" ∧ W = Neon8 b.debugAssertions) ∨
    (label = "simd-avx512-fused" ∧ W = Avx512 b.castUpper) ∨
    (label = "simd-avx2-fused" ∧ W = Avx2)

/-- The most messages of one call: `MAX_GROUPS` times the reported width on batch SIMD, else that
width. -/
def callLimit : Nat := if simdActive b then Engine.lanes b * MAX_GROUPS else Engine.lanes b

variable {b} {lens : List Nat} {len lo n max : Nat} {c : Call}

/-! ## Labels -/

/-- **The backend name tells the compressor**: the labels of the vendored kernels are those of the
builds that call one, and the portable label those of the builds that call the oracle. The list of
backends starts with the active one. -/
theorem backendName_spec (b : Build) :
    ((backendName b = "single-asm(x86_64)" ∨ backendName b = "single-aarch(aarch64)") ↔
        hasOptKernel b = true) ∧
      (backendName b = "portable(force-portable)" ↔ isPortableOnly b = true) ∧
      ∃ active rest, availableBackends b = active :: rest ∧
        active.toList <+: (backendName b).toList := by
  unfold backendName hasOptKernel isPortableOnly availableBackends
  rcases hp : b.forcePortable <;> rcases ho : b.opt <;> rcases ha : b.arch <;>
    rcases hl : b.littleEndian <;>
    refine ⟨by decide, by decide, _, _, rfl, by decide⟩

/-! ## Widths -/

theorem simdActive_iff : simdActive b = true ↔ 1 < Platform.lanes b := decide_eq_true_iff

theorem lanes_of_active (h : 1 < Platform.lanes b) : Engine.lanes b = Platform.lanes b := if_pos h

theorem lanes_of_not_active (h : ¬1 < Platform.lanes b) :
    Engine.lanes b = if pairPathActive b then 2 else 1 := if_neg h

theorem callLimit_of_active (h : 1 < Platform.lanes b) :
    callLimit b = Platform.lanes b * MAX_GROUPS := by
  rw [callLimit, if_pos (simdActive_iff.mpr h), lanes_of_active h]

theorem callLimit_of_not_active (h : ¬1 < Platform.lanes b) :
    callLimit b = if pairPathActive b then 2 else 1 := by
  rw [callLimit, if_neg (mt simdActive_iff.mp h), lanes_of_not_active h]

theorem one_le_callLimit (b : Build) : 1 ≤ callLimit b := by
  by_cases h : 1 < Platform.lanes b
  · rw [callLimit_of_active h, MAX_GROUPS]
    omega
  · rw [callLimit_of_not_active h]
    split <;> decide

/-- What a call of a run can be. -/
def CallOk (b : Build) (c : Call) : Prop :=
  (∃ i, c = .scalar i) ∨
    (¬1 < Platform.lanes b ∧ pairPathActive b = true ∧ ∃ i, c = .pair i) ∨
    (1 < Platform.lanes b ∧ ∃ lo n, c = .batch lo n ∧ n ≤ Platform.lanes b * MAX_GROUPS)

theorem callOk_scalars (h : c ∈ scalars lo n) : CallOk b c := by
  obtain ⟨i, -, rfl⟩ := List.mem_map.mp h
  exact .inl ⟨i, rfl⟩

theorem callOk_batched (hb : 1 < Platform.lanes b) (h : c ∈ batched (Platform.lanes b) len lo n) :
    CallOk b c := by
  have hmax := four_le_lanes hb
  rcases List.mem_append.mp h with h | h
  · obtain ⟨j, -, rfl⟩ := List.mem_map.mp h
    exact .inr (.inr ⟨hb, _, _, rfl, Nat.le_refl _⟩)
  by_cases hwidth : pickBatch (Platform.lanes b * MAX_GROUPS) (Platform.lanes b) len = 0
  · -- then nothing is batched
    have hnone (k : Nat) : pickBatch k (Platform.lanes b) len = 0 := by
      by_contra hne
      have := pickBatch_ne_zero_iff.mp hne
      apply pickBatch_ne_zero_iff.mpr _ hwidth
      rw [MAX_GROUPS]
      omega
    rw [if_pos (hnone _)] at h
    exact callOk_scalars h
  · -- what is left is less than a full batch
    rw [if_neg hwidth, Nat.mul_comm, ← Nat.mod_eq_sub_mul_div] at h
    split at h
    · exact callOk_scalars h
    · obtain rfl := List.mem_singleton.mp h
      have hpos : 0 < Platform.lanes b * MAX_GROUPS := by
        rw [MAX_GROUPS]
        omega
      exact .inr (.inr ⟨hb, _, _, rfl, Nat.le_of_lt (Nat.mod_lt n hpos)⟩)

theorem callOk_runCalls (h : c ∈ runCalls b len lo n) : CallOk b c := by
  unfold runCalls at h
  by_cases hb : 1 < Platform.lanes b
  · rw [if_pos hb] at h
    exact callOk_batched hb h
  rw [if_neg hb] at h
  by_cases hp : pairPathActive b = true
  swap
  · rw [if_neg hp] at h
    exact callOk_scalars h
  rw [if_pos hp, paired] at h
  split at h
  · rcases List.mem_append.mp h with h | h
    · obtain ⟨j, -, rfl⟩ := List.mem_map.mp h
      exact .inr (.inl ⟨hb, hp, _, rfl⟩)
    · exact callOk_scalars h
  · exact callOk_scalars h

/-- **What a call of a schedule can be.** -/
theorem callOk_plan (lens : List Nat) : ∀ c ∈ plan b lens, CallOk b c := by
  suffices hruns : ∀ lo, ∀ c ∈ planRuns b lo (groups lens), CallOk b c from hruns 0
  induction lens using run_induction with
  | hnil => exact fun _ _ hc => absurd hc List.not_mem_nil
  | hrun r len lens hr hlens ih =>
    intro lo c hc
    rw [planRuns_append b hr hlens] at hc
    rcases List.mem_append.mp hc with hc | hc
    · exact callOk_runCalls hc
    · exact ih _ c hc

theorem CallOk.size_le (h : CallOk b c) : c.size ≤ callLimit b := by
  rcases h with ⟨i, rfl⟩ | ⟨hb, hp, i, rfl⟩ | ⟨hb, lo, n, rfl, hn⟩
  · exact one_le_callLimit b
  · rw [callLimit_of_not_active hb, if_pos hp]
    exact Nat.le_refl 2
  · rw [callLimit_of_active hb]
    exact hn

theorem plan_replicate (b : Build) (hn : 1 ≤ n) (len : Nat) :
    plan b (List.replicate n len) = runCalls b len 0 n := by
  have h : planRuns b 0 (groups (List.replicate n len ++ [])) = _ := planRuns_append b hn nofun
  rwa [List.append_nil, show planRuns b (0 + n) (groups []) = [] from rfl, List.append_nil] at h

/-- As many messages as fit are one call. -/
theorem plan_callLimit (b : Build) :
    ∃ c ∈ plan b (List.replicate (callLimit b) 64), c.size = callLimit b ∧
      (1 < Platform.lanes b → c = .batch 0 (callLimit b)) := by
  rw [plan_replicate b (one_le_callLimit b), runCalls]
  by_cases hb : 1 < Platform.lanes b
  · have hmax := four_le_lanes hb
    have hpick : pickBatch (callLimit b) (Platform.lanes b) 64 = callLimit b := by
      rw [callLimit_of_active hb, pickBatch, MAX_GROUPS, if_neg (by omega), if_neg (by omega),
        Nat.min_self]
    have hne : pickBatch (callLimit b) (Platform.lanes b) 64 ≠ 0 := by
      have := one_le_callLimit b
      omega
    rw [if_pos hb, batched_batch hne, hpick]
    exact ⟨_, List.mem_cons_self, rfl, fun _ => rfl⟩
  · rw [if_neg hb, callLimit_of_not_active hb]
    by_cases hp : pairPathActive b = true
    · rw [if_pos hp, if_pos hp]
      exact ⟨.pair 0, by decide, rfl, fun h => absurd h hb⟩
    · rw [if_neg hp, if_neg hp]
      exact ⟨.scalar 0, by decide, rfl, fun h => absurd h hb⟩

/-! ## The calls there are -/

theorem dispatches_iff {calls : List Call} :
    Dispatches b calls ↔ ∃ lens, calls = plan b lens := by
  constructor
  · rintro ⟨sorter, inputs, outputs, outs, h⟩
    by_cases hlen : inputs.length ≤ outputs.length
    · obtain ⟨outs', hmany⟩ := hashMany_plan b hlen
      obtain ⟨outs'', hgrouped⟩ := hashManyGrouped_plan b sorter hlen
      rcases h with h | h
      · rw [hmany] at h
        cases h
        exact ⟨_, rfl⟩
      · rw [hgrouped] at h
        cases h
        exact ⟨_, rfl⟩
    · -- both panic
      have hshort : outputs.length < inputs.length := Nat.lt_of_not_le hlen
      rcases h with h | h
      · rw [hashMany, hashManyDispatch_short hshort] at h
        cases h
      · rw [hashManyGrouped_short sorter hshort] at h
        cases h
  · rintro ⟨lens, rfl⟩
    have hlens : lengths (lens.map fun len => List.replicate len 0) = lens := by
      simp [lengths, Function.comp_def]
    have hlen : (lens.map fun len => List.replicate len (0 : U8)).length ≤
        (List.replicate lens.length emptyDigest).length := by simp
    obtain ⟨outs, hmany⟩ := hashMany_plan b hlen
    rw [hlens] at hmany
    exact ⟨.merge, _, _, outs, .inl hmany⟩

/-! ## The kernel of a full batch -/

theorem kernel_named (h : 1 < Platform.lanes b) (hn : 8 < n) :
    ∃ W, Platform.kernel b n = some W ∧ Named b (simdName b) W ∧ W.LANES = runtimeLanes b := by
  have hle : ¬Platform.lanes b ≤ 1 := Nat.not_le_of_lt h
  rw [simdName, Platform.name, if_neg hle, runtimeLanes]
  unfold Platform.lanes at h ⊢
  unfold Platform.kernel
  split at h
  · omega
  rename_i hc
  simp only [if_neg hc]
  split at h
  · rename_i ha
    simp only [if_pos ha, if_pos (show 5 ≤ n by omega)]
    exact ⟨_, rfl, .inl ⟨rfl, rfl⟩, rfl⟩
  rename_i ha
  simp only [if_neg ha, if_neg (show ¬(n ≤ 8 ∧ Platform.x86HasAvx2 b = true) by omega)]
  split at h
  · rename_i h5
    simp only [if_pos h5]
    exact ⟨_, rfl, .inr (.inl ⟨rfl, rfl⟩), rfl⟩
  rename_i h5
  simp only [if_neg h5]
  split at h
  · rename_i h2
    simp only [if_pos h2]
    exact ⟨_, rfl, .inr (.inr ⟨rfl, rfl⟩), rfl⟩
  · omega

theorem runtimeLanes_le (b : Build) : runtimeLanes b ≤ simdLanes b := by
  unfold runtimeLanes simdLanes Platform.lanes Platform.COMPILE_MAX
  split
  · exact Nat.le_refl 1
  split
  · exact Nat.le_refl 8
  split
  · exact Nat.le_refl 16
  split
  · exact show 8 ≤ 16 by decide
  · exact show 1 ≤ 16 by decide

/-! ## The reports are true -/

theorem lanes_cases (b : Build) :
    Platform.lanes b = 1 ∨ Platform.lanes b = 8 ∨ Platform.lanes b = 16 := by
  unfold Platform.lanes
  split
  · exact .inl rfl
  split
  · exact .inr (.inl rfl)
  split
  · exact .inr (.inr rfl)
  split
  · exact .inr (.inl rfl)
  · exact .inl rfl

theorem engineLanes_cases (b : Build) :
    Engine.lanes b = 1 ∨ Engine.lanes b = 2 ∨ Engine.lanes b = 8 ∨ Engine.lanes b = 16 := by
  by_cases hb : 1 < Platform.lanes b
  · rw [lanes_of_active hb]
    rcases lanes_cases b with h | h | h <;> omega
  · rw [lanes_of_not_active hb]
    split
    · exact .inr (.inl rfl)
    · exact .inl rfl

theorem dispatches_full (b : Build) : Dispatches b (plan b (List.replicate (callLimit b) 64)) :=
  dispatches_iff.mpr ⟨_, rfl⟩

theorem simdActive_iff_kernel (b : Build) :
    simdActive b = true ↔ ∃ calls, Dispatches b calls ∧ EntersKernel b calls := by
  rw [simdActive_iff]
  constructor
  · intro hb
    obtain ⟨c, hmem, -, hbatch⟩ := plan_callLimit b
    obtain rfl := hbatch hb
    obtain ⟨W, hW⟩ := exists_kernel hb (callLimit b)
    exact ⟨_, dispatches_full b, 0, callLimit b, W, hmem, hW⟩
  · rintro ⟨calls, hcalls, lo, n, W, hc, -⟩
    obtain ⟨lens, rfl⟩ := dispatches_iff.mp hcalls
    rcases callOk_plan lens _ hc with ⟨i, h⟩ | ⟨-, -, i, h⟩ | ⟨hb, -⟩
    · cases h
    · cases h
    · exact hb

theorem lanes_two_iff_pair (b : Build) :
    Engine.lanes b = 2 ↔ ∃ calls, Dispatches b calls ∧ ∃ i, .pair i ∈ calls := by
  constructor
  · intro hpair
    have hb : ¬1 < Platform.lanes b := by
      intro hb
      rw [lanes_of_active hb] at hpair
      rcases lanes_cases b with h | h | h <;> omega
    have hlimit : callLimit b = 2 := by
      rw [callLimit_of_not_active hb, ← lanes_of_not_active hb, hpair]
    obtain ⟨c, hmem, hsize, -⟩ := plan_callLimit b
    refine ⟨_, dispatches_full b, ?_⟩
    rcases callOk_plan _ c hmem with ⟨i, rfl⟩ | ⟨-, -, i, rfl⟩ | ⟨hb', -⟩
    · rw [hlimit] at hsize
      cases hsize
    · exact ⟨i, hmem⟩
    · exact absurd hb' hb
  · rintro ⟨calls, hcalls, i, hc⟩
    obtain ⟨lens, rfl⟩ := dispatches_iff.mp hcalls
    rcases callOk_plan lens _ hc with ⟨i, h⟩ | ⟨hb, hp, -⟩ | ⟨-, lo, n, h, -⟩
    · cases h
    · rw [lanes_of_not_active hb, if_pos hp]
    · cases h

/-- **The reports are true of the code.** The label of the single-stream backend tells its
compressor. The batch width is 1, 2, 8 or 16, and that of batch SIMD at most what is compiled in. No
call of any batch, grouped or not, takes more messages than `MAX_GROUPS` times the width on batch
SIMD and the width otherwise, and some call takes as many. SIMD is active exactly when some batch
enters a kernel, and the width is 2 exactly when some batch makes a pair. When SIMD is active the
kernel of every batch of more than eight messages is the one the label names and has the reported
width; otherwise the label is `none`. -/
theorem engine_reports (b : Build) :
    (((backendName b = "single-asm(x86_64)" ∨ backendName b = "single-aarch(aarch64)") ↔
        hasOptKernel b = true) ∧
      (backendName b = "portable(force-portable)" ↔ isPortableOnly b = true) ∧
      ∃ active rest, availableBackends b = active :: rest ∧
        active.toList <+: (backendName b).toList) ∧
      (Engine.lanes b = 1 ∨ Engine.lanes b = 2 ∨ Engine.lanes b = 8 ∨ Engine.lanes b = 16) ∧
      runtimeLanes b ≤ simdLanes b ∧
      (∀ calls, Dispatches b calls → ∀ c ∈ calls, c.size ≤ callLimit b) ∧
      (∃ calls, Dispatches b calls ∧ ∃ c ∈ calls, c.size = callLimit b) ∧
      (simdActive b = true ↔ ∃ calls, Dispatches b calls ∧ EntersKernel b calls) ∧
      (Engine.lanes b = 2 ↔ ∃ calls, Dispatches b calls ∧ ∃ i, .pair i ∈ calls) ∧
      (simdActive b = true → ∀ n, 8 < n → ∃ W, Platform.kernel b n = some W ∧
        Named b (simdName b) W ∧ W.LANES = runtimeLanes b) ∧
      (simdActive b = false → simdName b = "none") := by
  refine ⟨backendName_spec b, engineLanes_cases b, runtimeLanes_le b, ?_, ?_,
    simdActive_iff_kernel b, lanes_two_iff_pair b, ?_, ?_⟩
  · intro calls hcalls c hc
    obtain ⟨lens, rfl⟩ := dispatches_iff.mp hcalls
    exact (callOk_plan lens c hc).size_le
  · obtain ⟨c, hmem, hsize, -⟩ := plan_callLimit b
    exact ⟨_, dispatches_full b, c, hmem, hsize⟩
  · exact fun h n hn => kernel_named (simdActive_iff.mp h) hn
  · intro h
    have hb : Platform.lanes b ≤ 1 := by
      apply Nat.le_of_not_lt
      intro hb
      rw [simdActive_iff.mpr hb] at h
      cases h
    exact if_pos hb

end Md5Simd
