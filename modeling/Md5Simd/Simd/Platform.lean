import Md5Simd.Multibuf
import Md5Simd.Simd.HashEqual
import Md5Simd.Simd.Neon
import Md5Simd.Simd.Avx

/-!
# The platform and its kernels

`platform.rs`: the batch width of a build, the fused kernel a batch of `n`
messages gets, and the entry that runs it. Every kernel a build selects
satisfies the lane contract (`lanewise_kernel`) and a batch that fits the batch
width fits the kernel (`kernel_groups`), though the kernel may be narrower.
-/

namespace Md5Simd

open Lib

namespace Platform

variable (b : Build)

def compiled : Bool :=
  b.simd && b.littleEndian && (b.arch == .aarch64 || b.arch == .x86_64) && !b.forcePortable

/-- The probes need `std`. -/
def x86HasAvx2 : Bool := b.std && b.avx2

def x86HasAvx512 : Bool := b.std && (b.avx512f && x86HasAvx2 b)

/-- Best usable batch width on this process. -/
def lanes : Nat :=
  if !compiled b then 1
  else if b.arch = .aarch64 then (Neon8 b.debugAssertions).LANES
  else if x86HasAvx512 b then (Avx512 b.castUpper).LANES
  else if x86HasAvx2 b then Avx2.LANES
  else 1

def kernel (n : Nat) : Option Wide :=
  if !compiled b then none
  else if b.arch = .aarch64 then
    if 5 ≤ n then some (Neon8 b.debugAssertions) else some Neon4
  else if n ≤ 8 ∧ x86HasAvx2 b = true then some Avx2
  else if x86HasAvx512 b then some (Avx512 b.castUpper)
  else if x86HasAvx2 b then some Avx2
  else none

/-- Whether full blocks of several groups interleave. -/
def preferGroupInterleave : Bool := b.arch == .aarch64 && b.littleEndian

def sequential (n : Nat) (inputs : List Bytes) : EStateM Fault (List Digest) Unit :=
  forM (List.range n) fun i => do
    let input ← liftE (index inputs i)
    store i (hash b input)

/-- Hash `n` equal-length messages on the best fitting fused kernel. -/
def hashEqualN (n : Nat) (inputs : List Bytes) : EStateM Fault (List Digest) Unit := do
  let outputs ← get
  liftE (debugAssert b.debugAssertions (inputs.length = n) (assertEqText inputs.length n none))
  liftE (debugAssert b.debugAssertions (n ≤ outputs.length) "assertion failed: outputs.len() >= n")
  if n = 0 then
    return ()
  else
    match kernel b n with
    | some W => hashEqualWide W b.debugAssertions inputs (preferGroupInterleave b)
    | none => sequential b n inputs

end Platform

open Platform

/-! ## The fused kernel on one adapter -/

/-- **The fused kernel hashes every message.** On any adapter that satisfies the lane contract, for
messages of one length in at most four groups: slot `i` holds the one-shot digest of message `i` and
the slots behind the messages are as they were, in both scheduling modes. -/
theorem hash_equal_wide (W : Wide) (hW : Lanewise W) (inputs : List Bytes) (outputs : List Digest)
    (len : Nat) (hlen : ∀ s ∈ inputs, s.length = len) (hne : 1 ≤ inputs.length)
    (hgroups : (inputs.length + W.LANES - 1) / W.LANES ≤ MAX_GROUPS)
    (hout : inputs.length ≤ outputs.length) (debug interleave : Bool) :
    hashEqualWide W debug inputs interleave outputs =
      .ok () (inputs.map (hashWith · compressTextbook) ++ outputs.drop inputs.length) :=
  hashEqualWide_fills hW hlen hout (List.length_pos_iff.mp hne) hgroups debug interleave

/-- Six messages of two blocks and a rest on four lanes: two groups, the last half filled. -/
theorem hash_equal_wide_neon4 :
    hashEqualWide Neon4 true (List.replicate 6 (List.replicate 130 1)) true
        (List.replicate 7 emptyDigest) =
      .ok () ((List.replicate 6 (List.replicate 130 1)).map (hashWith · compressTextbook) ++
        [emptyDigest]) :=
  hash_equal_wide Neon4 lanewise_neon4 (List.replicate 6 (List.replicate 130 1))
    (List.replicate 7 emptyDigest) 130
    (fun s hs => by rw [List.eq_of_mem_replicate hs, List.length_replicate])
    (by decide) (by decide) (by decide) true true

/-! ## Kernels and widths -/

variable {b : Build} {n : Nat}

theorem kernel_cases {W : Wide} (h : kernel b n = some W) :
    (W = Neon8 b.debugAssertions ∧ lanes b = 8) ∨
      (W = Neon4 ∧ n < 5) ∨
      (W = Avx2 ∧ (n ≤ 8 ∨ lanes b = 8)) ∨
      (W = Avx512 b.castUpper ∧ lanes b = 16) := by
  unfold kernel at h
  unfold lanes
  split at h
  · cases h
  rename_i hc
  rw [if_neg hc]
  split at h
  · rename_i ha
    rw [if_pos ha]
    split at h <;> cases h
    · exact .inl ⟨rfl, rfl⟩
    · exact .inr (.inl ⟨rfl, by omega⟩)
  rename_i ha
  rw [if_neg ha]
  split at h
  · rename_i h2
    cases h
    exact .inr (.inr (.inl ⟨rfl, .inl h2.1⟩))
  split at h
  · rename_i h5
    cases h
    exact .inr (.inr (.inr ⟨rfl, if_pos h5⟩))
  rename_i h5
  rw [if_neg h5]
  split at h
  · rename_i h2
    cases h
    exact .inr (.inr (.inl ⟨rfl, .inr (if_pos h2)⟩))
  · cases h

theorem exists_kernel (h : 1 < lanes b) (n : Nat) : ∃ W, kernel b n = some W := by
  unfold lanes at h
  unfold kernel
  split at h
  · omega
  rename_i hc
  rw [if_neg hc]
  split at h
  · rename_i ha
    rw [if_pos ha]
    split <;> exact ⟨_, rfl⟩
  rename_i ha
  rw [if_neg ha]
  split
  · exact ⟨_, rfl⟩
  split at h
  · rename_i h5
    exact ⟨_, if_pos h5⟩
  rename_i h5
  rw [if_neg h5]
  split at h
  · rename_i h2
    exact ⟨_, if_pos h2⟩
  · omega

/-- **Every kernel satisfies the lane contract.** -/
theorem lanewise_kernel {W : Wide} (h : kernel b n = some W) : Lanewise W := by
  rcases kernel_cases h with ⟨rfl, -⟩ | ⟨rfl, -⟩ | ⟨rfl, -⟩ | ⟨rfl, -⟩
  · exact lanewise_neon8 _
  · exact lanewise_neon4
  · exact lanewise_avx2
  · exact lanewise_avx512 _

/-- **A batch that fits the batch width fits its kernel**, also one with fewer lanes. -/
theorem kernel_groups {W : Wide} (h : kernel b n = some W) (h1 : 1 ≤ n)
    (hn : n ≤ lanes b * MAX_GROUPS) :
    1 ≤ (n + W.LANES - 1) / W.LANES ∧ (n + W.LANES - 1) / W.LANES ≤ MAX_GROUPS := by
  unfold MAX_GROUPS at hn ⊢
  rcases kernel_cases h with ⟨rfl, hw⟩ | ⟨rfl, hw⟩ | ⟨rfl, hw⟩ | ⟨rfl, hw⟩
  · show 1 ≤ (n + 8 - 1) / 8 ∧ (n + 8 - 1) / 8 ≤ 4
    omega
  · show 1 ≤ (n + 4 - 1) / 4 ∧ (n + 4 - 1) / 4 ≤ 4
    omega
  · show 1 ≤ (n + 8 - 1) / 8 ∧ (n + 8 - 1) / 8 ≤ 4
    omega
  · show 1 ≤ (n + 16 - 1) / 16 ∧ (n + 16 - 1) / 16 ≤ 4
    omega

/-! ## A batch -/

def batchDigest (b : Build) (n : Nat) (input : Bytes) : Digest :=
  match kernel b n with
  | some _ => hashWith input compressTextbook
  | none => hash b input

theorem batchDigest_eq (hk : b.OptKernelOk) (n : Nat) (input : Bytes) :
    batchDigest b n input = hash b input := by
  unfold batchDigest
  split
  · exact (hash_eq_textbook hk input).symm
  · rfl

/-- **A batch returns**: every message has its digest and no other slot changes. -/
theorem hashEqualN_run {inputs : List Bytes} {outputs : List Digest} {len : Nat}
    (hlen : ∀ s ∈ inputs, s.length = len) (hn : inputs.length = n) (h1 : 1 ≤ n)
    (hwidth : n ≤ lanes b * MAX_GROUPS) (hout : n ≤ outputs.length) :
    hashEqualN b n inputs outputs =
      .ok () (inputs.map (batchDigest b n) ++ outputs.drop inputs.length) := by
  unfold hashEqualN
  rw [bind_ok (get_run outputs), debugAssert_ok hn, bind_ok (liftE_ok _ _), debugAssert_ok hout,
    bind_ok (liftE_ok _ _), if_neg (by omega)]
  subst hn
  cases hkernel : kernel b inputs.length with
  | some W =>
    have hdigest : batchDigest b inputs.length = (hashWith · compressTextbook) := by
      funext input
      rw [batchDigest, hkernel]
    rw [hdigest]
    exact hashEqualWide_fills (lanewise_kernel hkernel) hlen hout (List.length_pos_iff.mp h1)
      (kernel_groups hkernel h1 hwidth).2 _ _
  | none =>
    have hdigest : batchDigest b inputs.length = hash b := by
      funext input
      rw [batchDigest, hkernel]
    rw [hdigest, ← fill_all]
    refine forM_range_eq (fun k => fill (hash b) inputs outputs k) inputs.length fun i hi => ?_
    rw [index_ok hi, bind_ok (liftE_ok _ _)]
    exact store_fill hi hout rfl

end Md5Simd
