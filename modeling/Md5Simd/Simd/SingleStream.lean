import Md5Simd.Simd.SingleX86
import Md5Simd.Simd.SingleAarch
import Md5Simd.Backend

/-!
# The vendored single-stream kernel

`simd/single_stream.rs`. A `Host` is what a call of the kernel meets and the crate
does not choose: the registers of the `asm!` blocks and the memory the block lies
in. A build is `Vendored` when its kernel is the one of the repository, each call
being a run on some host; what is asked of a kernel elsewhere then holds
(`optKernelOk_of_vendored`).
-/

namespace Md5Simd

open Lib

namespace SingleStream

/-- Where one call of the kernel runs. -/
structure Host (block : Block) where
  /-- The registers of the first `asm!` block of x86-64. -/
  entry1 : SingleX86.Entry
  /-- The registers of the second. -/
  entry2 : SingleX86.Entry
  mem : X86.Memory
  /-- The address of the block. -/
  base : BitVec 64
  placed : SingleX86.Placed mem base block

variable {block : Block}

/-- Compress one block into the running state. -/
def transform (arch : Arch) (host : Host block) (state : State) : Except Fault State :=
  match arch with
  | .x86_64 => SingleX86.transform host.entry1 host.entry2 host.mem state host.base
  | .aarch64 => .ok (SingleAarch.transform state block)
  | .other => .error (.panic ("internal error: entered unreachable code: " ++
      "single_stream::transform is only built for x86_64/aarch64 opt"))

theorem transform_run {arch : Arch} (harch : arch ≠ .other) (host : Host block) (state : State) :
    transform arch host state = .ok (compressTextbook state block) := by
  cases arch with
  | x86_64 => exact SingleX86.transform_run host.entry1 host.entry2 state host.placed
  | aarch64 => exact congrArg Except.ok (SingleAarch.transform_eq block state)
  | other => exact absurd rfl harch

end SingleStream

open SingleStream

theorem arch_of_hasOptKernel {b : Build} (h : hasOptKernel b = true) : b.arch ≠ .other := by
  intro harch
  simp [hasOptKernel, harch] at h

/-- Every call of the kernel is a call of `single_stream::transform`, on some host. -/
def Build.Vendored (b : Build) : Prop :=
  hasOptKernel b = true → ∀ state block, ∃ host : Host block,
    SingleStream.transform b.arch host state = .ok (b.transform state block)

/-- **The vendored kernel is what is asked of a kernel.** -/
theorem optKernelOk_of_vendored {b : Build} (hv : b.Vendored) : b.OptKernelOk := by
  intro h state block
  obtain ⟨host, hrun⟩ := hv h state block
  rw [transform_run (arch_of_hasOptKernel h)] at hrun
  exact (Except.ok.inj hrun).symm

/-- **The vendored kernels are the in-tree compressors.** Wherever a build selects the kernel, a call
returns, and with the state of both in-tree compressors: on x86-64 whatever registers the compiler
picks and whatever they hold, wherever the block lies and whatever surrounds it, readable or not; on
AArch64 with right rotations and on-demand loads. -/
theorem vendored_kernels (b : Build) (h : hasOptKernel b = true) (block : Block)
    (host : Host block) (state : State) :
    SingleStream.transform b.arch host state = .ok (compress state block) ∧
      SingleStream.transform b.arch host state = .ok (compressTextbook state block) := by
  have hrun := transform_run (arch_of_hasOptKernel h) host state
  exact ⟨by rw [hrun, compress_eq_textbook], hrun⟩

/-- A block alone in memory, at address 0. -/
def bareHost (block : Block) : Host block where
  entry1 := SingleX86.firstSeven
  entry2 := SingleX86.firstSeven
  mem a := if h : a.toNat < 64 then some block[a.toNat] else none
  base := 0
  placed := by
    intro i
    have hi : ((0 : BitVec 64) + BitVec.ofNat 64 i.val).toNat = i.val := by
      rw [BitVec.toNat_add, BitVec.toNat_ofNat, show (0 : BitVec 64).toNat = 0 from rfl]
      omega
    simp only [hi]
    exact dif_pos i.isLt

theorem vendored_kernels_zero :
    SingleStream.transform .x86_64 (bareHost (Vector.replicate 64 0)) stateInit =
        .ok (compress stateInit (Vector.replicate 64 0)) ∧
      SingleStream.transform .x86_64 (bareHost (Vector.replicate 64 0)) stateInit =
        .ok (compressTextbook stateInit (Vector.replicate 64 0)) :=
  vendored_kernels optBuild rfl (Vector.replicate 64 0) (bareHost _) stateInit

theorem vendored_optBuild : optBuild.Vendored := by
  intro _ state block
  have harch : Arch.x86_64 ≠ .other := by decide
  exact ⟨bareHost block, transform_run harch (bareHost block) state⟩

end Md5Simd
