import Md5Simd.Frame

/-!
# Build configuration and the single-stream backend

`backend.rs` over a `Build`: the features and the target a build fixes, and the
processor it runs on. `transform` is the vendored single-stream kernel of an
`opt` build; all that is asked of it is `OptKernelOk`, that one call is one
textbook block compression.

`hash_eq_hashWith` collapses the one-shot routes: every one of them is framing
with the selected compressor, and by `hash_eq_textbook` with the textbook one.
-/

namespace Md5Simd

open Lib

inductive Arch where
  | x86_64
  | aarch64
  | other
  deriving DecidableEq, Repr

/-- What the `cfg` predicates, the CPU probes and the linked kernel leave open. -/
structure Build where
  /-- Feature `force-portable`. -/
  forcePortable : Bool
  /-- Feature `opt`. -/
  opt : Bool
  /-- Feature `simd`. -/
  simd : Bool
  /-- Feature `pair-interleave`. -/
  pairInterleave : Bool
  /-- Feature `std`. -/
  std : Bool
  /-- `debug_assertions`. -/
  debugAssertions : Bool
  arch : Arch
  /-- `target_endian = "little"`. -/
  littleEndian : Bool
  /-- `is_x86_feature_detected!("avx2")`. -/
  avx2 : Bool
  /-- `is_x86_feature_detected!("avx512f")`. -/
  avx512f : Bool
  /-- `simd::single_stream::transform`. -/
  transform : State → Block → State
  /-- What a 512-bit cast of a 256-bit register leaves in its upper half, for each word gathered. -/
  castUpper : Nat → Vector U32 8

/-- `debug_assert!`: checked in debug builds only. -/
def debugAssert (debug : Bool) (cond : Prop) [Decidable cond] (msg : String) : Except Fault Unit :=
  if debug = true ∧ ¬ cond then .error (.panic msg) else .ok ()

theorem debugAssert_ok {debug : Bool} {cond : Prop} [Decidable cond] {msg : String} (h : cond) :
    debugAssert debug cond msg = .ok () := if_neg fun hc => hc.2 h

/-- RFC 1321 digest of the empty message. -/
def emptyDigest : Digest := #v[
  0xd4, 0x1d, 0x8c, 0xd9, 0x8f, 0x00, 0xb2, 0x04, 0xe9, 0x80, 0x09, 0x98, 0xec, 0xf8, 0x42, 0x7e]

def hasOptKernel (b : Build) : Bool :=
  b.opt && !b.forcePortable && (b.arch == .x86_64 || (b.arch == .aarch64 && b.littleEndian))

/-- The compressor a build selects. -/
def compressBlock (b : Build) (state : State) (block : Block) : State :=
  if b.forcePortable then compressTextbook state block
  else if hasOptKernel b then b.transform state block
  else compress state block

def compressBlocks (b : Build) (data : Bytes) : EStateM Fault State Unit :=
  compressBlocksWith (compressBlock b) data

/-- One-shot hash of an `opt` build for 64 bytes and more. -/
def hashOptBulk (b : Build) (input : Bytes) : Digest :=
  if hasOptKernel b then
    let state := (blocks 64 input).foldl b.transform stateInit
    let pad := buildFinalBlocks (lenU64 input) (tail 64 input) zeroBlocks
    stateToBytes ((pad.2.toList.take pad.1).foldl b.transform state)
  else
    hashWith input (compressBlock b)

/-- One-shot hash through the active single-stream backend. -/
def hash (b : Build) (input : Bytes) : Digest :=
  if input.isEmpty then
    emptyDigest
  else if h : input.length ≤ 55 then
    let pad := buildFinalBlocks (lenU64 input) ⟨input, by omega⟩ zeroBlocks
    stateToBytes (compressBlock b stateInit pad.2[0])
  else if hasOptKernel b && 64 ≤ input.length then
    hashOptBulk b input
  else
    hashWith input (compressBlock b)

def hashTextbook (input : Bytes) : Digest :=
  if input.isEmpty then emptyDigest else hashWith input compressTextbook

def hashInTree (input : Bytes) : Digest :=
  if input.isEmpty then emptyDigest else hashWith input compress

/-- What is asked of a vendored kernel: one call is one textbook block compression. -/
def Build.OptKernelOk (b : Build) : Prop :=
  hasOptKernel b = true → ∀ s blk, b.transform s blk = compressTextbook s blk

/-- A processor with every kernel, whose vendored kernel is the textbook compressor. -/
def optBuild : Build where
  forcePortable := false
  opt := true
  simd := true
  pairInterleave := true
  std := true
  debugAssertions := true
  arch := .x86_64
  littleEndian := true
  avx2 := true
  avx512f := true
  transform := compressTextbook
  castUpper := fun _ => Vector.replicate 8 0

theorem optKernelOk_optBuild : optBuild.OptKernelOk := fun _ _ _ => rfl

/-! ## The compressor -/

theorem compressBlock_eq_transform {b : Build} (h : hasOptKernel b = true) (s : State) (blk : Block) :
    compressBlock b s blk = b.transform s blk := by
  have hp : b.forcePortable = false := by
    simp only [hasOptKernel, Bool.and_eq_true, Bool.not_eq_true'] at h
    exact h.1.2
  simp [compressBlock, hp, h]

theorem compressBlock_eq_textbook {b : Build} (hk : b.OptKernelOk) (s : State) (blk : Block) :
    compressBlock b s blk = compressTextbook s blk := by
  unfold compressBlock
  split
  · rfl
  · split
    · rename_i h
      exact hk h s blk
    · exact compress_eq_textbook s blk

/-! ## The one-shot routes -/

theorem hashOptBulk_eq (b : Build) {input : Bytes} (hne : input ≠ []) :
    hashOptBulk b input = hashWith input (compressBlock b) := by
  unfold hashOptBulk
  split
  · rename_i h
    have hf : b.transform = compressBlock b :=
      funext fun s => funext fun blk => (compressBlock_eq_transform h s blk).symm
    rw [hashWith, if_neg (by simpa using hne), hf]
    rfl
  · rfl

theorem padded_of_short {input : Bytes} (h : input.length ≤ 55) :
    padded input = [(buildFinalBlocks (lenU64 input) ⟨input, by omega⟩ zeroBlocks).2[0]] := by
  have ht : tail 64 input = ⟨input, by omega⟩ := Subtype.ext (tail_of_lt (by omega))
  rw [padded, blocks_of_lt (by omega), ht]
  simp only [finalBlocks, buildFinalBlocks, if_pos h, List.nil_append]
  rfl

/-- **Every route of a non-empty message is framing with the selected compressor.** -/
theorem hash_eq_hashWith (b : Build) {input : Bytes} (hne : input ≠ []) :
    hash b input = hashWith input (compressBlock b) := by
  unfold hash
  rw [if_neg (by simpa using hne)]
  split
  · rename_i h
    rw [hashWith_eq, padded_of_short h]
    rfl
  · split
    · exact hashOptBulk_eq b hne
    · rfl

theorem hashWith_nil_textbook : hashWith [] compressTextbook = emptyDigest := by
  decide +kernel

theorem hashTextbook_eq (input : Bytes) : hashTextbook input = hashWith input compressTextbook := by
  unfold hashTextbook
  split
  · rename_i h
    rw [List.isEmpty_iff.mp h, hashWith_nil_textbook]
  · rfl

theorem hashInTree_eq (input : Bytes) : hashInTree input = hashTextbook input := by
  unfold hashInTree hashTextbook
  rw [hashWith_congr compress_eq_textbook]

/-- **Every build hashes as the textbook oracle does.** -/
theorem hash_eq_textbook {b : Build} (hk : b.OptKernelOk) (input : Bytes) :
    hash b input = hashWith input compressTextbook := by
  by_cases hne : input = []
  · subst hne
    exact hashWith_nil_textbook.symm
  · rw [hash_eq_hashWith b hne, hashWith_congr (compressBlock_eq_textbook hk)]

theorem hash_eq_padded {b : Build} (hk : b.OptKernelOk) (input : Bytes) :
    hash b input = stateToBytes ((padded input).foldl (compressBlock b) stateInit) := by
  rw [hash_eq_textbook hk, ← hashWith_eq, hashWith_congr (compressBlock_eq_textbook hk)]

end Md5Simd
