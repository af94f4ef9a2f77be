import Md5Simd.Hasher

/-!
# The `digest` wrapper

`digest_compat.rs`. `Md5Core` owns a `Raw` whose buffer it never uses: the
`digest` crate keeps the partial block and hands over complete blocks, and the
tail at the end. The crate's buffer is outside the repository; `EagerBuffer` is
what is assumed of it.

`Mirrors` ties the two buffers to one message, and `digest_wrapper_native` lets
every program over wrapped hashers run beside the native one.
-/

namespace Md5Simd

open Lib

/-- Core MD5 state for the wrapper. -/
structure Md5Core where
  raw : Raw
  deriving DecidableEq

namespace Md5Core

def default : Md5Core := ⟨Raw.new⟩

def onRaw {α : Type} (m : EStateM Fault Raw α) : EStateM Fault Md5Core α :=
  zoom Md5Core.raw (fun _ r => ⟨r⟩) m

variable (b : Build)

/-- Absorb complete blocks without the buffer of `Raw`. -/
def updateBlocks (blocks : List Block) : EStateM Fault Md5Core Unit := do
  let c ← get
  liftE (debugAssert b.debugAssertions (c.raw.bufLen = 0) (assertEqText c.raw.bufLen 0 none))
  let data := join blocks
  onRaw (Raw.onState (compressBlocks b data))
  onRaw (modify fun r => { r with count := r.count + lenU64 data })

/-- The digest of what was absorbed followed by the tail in the crate's buffer. -/
def finalizeFixedCore (c : Md5Core) (tail : Tail) : Digest :=
  finalizeWith c.raw.state (c.raw.count + lenU64 tail.val) tail (compressBlock b)

def reset : EStateM Fault Md5Core Unit := onRaw Raw.reset

end Md5Core

/-! ## The crate's buffer -/

/-- An eager block buffer: every complete block of the retained bytes followed by the new ones is
handed over once and in order, in slices cut anywhere, and the rest is retained. -/
structure EagerBuffer where
  Buf : Type
  /-- `get_data`. -/
  data : Buf → Tail
  empty : Buf
  /-- The slices handed to the core, and the buffer after them. -/
  digestBlocks : Buf → Bytes → List (List Block) × Buf
  reset : Buf → Buf
  data_empty : (data empty).val = []
  flatten_digestBlocks : ∀ buf input,
    (digestBlocks buf input).1.flatten = blocks 64 ((data buf).val ++ input)
  data_digestBlocks : ∀ buf input,
    data (digestBlocks buf input).2 = tail 64 ((data buf).val ++ input)
  data_reset : ∀ buf, (data (reset buf)).val = []

/-- A wrapped hasher: the core and the crate's buffer. -/
structure DigestMd5 (E : EagerBuffer) where
  core : Md5Core
  buffer : E.Buf

namespace DigestMd5

variable {E : EagerBuffer} (b : Build)

def new : DigestMd5 E := ⟨Md5Core.default, E.empty⟩

def onCore {α : Type} (m : EStateM Fault Md5Core α) : EStateM Fault (DigestMd5 E) α :=
  zoom DigestMd5.core (fun d c => { d with core := c }) m

def update (input : Bytes) : EStateM Fault (DigestMd5 E) Unit := do
  let d ← get
  let r := E.digestBlocks d.buffer input
  forM r.1 fun slice => onCore (Md5Core.updateBlocks b slice)
  modify fun d => { d with buffer := r.2 }

def finalize (d : DigestMd5 E) : Digest := d.core.finalizeFixedCore b (E.data d.buffer)

def reset : EStateM Fault (DigestMd5 E) Unit := do
  onCore Md5Core.reset
  modify fun d => { d with buffer := E.reset d.buffer }

def finalizeReset : EStateM Fault (DigestMd5 E) Digest := do
  let d ← get
  let out := finalize b d
  reset
  return out

inductive Op where
  | update (input : Bytes)
  | finalize
  | finalizeReset
  | reset
  deriving DecidableEq

def step : Option (DigestMd5 E) → Op → Except Fault (Option (DigestMd5 E) × Out)
  | none, _ => .error movedValue
  | some d, .update input => callMut (update b input) (fun _ => .unit) d
  | some d, .finalize => callMove (.ok (finalize b d)) .digest
  | some d, .finalizeReset => callMut (finalizeReset b) .digest d
  | some d, .reset => callMut reset (fun _ => .unit) d

/-- The operation of the native hasher in its place. -/
def Op.native : Op → Md5.Op
  | .update input => .update input
  | .finalize => .finalize
  | .finalizeReset => .finalizeReset
  | .reset => .reset

end DigestMd5

/-! ## One message in two buffers -/

variable {b : Build} {E : EagerBuffer}

/-- **The invariant**: the core holds the complete blocks of `M` and an unused buffer, the crate
holds the rest of `M`. -/
structure Mirrors (b : Build) (d : DigestMd5 E) (M : Bytes) : Prop where
  bufLen : d.core.raw.bufLen = 0
  count : d.core.raw.count = BitVec.ofNat 64 (64 * (blocks 64 M).length)
  state : d.core.raw.state = (blocks 64 M).foldl (compressBlock b) stateInit
  data : E.data d.buffer = tail 64 M

def DigestMd5.Follows (b : Build) : Option (DigestMd5 E) → Meaning → Prop
  | some d, .message M => Mirrors b d M
  | some _, .scrubbed => True
  | none, .moved => True
  | _, _ => False

theorem lenU64_join (bs : List Block) : lenU64 (join bs) = BitVec.ofNat 64 (64 * bs.length) := by
  rw [lenU64, length_join, Nat.mul_comm]

theorem Md5Core.updateBlocks_run {c : Md5Core} (hc : c.raw.bufLen = 0) (bs : List Block) :
    updateBlocks b bs c = .ok () ⟨{ c.raw with
      state := bs.foldl (compressBlock b) c.raw.state,
      count := c.raw.count + BitVec.ofNat 64 (64 * bs.length) }⟩ := by
  have hcompress : compressBlocks b (join bs) c.raw.state =
      .ok () (bs.foldl (compressBlock b) c.raw.state) := by
    rw [compressBlocks, compressBlocksWith, if_pos (by simp)]
    show EStateM.Result.ok () ((blocks 64 (join bs)).foldl _ _) = _
    rw [blocks_of_join]
  unfold updateBlocks
  rw [bind_ok (get_run c), debugAssert_ok hc, bind_ok (liftE_ok _ c)]
  have hstate : onRaw (Raw.onState (compressBlocks b (join bs))) c = .ok () ⟨{ c.raw with
      state := bs.foldl (compressBlock b) c.raw.state }⟩ := zoom_ok (zoom_ok hcompress)
  rw [bind_ok hstate, lenU64_join]
  rfl

theorem forM_updateBlocks (slices : List (List Block)) {d : DigestMd5 E}
    (hd : d.core.raw.bufLen = 0) :
    (forM slices fun slice => DigestMd5.onCore (Md5Core.updateBlocks b slice) :
        EStateM Fault (DigestMd5 E) Unit) d = .ok () { d with core := ⟨{ d.core.raw with
      state := slices.flatten.foldl (compressBlock b) d.core.raw.state,
      count := d.core.raw.count + BitVec.ofNat 64 (64 * slices.flatten.length) }⟩ } := by
  induction slices generalizing d with
  | nil =>
    have hzero : d.core.raw.count + BitVec.ofNat 64 (64 * 0) = d.core.raw.count :=
      BitVec.add_zero _
    simp only [List.flatten_nil, List.foldl_nil, List.length_nil, hzero]
    rfl
  | cons slice slices ih =>
    have hone : DigestMd5.onCore (Md5Core.updateBlocks b slice) d = _ :=
      zoom_ok (Md5Core.updateBlocks_run hd slice)
    rw [List.forM_cons, bind_ok hone, ih (by exact hd)]
    simp only [List.flatten_cons, List.foldl_append, List.length_append, Nat.mul_add,
      BitVec.ofNat_add, BitVec.add_assoc]

theorem mirrors_new : Mirrors b (DigestMd5.new : DigestMd5 E) [] :=
  ⟨rfl, rfl, rfl, Subtype.ext E.data_empty⟩

theorem mirrors_update {d : DigestMd5 E} {M : Bytes} (hd : Mirrors b d M) (input : Bytes) :
    ∃ d', DigestMd5.update b input d = .ok () d' ∧ Mirrors b d' (M ++ input) := by
  obtain ⟨hbuf, hcount, hstate, hdata⟩ := hd
  have hflat := E.flatten_digestBlocks d.buffer input
  rw [hdata] at hflat
  unfold DigestMd5.update
  rw [bind_ok (get_run d), bind_ok (forM_updateBlocks _ hbuf), hflat]
  have hblocks := blocks_append (n := 64) M input
  refine ⟨_, rfl, hbuf, ?_, ?_, ?_⟩
  · rw [hblocks, List.length_append, Nat.mul_add, BitVec.ofNat_add, ← hcount]
  · rw [hblocks, List.foldl_append, ← hstate]
  · rw [tail_append, ← hdata]
    exact E.data_digestBlocks d.buffer input

/-- The tail is counted once, at the end. -/
theorem mirrors_finalize (hk : b.OptKernelOk) {d : DigestMd5 E} {M : Bytes} (hd : Mirrors b d M) :
    d.finalize b = hash b M := by
  have hlen : 64 * (blocks 64 M).length + (tail 64 M).val.length = M.length := by
    rw [length_blocks, length_tail]; omega
  have hcount : d.core.raw.count + lenU64 (tail 64 M).val = lenU64 M := by
    rw [hd.count, lenU64, ← BitVec.ofNat_add, hlen]; rfl
  rw [DigestMd5.finalize, Md5Core.finalizeFixedCore, hd.data, hd.state, hcount, hash_eq_padded hk]
  exact finalizeWith_foldl _ _ _ _

theorem mirrors_reset (d : DigestMd5 E) :
    ∃ d', DigestMd5.reset d = .ok () d' ∧ Mirrors b d' [] :=
  ⟨_, rfl, rfl, rfl, rfl, Subtype.ext (E.data_reset d.buffer)⟩

/-- One call of a wrapped hasher does what the native specification says. -/
theorem DigestMd5.simulates (hk : b.OptKernelOk) :
    Pool.Simulates (DigestMd5.Follows (E := E) b) (DigestMd5.step b)
      (fun g op => Md5.spec b g op.native) := by
  intro d g op g' out hR hspec
  rcases d with _ | d
  · cases g with
    | moved => cases hspec
    | message | scrubbed => exact hR.elim
  · cases g with
    | moved => exact hR.elim
    | scrubbed =>
      cases op with
      | reset =>
        cases hspec
        obtain ⟨d', hrun, hd'⟩ := mirrors_reset (b := b) d
        exact ⟨some d', by rw [DigestMd5.step, callMut_ok hrun], hd'⟩
      | _ => cases hspec
    | message M =>
      have hd : Mirrors b d M := hR
      cases op with
      | update input =>
        cases hspec
        obtain ⟨d', hrun, hd'⟩ := mirrors_update hd input
        exact ⟨some d', callMut_ok hrun, hd'⟩
      | finalize =>
        cases hspec
        exact ⟨none, by rw [← mirrors_finalize hk hd]; rfl, trivial⟩
      | finalizeReset =>
        cases hspec
        obtain ⟨d', hrun, hd'⟩ := mirrors_reset (b := b) d
        have hreset : DigestMd5.finalizeReset b d = .ok (hash b M) d' := by
          unfold DigestMd5.finalizeReset
          rw [bind_ok (get_run d), bind_ok hrun, mirrors_finalize hk hd]
          rfl
        exact ⟨some d', callMut_ok hreset, hd'⟩
      | reset =>
        cases hspec
        obtain ⟨d', hrun, hd'⟩ := mirrors_reset (b := b) d
        exact ⟨some d', by rw [DigestMd5.step, callMut_ok hrun], hd'⟩

/-- **The wrapper is the native hasher.** A program over wrapped hashers, with any crate buffer,
that is allowed of native ones runs without fault, every digest is that of the native program, and
every core keeps an empty buffer and the count of its complete blocks. -/
theorem digest_wrapper_native (hk : b.OptKernelOk) (E : EagerBuffer)
    (acts : List (Pool.Act DigestMd5.Op)) (gs : List Meaning)
    (evs : List (Pool.Event DigestMd5.Op Out))
    (h : Pool.run Misuse.noObject (fun g op => Md5.spec b g (DigestMd5.Op.native op)) [.message []]
      acts = .ok (gs, evs)) :
    ∃ ds hs, Pool.run noObject (DigestMd5.step b) [some (DigestMd5.new : DigestMd5 E)] acts =
        .ok (ds, evs) ∧
      List.Forall₂ (DigestMd5.Follows b) ds gs ∧
      Pool.run noObject (Md5.step b) [some Md5.new] (acts.map (Pool.Act.map DigestMd5.Op.native)) =
        .ok (hs, evs.map (Pool.Event.map DigestMd5.Op.native)) := by
  have hnew : DigestMd5.Follows b (some (DigestMd5.new : DigestMd5 E)) (.message []) := mirrors_new
  have hnew' : List.Forall₂ (fun h g => Follows b (h.map Md5.raw) g) [some Md5.new]
      [.message []] := .cons absorbed_new .nil
  obtain ⟨ds, hrun, hds⟩ := Pool.run_sim noObject (DigestMd5.simulates hk)
    (.cons hnew .nil) h
  obtain ⟨hs, hnative, -⟩ := Pool.run_sim noObject (Md5.simulates hk) hnew'
    (Pool.run_map h)
  exact ⟨ds, hs, hrun, hds, hnative⟩

/-- A buffer that hands over one block a slice, after an empty slice. -/
def oneByOne : EagerBuffer where
  Buf := Tail
  data := id
  empty := emptyTail
  digestBlocks t input := ([] :: (blocks 64 (t.val ++ input)).map ([·]), tail 64 (t.val ++ input))
  reset _ := emptyTail
  data_empty := rfl
  flatten_digestBlocks t input := by
    rw [List.flatten_cons, List.nil_append, ← List.flatMap_def, List.flatMap_singleton']; rfl
  data_digestBlocks _ _ := rfl
  data_reset _ := rfl

/-- A block with the rest of a second, a clone of it, a digest and a reuse after it. -/
theorem digest_wrapper_native_clone :
    ∃ ds hs, Pool.run noObject (DigestMd5.step optBuild) [some (DigestMd5.new : DigestMd5 oneByOne)]
        [.call 0 (.update (List.replicate 70 1)), .clone 0, .call 1 .finalizeReset,
          .call 1 (.update [2]), .call 1 .finalize] =
        .ok (ds, [⟨0, .update (List.replicate 70 1), .unit⟩,
          ⟨1, .finalizeReset, .digest (hash optBuild (List.replicate 70 1))⟩,
          ⟨1, .update [2], .unit⟩, ⟨1, .finalize, .digest (hash optBuild [2])⟩]) ∧
      List.Forall₂ (DigestMd5.Follows optBuild) ds [.message (List.replicate 70 1), .moved] ∧
      Pool.run noObject (Md5.step optBuild) [some Md5.new]
        [.call 0 (.update (List.replicate 70 1)), .clone 0, .call 1 .finalizeReset,
          .call 1 (.update [2]), .call 1 .finalize] =
        .ok (hs, [⟨0, .update (List.replicate 70 1), .unit⟩,
          ⟨1, .finalizeReset, .digest (hash optBuild (List.replicate 70 1))⟩,
          ⟨1, .update [2], .unit⟩, ⟨1, .finalize, .digest (hash optBuild [2])⟩]) :=
  digest_wrapper_native optKernelOk_optBuild oneByOne
    [.call 0 (.update (List.replicate 70 1)), .clone 0, .call 1 .finalizeReset,
      .call 1 (.update [2]), .call 1 .finalize] [.message (List.replicate 70 1), .moved] _ rfl

end Md5Simd
