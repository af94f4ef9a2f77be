import Md5Simd.Backend
import Md5Simd.Lib.Fill
import Md5Simd.Lib.Pointer

/-!
# The shared multi-buffer kernel

`wide.rs`, generic over a `Wide` adapter: `u32` vector operations and a gather of
one block for each lane. Array indices, slice ranges and the safety contracts of
the `unsafe` calls are checked, so a run that returns has broken none of them.

`Lanewise` is the contract of an adapter. Under it one lane of a vector run is a
scalar run (`compressWide_lane`), which is what carries the whole kernel.
-/

namespace Md5Simd

open Lib

/-- Groups of lanes in flight. -/
abbrev MAX_GROUPS : Nat := 4

/-- Max lanes in one SIMD register. -/
abbrev MAX_LANES : Nat := 16

abbrev BytePtr := Ptr U8

abbrev LanePtrs := Vector BytePtr MAX_LANES

/-- Architecture-specific vector operations and block gather. -/
structure Wide where
  LANES : Nat
  V : Type
  splat : U32 → V
  splatRef : U32 → V
  add : V → V → V
  xor : V → V → V
  and : V → V → V
  or : V → V → V
  not : V → V
  rotl : V → Nat → V
  toLanes : V → Vector U32 LANES
  /-- One 64-byte block from each of `n` pointers. -/
  gatherBlock : LanePtrs → Nat → Except Fault (Vector V 16)

/-! ## One step, one block -/

section Kernel

variable (W : Wide)

/-- One step, with the broadcast constant as an argument. -/
def wideStepWithK (v : Vector W.V 4) (m : Vector W.V 16) (step : Fin 64) (kv : W.V) :
    Vector W.V 4 :=
  let dest := destOf step
  let x := v[dest + 1]
  let y := v[dest + 2]
  let z := v[dest + 3]
  let mix := match step.val / 16 with
    | 0 => W.xor z (W.and x (W.xor y z))
    | 1 => W.xor y (W.and z (W.xor x y))
    | 2 => W.xor (W.xor x y) z
    | _ => W.xor y (W.or x (W.not z))
  let t := W.add (W.add (W.add v[dest] mix) kv) m[MSG[step]]
  put v dest (W.add x (W.rotl t S[step]))

def wideStep (m : Vector W.V 16) (v : Vector W.V 4) (step : Fin 64) : Vector W.V 4 :=
  wideStepWithK W v m step (W.splatRef K[step])

def wideFeedForward (v state : Vector W.V 4) : Vector W.V 4 :=
  Vector.zipWith W.add v state

def compressWide (state : Vector W.V 4) (m : Vector W.V 16) : Vector W.V 4 :=
  wideFeedForward W (steps.foldl (wideStep W m) state) state

def ivState : Vector W.V 4 := stateInit.map W.splat

/-- `W::to_lanes(v, &mut words[..W::LANES])` on zeroed words. -/
def laneWords (v : W.V) : Except Fault (Vector U32 MAX_LANES) :=
  copyInto (Vector.replicate MAX_LANES 0) 0 (W.toLanes v).toList

def stateWords : Vector W.V 4 → Except Fault (Vector (Vector U32 MAX_LANES) 4) :=
  uncurry4 fun a b c d => do
    let w0 ← laneWords W a
    let w1 ← laneWords W b
    let w2 ← laneWords W c
    let w3 ← laneWords W d
    return #v[w0, w1, w2, w3]

/-- The digest of a lane, from the lane words of the four state vectors. -/
def laneDigest (words : Vector (Vector U32 MAX_LANES) 4) (lane : Nat) : Except Fault Digest :=
  [0, 1, 2, 3].foldlM (fun out (w : Fin 4) => do
    let word ← indexVec words[w] lane
    return overwrite out (4 * w.val) (toLeBytes word).toList) (Vector.replicate 16 0)

def storeDigests (state : Vector W.V 4) (lo n : Nat) : EStateM Fault (List Digest) Unit := do
  let words ← liftE (stateWords W state)
  forM (List.range n) fun lane => do
    let out ← liftE (laneDigest words lane)
    store (lo + lane) out

/-! ## Gathers -/

/-- The safety contract of `gather_block`. -/
def GatherContract (ptrs : LanePtrs) (n : Nat) : Prop :=
  1 ≤ n ∧ n ≤ W.LANES ∧ ∀ i : Fin MAX_LANES, i.val < n → ptrs[i].Readable 64

instance (ptrs : LanePtrs) (n : Nat) : Decidable (GatherContract W ptrs n) :=
  inferInstanceAs (Decidable (_ ∧ _ ∧ _))

/-- The `unsafe` call of `gather_block`. -/
def callGather (ptrs : LanePtrs) (n : Nat) : Except Fault (Vector W.V 16) :=
  if GatherContract W ptrs n then W.gatherBlock ptrs n
  else .error (.undefined "gather_block outside its safety contract")

def lanePtrs (inputs : List Bytes) (lo hi start : Nat) : Except Fault LanePtrs :=
  (List.range (hi - lo)).foldlM (fun ptrs i => do
    let input ← index inputs (lo + i)
    let p ← Ptr.ofSlice input start
    setVec ptrs i p) (Vector.replicate MAX_LANES .null)

def gatherGroupsAt (inputs : List Bytes) (start n lanes ngroups : Nat) :
    Except Fault (Vector (Vector W.V 16) MAX_GROUPS) :=
  (List.range ngroups).foldlM (fun ms g => do
    let lo := g * lanes
    let hi := min (lo + lanes) n
    let ptrs ← lanePtrs inputs lo hi start
    let m ← callGather W ptrs (hi - lo)
    setVec ms g m) (Vector.replicate MAX_GROUPS (Vector.replicate 16 (W.splat 0)))

/-! ## Full blocks -/

abbrev GroupStates := Vector (Vector W.V 4) MAX_GROUPS

variable (debug : Bool)

/-- Compress one block of `groups` groups, the 64 steps interleaved over the groups. -/
def compressGroupsInterleaved (groups : Nat) (states : GroupStates W)
    (ms : Vector (Vector W.V 16) MAX_GROUPS) : Except Fault (GroupStates W) := do
  debugAssert debug (2 ≤ groups ∧ groups ≤ MAX_GROUPS)
    "assertion failed: GROUPS >= 2 && GROUPS <= MAX_GROUPS"
  -- `vs[..GROUPS].copy_from_slice(&states[..GROUPS])`
  let vs ← updateUpTo groups (fun g _ => states[g])
    (Vector.replicate MAX_GROUPS (Vector.replicate 4 (W.splat 0)))
  let vs ← steps.foldlM (fun vs step =>
    let kv := W.splatRef K[step]
    updateUpTo groups (fun g v => wideStepWithK W v ms[g] step kv) vs) vs
  updateUpTo groups (fun g state => wideFeedForward W vs[g] state) states

/-- `match ngroups`, to the instance of its group count. -/
def compressGroups (ngroups : Nat) (states : GroupStates W)
    (ms : Vector (Vector W.V 16) MAX_GROUPS) : Except Fault (GroupStates W) :=
  match ngroups with
  | 2 => compressGroupsInterleaved W debug 2 states ms
  | 3 => compressGroupsInterleaved W debug 3 states ms
  | 4 => compressGroupsInterleaved W debug 4 states ms
  | _ => .error (.panic
      "internal error: entered unreachable code: group count exceeds MAX_GROUPS")

variable (inputs : List Bytes) (n lanes ngroups nfull : Nat)

def singleBlock (states : GroupStates W) (bi : Nat) : Except Fault (GroupStates W) := do
  let ptrs ← lanePtrs inputs 0 n (bi * 64)
  let m ← callGather W ptrs n
  return states.set 0 (compressWide W states[0] m)

def sequentialBlock (states : GroupStates W) (bi : Nat) : Except Fault (GroupStates W) := do
  let ms ← gatherGroupsAt W inputs (bi * 64) n lanes ngroups
  updateUpTo ngroups (fun g state => compressWide W state ms[g]) states

/-- The pipelined loop from block `bi` on, `left` iterations of it left and block `bi` gathered. -/
def interleavedLoop : (left bi : Nat) → GroupStates W → Vector (Vector W.V 16) MAX_GROUPS →
    Except Fault (GroupStates W)
  | 0, _, states, _ => .ok states
  | left + 1, bi, states, cur => do
    let next ←
      if bi + 1 < nfull then some <$> gatherGroupsAt W inputs ((bi + 1) * 64) n lanes ngroups
      else pure none
    let states ← compressGroups W debug ngroups states cur
    match next with
    | some ms => interleavedLoop left (bi + 1) states ms
    | none => .ok states

/-- The full blocks of all groups, in the loop form of the group count and the mode. -/
def fullBlocks (interleave : Bool) (states : GroupStates W) : Except Fault (GroupStates W) :=
  if 0 < nfull then
    if ngroups = 1 then
      (List.range nfull).foldlM (singleBlock W inputs n) states
    else if interleave = true ∧ 2 ≤ ngroups then do
      let cur ← gatherGroupsAt W inputs 0 n lanes ngroups
      interleavedLoop W debug inputs n lanes ngroups nfull nfull 0 states cur
    else
      (List.range nfull).foldlM (sequentialBlock W inputs n lanes ngroups) states
  else
    .ok states

/-! ## Padding and the whole hash -/

/-- Padding blocks of a group, with the number used of each lane. -/
structure Pads where
  pad : Vector (Vector Block 2) MAX_LANES
  used : Vector Nat MAX_LANES

/-- Build the padding blocks of the messages `lo..hi`. -/
def buildPads (len lo hi : Nat) : Except Fault Pads :=
  (List.range (hi - lo)).foldlM (fun p lane => do
    let src ← index inputs (lo + lane)
    -- `&inputs[src][len - (len % 64)..]`
    let rem ← slice src (len - len % 64) (src.length - (len - len % 64))
    let blocks ← indexVec p.pad lane
    if h : rem.length < 64 then
      let r := buildFinalBlocks (BitVec.ofNat 64 len) ⟨rem, h⟩ blocks
      let pad ← setVec p.pad lane r.2
      let used ← setVec p.used lane r.1
      return ⟨pad, used⟩
    else
      .error (.panic "range end index out of range"))
    ⟨Vector.replicate MAX_LANES zeroBlocks, Vector.replicate MAX_LANES 1⟩

def padPtrs (pad : Vector (Vector Block 2) MAX_LANES) (gn pi : Nat) : Except Fault LanePtrs :=
  (List.range gn).foldlM (fun ptrs i => do
    let blocks ← indexVec pad i
    let block ← indexVec blocks pi
    let p ← Ptr.ofSlice block.toList 0
    setVec ptrs i p) (Vector.replicate MAX_LANES .null)

def padBlock (pad : Vector (Vector Block 2) MAX_LANES) (gn : Nat) (state : Vector W.V 4) (pi : Nat) :
    Except Fault (Vector W.V 4) := do
  let ptrs ← padPtrs pad gn pi
  let m ← callGather W ptrs gn
  return compressWide W state m

/-- Pad group `g`, compress its padding and store its digests. Its state is not read again. -/
def finishGroup (len : Nat) (states : GroupStates W) (g : Nat) :
    EStateM Fault (List Digest) Unit := do
  let lo := g * lanes
  let hi := min (lo + lanes) n
  let gn := hi - lo
  let pads ← liftE (buildPads inputs len lo hi)
  let state ← liftE (indexVec states g)
  let state ← liftE ((List.range pads.used[0]).foldlM (padBlock W pads.pad gn) state)
  storeDigests W state lo gn

def divCeil (n lanes : Nat) : Except Fault Nat :=
  if lanes = 0 then .error (.panic "attempt to divide by zero") else .ok ((n + lanes - 1) / lanes)

/-- Fused equal-length multi-buffer hash; `interleave` is `prefer_group_interleave()`. -/
def hashEqualWide (interleave : Bool) : EStateM Fault (List Digest) Unit := do
  let outputs ← get
  let n := inputs.length
  liftE (debugAssert debug (1 ≤ n) "assertion failed: n >= 1")
  liftE (debugAssert debug (n ≤ outputs.length) "assertion failed: outputs.len() >= n")
  liftE (debugAssert debug (∀ s ∈ inputs, ∀ t ∈ inputs.head?, s.length = t.length)
    "assertion failed: inputs.iter().all(|s| s.len() == inputs[0].len())")
  let lanes := W.LANES
  let ngroups ← liftE (divCeil n lanes)
  liftE (debugAssert debug (ngroups ≤ MAX_GROUPS)
    ("n=" ++ toString n ++ " lanes=" ++ toString lanes))
  let first ← liftE (index inputs 0)
  let len := first.length
  let states ← liftE (fullBlocks W debug inputs n lanes ngroups (len / 64) interleave
    (Vector.replicate MAX_GROUPS (ivState W)))
  forM (List.range ngroups) (finishGroup W inputs n lanes len states)

end Kernel

/-! ## The contract of an adapter -/

def Wide.lane (W : Wide) (i : Fin W.LANES) (v : W.V) : U32 := (W.toLanes v)[i]

/-- The operations are those of `u32` in every lane, and `gatherBlock` puts word `w` of block `i` in
lane `i` of vector `w`, the last block again in the unused lanes. -/
structure Lanewise (W : Wide) : Prop where
  lanes_pos : 1 ≤ W.LANES
  lanes_le : W.LANES ≤ MAX_LANES
  splat : ∀ x i, W.lane i (W.splat x) = x
  splatRef : ∀ x i, W.lane i (W.splatRef x) = x
  add : ∀ a b i, W.lane i (W.add a b) = W.lane i a + W.lane i b
  xor : ∀ a b i, W.lane i (W.xor a b) = W.lane i a ^^^ W.lane i b
  and : ∀ a b i, W.lane i (W.and a b) = W.lane i a &&& W.lane i b
  or : ∀ a b i, W.lane i (W.or a b) = W.lane i a ||| W.lane i b
  not : ∀ a i, W.lane i (W.not a) = ~~~ W.lane i a
  rotl : ∀ a r i, r < 32 → W.lane i (W.rotl a r) = (W.lane i a).rotateLeft r
  gather : ∀ (ptrs : LanePtrs) (n : Nat) (blks : Nat → Block), 1 ≤ n → n ≤ W.LANES →
    (∀ i : Fin MAX_LANES, i.val < n → ptrs[i].read 0 64 = .ok (blks i)) →
    ∃ ms, W.gatherBlock ptrs n = .ok ms ∧
      ∀ (w : Fin 16) (i : Fin W.LANES), W.lane i ms[w] = (loadM (blks (min i.val (n - 1))))[w]

/-- `gatherBlock` is the function `gather` of the blocks at the first pointers: what the other
pointers are, and what is in memory around the blocks, does not matter to it. -/
def GathersBlocks (W : Wide) (gather : List Block → Vector W.V 16) : Prop :=
  ∀ (ptrs : LanePtrs) (blks : List Block), 1 ≤ blks.length → blks.length ≤ W.LANES →
    (∀ (i : Fin MAX_LANES) (h : i.val < blks.length), ptrs[i].read 0 64 = .ok blks[i.val]) →
    W.gatherBlock ptrs blks.length = .ok (gather blks)

/-! ## One lane of one block -/

section Lane

variable {W : Wide} (hW : Lanewise W)

def wideMix (W : Wide) (k : Fin 64) (x y z : W.V) : W.V :=
  match k.val / 16 with
  | 0 => W.xor z (W.and x (W.xor y z))
  | 1 => W.xor y (W.and z (W.xor x y))
  | 2 => W.xor (W.xor x y) z
  | _ => W.xor y (W.or x (W.not z))

def wideVal (W : Wide) (m : Vector W.V 16) (k : Fin 64) (a b c d : W.V) : W.V :=
  W.add b (W.rotl (W.add (W.add (W.add a (wideMix W k b c d)) (W.splatRef K[k])) m[MSG[k]]) S[k])

theorem S_lt (k : Fin 64) : S[k] < 32 := by revert k; decide

/-- The second round's selection, in the form of the vector kernel. -/
theorem select_eq (x y z : U32) : y ^^^ (z &&& (x ^^^ y)) = Textbook.g x y z := by
  refine BitVec.eq_of_getLsbD_eq fun i hi => ?_
  simp only [Textbook.g, BitVec.getLsbD_xor, BitVec.getLsbD_and, BitVec.getLsbD_or,
    BitVec.getLsbD_not, hi, decide_true, Bool.true_and]
  cases x.getLsbD i <;> cases y.getLsbD i <;> cases z.getLsbD i <;> rfl

include hW

theorem lane_wideMix (i : Fin W.LANES) (k : Fin 64) (x y z : W.V) :
    W.lane i (wideMix W k x y z) = bookMix k (W.lane i x) (W.lane i y) (W.lane i z) := by
  unfold wideMix bookMix byRound
  rcases round_cases k with h | h | h | h <;> simp only [h, hW.xor, hW.and, hW.or, hW.not]
  · exact mixF_eq _ _ _
  · exact select_eq _ _ _
  · rfl
  · rfl

theorem lane_wideVal (i : Fin W.LANES) (m : Vector W.V 16) (k : Fin 64) (a b c d : W.V) :
    W.lane i (wideVal W m k a b c d) =
      roundFn bookMix (m.map (W.lane i)) k (W.lane i a) (W.lane i b) (W.lane i c) (W.lane i d) := by
  have hmsg : (m.map (W.lane i))[MSG[k]] = W.lane i m[MSG[k]] := Vector.getElem_map ..
  rw [wideVal, hW.add, hW.rotl _ _ _ (S_lt k), hW.add, hW.add, hW.add, hW.splatRef,
    lane_wideMix hW, roundFn, stepVal, hmsg]

theorem wideFeedForward_lane (i : Fin W.LANES) (v state : Vector W.V 4) :
    (wideFeedForward W v state).map (W.lane i) =
      feedForward (state.map (W.lane i)) (v.map (W.lane i)) := by
  refine Vector.ext fun k hk => ?_
  simp only [wideFeedForward, feedForward, Vector.getElem_map, Vector.getElem_zipWith, hW.add]
  exact BitVec.add_comm _ _

/-- **One lane of a vector compression is a scalar compression.** -/
theorem compressWide_lane (i : Fin W.LANES) {state : Vector W.V 4} {m : Vector W.V 16} {blk : Block}
    (hm : m.map (W.lane i) = loadM blk) :
    (compressWide W state m).map (W.lane i) = compressTextbook (state.map (W.lane i)) blk := by
  have hrun : (steps.foldl (wideStep W m) state).map (W.lane i) =
      run bookMix (loadM blk) (state.map (W.lane i)) := by
    rw [← hm]
    exact map_foldl_ringStep (lane_wideVal hW i m) destOf steps state
  rw [compressTextbook_eq_run, ← hrun]
  exact wideFeedForward_lane hW i _ state

theorem ivState_lane (i : Fin W.LANES) : (ivState W).map (W.lane i) = stateInit := by
  refine vec4_ext ?_ ?_ ?_ ?_ <;> simp [ivState, hW.splat]

end Lane

end Md5Simd
