import Md5Simd.Simd.Neon
import Md5Simd.Simd.Avx

/-!
# The contract of the four adapters

What the generic kernel takes from an adapter without looking: which lane a
gathered word is in, which memory a gather reads, where `to_lanes` puts a lane,
and that `rotl` rotates for every amount. `LaneContract` says it over a lane
numbering of the adapter's own registers, and `adapters_contract` that all four
have it.
-/

namespace Md5Simd

open Lib

def Pair4.lane (v : Pair4) (i : Fin 8) : U32 :=
  if h : i.val < 4 then v.lo[i.val] else v.hi[i.val - 4]

/-- The contract of an adapter whose register `v` has `lane v i` in lane `i`. -/
structure LaneContract (W : Wide) (lane : W.V → Fin W.LANES → U32) : Prop where
  /-- `to_lanes` stores lane `i` at index `i`. -/
  toLanes : ∀ v i, (W.toLanes v)[i] = lane v i
  /-- Every lane rotates left, on the immediate arms and on the variable one. -/
  rotl : ∀ v r i, r ≤ 32 → lane (W.rotl v r) i = (lane v i).rotateLeft r
  /-- Lane `i` of vector `w` is word `w` of block `min i (n - 1)`. -/
  gather : ∀ (ptrs : LanePtrs) (n : Nat) (blks : Nat → Block), 1 ≤ n → n ≤ W.LANES →
    (∀ i : Fin MAX_LANES, i.val < n → ptrs[i].read 0 64 = .ok (blks i)) →
    ∃ ms, W.gatherBlock ptrs n = .ok ms ∧
      ∀ (w : Fin 16) (i : Fin W.LANES), lane ms[w] i = (loadM (blks (min i.val (n - 1))))[w]
  /-- Only the blocks are read. -/
  reads : ∃ gather, GathersBlocks W gather

/-! ## A gather as a function of the blocks -/

def laneWord (L : Nat) (blks : List Block) (w : Fin 16) : Vector U32 L :=
  Vector.ofFn fun i => (loadM (blks.getD (min i.val (blks.length - 1)) zeroBlock))[w]

variable {W : Wide}

/-- An adapter whose lanes determine the register gathers by blocks. -/
theorem gathersBlocks_of (hW : Lanewise W) (ofLanes : Vector U32 W.LANES → W.V)
    (hof : ∀ v, ofLanes (W.toLanes v) = v) :
    GathersBlocks W fun blks => Vector.ofFn fun w => ofLanes (laneWord W.LANES blks w) := by
  intro ptrs blks h1 hn hread
  have hle := hW.lanes_le
  obtain ⟨ms, hrun, hms⟩ := hW.gather ptrs blks.length (blks.getD · zeroBlock) h1 hn fun i hi => by
    rw [hread i hi, List.getD_eq_getElem _ _ hi]
  refine hrun.trans (congrArg _ (Vector.ext fun w hw => ?_))
  rw [Vector.getElem_ofFn, ← hof ms[w]]
  refine congrArg _ (Vector.ext fun i hi => ?_)
  rw [laneWord, Vector.getElem_ofFn]
  exact hms ⟨w, hw⟩ ⟨i, hi⟩

/-- The contract from the lane laws, the rotation by every amount and the numbering of the lanes. -/
theorem laneContract_of (hW : Lanewise W) {lane : W.V → Fin W.LANES → U32}
    (hlane : ∀ v i, (W.toLanes v)[i] = lane v i)
    (hrotl : ∀ v r i, r ≤ 32 → W.lane i (W.rotl v r) = (W.lane i v).rotateLeft r)
    (ofLanes : Vector U32 W.LANES → W.V) (hof : ∀ v, ofLanes (W.toLanes v) = v) :
    LaneContract W lane where
  toLanes := hlane
  rotl v r i hr := by
    rw [← hlane, ← hlane]
    exact hrotl v r i hr
  gather ptrs n blks h1 hn hread := by
    obtain ⟨ms, hrun, hms⟩ := hW.gather ptrs n blks h1 hn hread
    refine ⟨ms, hrun, fun w i => ?_⟩
    rw [← hlane]
    exact hms w i
  reads := ⟨_, gathersBlocks_of hW ofLanes hof⟩

/-! ## Two registers -/

theorem Pair4.toLanes_lane (v : Pair4) (i : Fin 8) : v.toLanes[i] = v.lane i := by
  rw [Pair4.lane]
  split
  · rename_i h
    exact Pair4.lane_lo v i.isLt h
  · rename_i h
    exact Pair4.lane_hi v i.isLt (Nat.le_of_not_lt h)

def Pair4.ofLanes (v : Vector U32 8) : Pair4 :=
  ⟨Vector.ofFn fun i => v[i.val], Vector.ofFn fun i => v[i.val + 4]⟩

theorem Pair4.ofLanes_toLanes (v : Pair4) : Pair4.ofLanes v.toLanes = v := by
  obtain ⟨lo, hi⟩ := v
  refine congr (congrArg Pair4.mk (Vector.ext fun i h => ?_)) (Vector.ext fun i h => ?_)
  · rw [Vector.getElem_ofFn]
    exact Pair4.lane_lo ⟨lo, hi⟩ (by omega) h
  · rw [Vector.getElem_ofFn]
    exact Pair4.lane_hi ⟨lo, hi⟩ (by omega) (by omega)

/-! ## The four adapters -/

/-- **Every adapter keeps its contract**: for every active count and every choice of blocks the
gather puts the words of block `min i (n - 1)` in lane `i` and reads no other memory, `to_lanes`
keeps the numbering of the lanes, and both arms of `rotl` rotate. -/
theorem adapters_contract :
    LaneContract Neon4 (fun (v : U32x4) (i : Fin 4) => v[i]) ∧
      (∀ debug, LaneContract (Neon8 debug) Pair4.lane) ∧
      LaneContract Avx2 (fun (v : M256) (i : Fin 8) => v[i]) ∧
      ∀ upper, LaneContract (Avx512 upper) (fun (v : M512) (i : Fin 16) => v[i]) := by
  refine ⟨?_, fun debug => ?_, ?_, fun upper => ?_⟩
  · exact laneContract_of lanewise_neon4 (fun _ _ => rfl)
      (fun v r i hr => getElem_rotlNeon4 v hr i.isLt) id fun _ => rfl
  · exact laneContract_of (lanewise_neon8 debug) Pair4.toLanes_lane
      (fun v r i hr => Pair4.lane_ext (f := (BitVec.rotateLeft · r)) (a := v)
        (fun _ => getElem_rotlNeon4 v.lo hr) (fun _ => getElem_rotlNeon4 v.hi hr) i.isLt)
      Pair4.ofLanes Pair4.ofLanes_toLanes
  · exact laneContract_of lanewise_avx2 (fun _ _ => rfl)
      (fun v r i hr => getElem_rotlAvx2 v hr i.isLt) id fun _ => rfl
  · exact laneContract_of (lanewise_avx512 upper) (fun _ _ => rfl)
      (fun v r i hr => getElem_rotlAvx512 v hr i.isLt) id fun _ => rfl

end Md5Simd
