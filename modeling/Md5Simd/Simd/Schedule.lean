import Md5Simd.Simd.HashEqual
import Md5Simd.Simd.Adapters

/-!
# The two schedules of the full blocks

`wide.rs` has two loops for the full blocks of two and more groups: the AArch64
one gathers block `bi + 1` before it compresses block `bi`, all groups step by
step, and the other gathers a block and compresses group by group. Nothing here
asks what the operations of the adapter do: the loops agree for any `Wide`, also
in the fault they stop with (`fullBlocks_schedules`).

`scheduled` is where both end: every active group has compressed every block once
and in order, the others are as they were.
-/

namespace Md5Simd

open Lib

/-! ## Where they end -/

/-- Every active group has compressed its words of the blocks below `k` in order. -/
def scheduled (W : Wide) (ngroups : Nat) (ms : Nat → Nat → Vector W.V 16) (states : GroupStates W)
    (k : Nat) : GroupStates W :=
  Vector.ofFn fun g =>
    if g.val < ngroups then (List.range k).foldl (fun s bi => compressWide W s (ms bi g)) states[g]
    else states[g]

theorem scheduled_zero (W : Wide) (ngroups : Nat) (ms : Nat → Nat → Vector W.V 16)
    (states : GroupStates W) : scheduled W ngroups ms states 0 = states := by
  refine Vector.ext fun g hg => ?_
  rw [scheduled, Vector.getElem_ofFn]
  split <;> rfl

theorem scheduled_succ {W : Wide} {ngroups : Nat} {ms : Nat → Nat → Vector W.V 16}
    {cur : Vector (Vector W.V 16) MAX_GROUPS} {k : Nat} (states : GroupStates W)
    (hcur : ∀ g : Fin MAX_GROUPS, g.val < ngroups → cur[g] = ms k g) :
    advance W ngroups (scheduled W ngroups ms states k) cur =
      scheduled W ngroups ms states (k + 1) := by
  refine Vector.ext fun g hg => ?_
  have hms := hcur ⟨g, hg⟩
  rw [getElem_fin] at hms
  simp only [advance, scheduled, Vector.getElem_ofFn, getElem_fin]
  by_cases hlt : g < ngroups
  · simp only [if_pos hlt, List.range_succ, List.foldl_concat, hms hlt]
  · simp only [if_neg hlt]

theorem sequential_run {W : Wide} {inputs : List Bytes} {n lanes ngroups nfull : Nat}
    (h4 : ngroups ≤ MAX_GROUPS) {ms : Nat → Nat → Vector W.V 16}
    (hms : ∀ bi, bi < nfull → ∃ cur, gatherGroupsAt W inputs (bi * 64) n lanes ngroups = .ok cur ∧
      ∀ g : Fin MAX_GROUPS, g.val < ngroups → cur[g] = ms bi g) (states : GroupStates W) :
    (List.range nfull).foldlM (sequentialBlock W inputs n lanes ngroups) states =
      .ok (scheduled W ngroups ms states nfull) := by
  obtain ⟨s, hrun, rfl⟩ := foldlM_range (fun k s => s = scheduled W ngroups ms states k) nfull
    (scheduled_zero W ngroups ms states).symm fun bi s hbi hs => by
      obtain ⟨cur, hgather, hcur⟩ := hms bi hbi
      exact ⟨_, sequentialBlock_of W inputs h4 hgather s, by rw [hs, scheduled_succ states hcur]⟩
  exact hrun

/-! ## Gathers that depend on blocks only -/

/-- Block `bi` of the messages of group `g`. -/
def groupBlocks (inputs : List Bytes) (lanes bi g : Nat) : List Block :=
  ((inputs.drop (g * lanes)).take lanes).map fun m => (blocks 64 m).getD bi zeroBlock

theorem length_groupBlocks (inputs : List Bytes) (lanes bi g : Nat) :
    (groupBlocks inputs lanes bi g).length =
      min (g * lanes + lanes) inputs.length - g * lanes := by
  rw [groupBlocks, List.length_map, List.length_take, List.length_drop]
  omega

theorem getElem_groupBlocks {inputs : List Bytes} {lanes bi g i : Nat}
    (h : i < (groupBlocks inputs lanes bi g).length) (hin : g * lanes + i < inputs.length) :
    (groupBlocks inputs lanes bi g)[i] = (blocks 64 inputs[g * lanes + i]).getD bi zeroBlock := by
  simp only [groupBlocks, List.getElem_map, List.getElem_take, List.getElem_drop]

section Gather

variable {W : Wide} {gather : List Block → Vector W.V 16} (hgather : GathersBlocks W gather)
  (hle : W.LANES ≤ MAX_LANES) {inputs : List Bytes} {bi : Nat}
  (hbi : ∀ s ∈ inputs, bi < s.length / 64)

include hgather hle hbi

theorem gatherGroup_pure {g : Nat} (hg : g * W.LANES < inputs.length) (hpos : 1 ≤ W.LANES) :
    ∃ ptrs, lanePtrs inputs (g * W.LANES) (min (g * W.LANES + W.LANES) inputs.length) (bi * 64) =
        .ok ptrs ∧
      callGather W ptrs (min (g * W.LANES + W.LANES) inputs.length - g * W.LANES) =
        .ok (gather (groupBlocks inputs W.LANES bi g)) := by
  have hcount := length_groupBlocks inputs W.LANES bi g
  have hin : min (g * W.LANES + W.LANES) inputs.length ≤ inputs.length := Nat.min_le_right _ _
  have hwide : min (g * W.LANES + W.LANES) inputs.length - g * W.LANES ≤ MAX_LANES := by omega
  obtain ⟨ptrs, hptrs, hptr⟩ := lanePtrs_read hin hwide hbi
  have hread : ∀ (i : Fin MAX_LANES) (h : i.val < (groupBlocks inputs W.LANES bi g).length),
      ptrs[i].read 0 64 = .ok (groupBlocks inputs W.LANES bi g)[i.val] := by
    intro i h
    rw [hptr i (by omega), getElem_groupBlocks h (by omega)]
  have hcontract : GatherContract W ptrs (groupBlocks inputs W.LANES bi g).length :=
    ⟨by omega, by omega, fun i hi => Ptr.readable_of_read (hread i hi)⟩
  refine ⟨ptrs, hptrs, ?_⟩
  rw [← hcount, callGather, if_pos hcontract]
  exact hgather ptrs _ (by omega) (by omega) hread

/-- The gather of all groups reads block `bi` of every message. -/
theorem gatherGroupsAt_pure {ngroups : Nat} (hng : ngroups ≤ MAX_GROUPS) (hpos : 1 ≤ W.LANES)
    (hgroups : ∀ g, g < ngroups → g * W.LANES < inputs.length) :
    ∃ cur, gatherGroupsAt W inputs (bi * 64) inputs.length W.LANES ngroups = .ok cur ∧
      ∀ g : Fin MAX_GROUPS, g.val < ngroups →
        cur[g] = gather (groupBlocks inputs W.LANES bi g) := by
  obtain ⟨cur, hrun, hcur, -⟩ := foldlM_entries hng
    (f := fun (ms : Vector (Vector W.V 16) MAX_GROUPS) g => do
      let lo := g * W.LANES
      let hi := min (lo + W.LANES) inputs.length
      let ptrs ← lanePtrs inputs lo hi (bi * 64)
      let m ← callGather W ptrs (hi - lo)
      setVec ms g m)
    (v := Vector.replicate MAX_GROUPS (Vector.replicate 16 (W.splat 0)))
    (fun g m => m = gather (groupBlocks inputs W.LANES bi g)) fun ms g hg _ => by
      obtain ⟨ptrs, hptrs, hm⟩ := gatherGroup_pure hgather hle hbi (hgroups g hg) hpos
      refine ⟨_, ?_, rfl⟩
      rw [Except.bind_ok hptrs, Except.bind_ok hm]
      exact setVec_ok (by omega)
  exact ⟨cur, hrun, fun g hg => hcur g hg⟩

end Gather

/-! ## The AArch64 schedule -/

/-- **The AArch64 schedule is the sequential one**, for any adapter, any states to start from and
two to four groups: the two return the same states or stop with the same fault, in the full blocks
and in the whole hash. When the gather depends on the blocks it reads only, both return, and end
with the state of every active group compressed with each of its `nfull` blocks once, in order,
and every other state as it was; so no block behind the last full one is read, also of messages
that end there. -/
theorem full_block_schedules (W : Wide) (debug : Bool) (inputs : List Bytes) (ngroups nfull : Nat)
    (h2 : 2 ≤ ngroups) (h4 : ngroups ≤ MAX_GROUPS) (states : GroupStates W) :
    (∀ n lanes, fullBlocks W debug inputs n lanes ngroups nfull true states =
        fullBlocks W debug inputs n lanes ngroups nfull false states) ∧
      (divCeil inputs.length W.LANES = .ok ngroups →
        hashEqualWide W debug inputs true = hashEqualWide W debug inputs false) ∧
      ∀ gather, GathersBlocks W gather → W.LANES ≤ MAX_LANES →
        divCeil inputs.length W.LANES = .ok ngroups → (∀ s ∈ inputs, nfull * 64 ≤ s.length) →
        ∀ interleave, fullBlocks W debug inputs inputs.length W.LANES ngroups nfull interleave states =
          .ok (scheduled W ngroups (fun bi g => gather (groupBlocks inputs W.LANES bi g)) states
            nfull) := by
  have hsame : ∀ n lanes nfull states, fullBlocks W debug inputs n lanes ngroups nfull true states =
      fullBlocks W debug inputs n lanes ngroups nfull false states := fun n lanes nfull states =>
    fullBlocks_schedules W debug inputs h2 h4 states
  refine ⟨fun n lanes => hsame n lanes nfull states, ?_, ?_⟩
  · intro hceil
    unfold hashEqualWide
    simp only [hceil, liftE_ok_bind, hsame]
  · intro gather hgather hle hceil hlen interleave
    obtain ⟨hpos, hdiv⟩ : 1 ≤ W.LANES ∧ (inputs.length + W.LANES - 1) / W.LANES = ngroups := by
      unfold divCeil at hceil
      split at hceil
      · cases hceil
      · exact ⟨by omega, Except.ok.inj hceil⟩
    have hgroups : ∀ g, g < ngroups → g * W.LANES < inputs.length := fun g hg =>
      (lt_ceil_iff hpos).mp (hdiv ▸ hg)
    have hseq : fullBlocks W debug inputs inputs.length W.LANES ngroups nfull false states =
        .ok (scheduled W ngroups (fun bi g => gather (groupBlocks inputs W.LANES bi g)) states
          nfull) := by
      unfold fullBlocks
      by_cases hzero : 0 < nfull
      · rw [if_pos hzero, if_neg (by omega), if_neg (by simp)]
        refine sequential_run h4 (fun bi hbi => ?_) states
        exact gatherGroupsAt_pure hgather hle (fun s hs => by have := hlen s hs; omega) h4 hpos hgroups
      · obtain rfl : nfull = 0 := by omega
        rw [if_neg hzero, scheduled_zero]
    cases interleave with
    | false => exact hseq
    | true => exact (hsame _ _ _ _).trans hseq

/-- Six messages of two full blocks on four lanes. -/
theorem full_block_schedules_neon4 :
    hashEqualWide Neon4 true (List.replicate 6 (List.replicate 128 1)) true =
        hashEqualWide Neon4 true (List.replicate 6 (List.replicate 128 1)) false ∧
      ∀ interleave, fullBlocks Neon4 true (List.replicate 6 (List.replicate 128 1)) 6 4 2 2 interleave
          (Vector.replicate 4 (ivState Neon4)) =
        .ok (scheduled Neon4 2 (fun bi g => Vector.ofFn (laneWord 4 (groupBlocks
          (List.replicate 6 (List.replicate 128 1)) 4 bi g)))
          (Vector.replicate 4 (ivState Neon4)) 2) := by
  have h := full_block_schedules Neon4 true (List.replicate 6 (List.replicate 128 1)) 2 2
    (Nat.le_refl 2) (by decide) (Vector.replicate 4 (ivState Neon4))
  have hceil : divCeil (List.replicate 6 (List.replicate 128 (1 : U8))).length Neon4.LANES =
      .ok 2 := by
    rw [List.length_replicate]
    rfl
  have hlen : ∀ s ∈ List.replicate 6 (List.replicate 128 (1 : U8)), 2 * 64 ≤ s.length := by
    intro s hs
    rw [List.eq_of_mem_replicate hs, List.length_replicate]
  obtain ⟨-, hhash, hblocks⟩ := h
  have hgather : GathersBlocks Neon4 fun blks => Vector.ofFn (laneWord 4 blks) :=
    gathersBlocks_of lanewise_neon4 id fun _ => rfl
  refine ⟨hhash hceil, fun interleave => ?_⟩
  have hrun := hblocks _ hgather (by decide) hceil hlen interleave
  rw [List.length_replicate] at hrun
  exact hrun

end Md5Simd
