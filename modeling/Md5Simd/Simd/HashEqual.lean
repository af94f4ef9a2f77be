import Md5Simd.Simd.Wide

/-!
# The fused kernel hashes every message

`hashEqualWide_run`: under the lane contract, `n` messages of one length in at
most four groups, the kernel returns and slot `i` holds the one-shot digest of
message `i`.

The invariant of the full blocks is `Chained`: every lane that carries a message
holds the chain of its first `t` blocks. The loops over single groups and group by
group keep it, since they advance every active group by one compression
(`advance`); the pipelined loop is the sequential one (`fullBlocks_schedules`).
-/

namespace Md5Simd

open Lib

/-! ## Group arithmetic -/

theorem lt_ceil_iff {n lanes g : Nat} (hl : 1 ≤ lanes) :
    g < (n + lanes - 1) / lanes ↔ g * lanes < n := by
  rw [Nat.lt_iff_add_one_le, Nat.le_div_iff_mul_le hl, Nat.succ_mul]
  omega

/-! ## One compression of every group

For any adapter, lawful or not: both schedules advance every active group by one
compression and leave the others alone. -/

/-- The states after one compression of the first `ngroups` groups. -/
def advance (W : Wide) (ngroups : Nat) (states : GroupStates W)
    (ms : Vector (Vector W.V 16) MAX_GROUPS) : GroupStates W :=
  Vector.ofFn fun g => if g.val < ngroups then compressWide W states[g] ms[g] else states[g]

theorem getElem_advance {W : Wide} {ngroups : Nat} (states : GroupStates W)
    (ms : Vector (Vector W.V 16) MAX_GROUPS) {g : Fin MAX_GROUPS} (hg : g.val < ngroups) :
    (advance W ngroups states ms)[g] = compressWide W states[g] ms[g] := by
  rw [advance, getElem_fin, Vector.getElem_ofFn, if_pos hg]

theorem foldlM_interleaved (W : Wide) {groups : Nat} (hg : groups ≤ MAX_GROUPS)
    (ms : Vector (Vector W.V 16) MAX_GROUPS) (ks : List (Fin 64)) (vs : GroupStates W) :
    ks.foldlM (fun vs step =>
      let kv := W.splatRef K[step]
      updateUpTo groups (fun g v => wideStepWithK W v ms[g] step kv) vs) vs =
      .ok (Vector.ofFn fun g =>
        if g.val < groups then ks.foldl (wideStep W ms[g]) vs[g] else vs[g]) := by
  induction ks generalizing vs with
  | nil =>
    simp only [List.foldlM_nil, List.foldl_nil, ite_self]
    exact congrArg _ (Vector.ext fun i hi => by simp)
  | cons k ks ih =>
    rw [List.foldlM_cons, Except.bind_ok (updateUpTo_ok hg), ih]
    refine congrArg _ (Vector.ext fun i hi => ?_)
    simp only [Vector.getElem_ofFn, getElem_fin]
    by_cases hi : i < groups
    · simp only [if_pos hi, List.foldl_cons]
      rfl
    · simp only [if_neg hi]

theorem compressGroupsInterleaved_run (W : Wide) (debug : Bool) {groups : Nat} (h2 : 2 ≤ groups)
    (h4 : groups ≤ MAX_GROUPS) (states : GroupStates W) (ms : Vector (Vector W.V 16) MAX_GROUPS) :
    compressGroupsInterleaved W debug groups states ms = .ok (advance W groups states ms) := by
  unfold compressGroupsInterleaved
  rw [Except.bind_ok (debugAssert_ok ⟨h2, h4⟩), Except.bind_ok (updateUpTo_ok h4),
    Except.bind_ok (foldlM_interleaved W h4 ms steps _), updateUpTo_ok h4]
  refine congrArg _ (Vector.ext fun i hi => ?_)
  simp only [advance, Vector.getElem_ofFn, getElem_fin]
  by_cases hi : i < groups
  · simp only [if_pos hi]
    unfold compressWide
    rfl
  · simp only [if_neg hi]

theorem compressGroups_run (W : Wide) (debug : Bool) {ngroups : Nat} (h2 : 2 ≤ ngroups)
    (h4 : ngroups ≤ MAX_GROUPS) (states : GroupStates W) (ms : Vector (Vector W.V 16) MAX_GROUPS) :
    compressGroups W debug ngroups states ms = .ok (advance W ngroups states ms) := by
  obtain rfl | rfl | rfl : ngroups = 2 ∨ ngroups = 3 ∨ ngroups = 4 := by
    simp only [MAX_GROUPS] at h4; omega
  · exact compressGroupsInterleaved_run W debug h2 h4 states ms
  · exact compressGroupsInterleaved_run W debug h2 h4 states ms
  · exact compressGroupsInterleaved_run W debug h2 h4 states ms

theorem updateUpTo_compressWide (W : Wide) {ngroups : Nat} (h4 : ngroups ≤ MAX_GROUPS)
    (states : GroupStates W) (ms : Vector (Vector W.V 16) MAX_GROUPS) :
    updateUpTo ngroups (fun g state => compressWide W state ms[g]) states =
      .ok (advance W ngroups states ms) := updateUpTo_ok h4

/-! ## The two schedules

The pipelined loop is the sequential one for any adapter, in its states and in its faults. -/

section Schedules

variable (W : Wide) (debug : Bool) (inputs : List Bytes) {n lanes ngroups nfull : Nat}
  (h2 : 2 ≤ ngroups) (h4 : ngroups ≤ MAX_GROUPS)

include h4

theorem sequentialBlock_of {bi : Nat} {ms : Vector (Vector W.V 16) MAX_GROUPS}
    (hms : gatherGroupsAt W inputs (bi * 64) n lanes ngroups = .ok ms) (states : GroupStates W) :
    sequentialBlock W inputs n lanes ngroups states bi = .ok (advance W ngroups states ms) := by
  rw [sequentialBlock, Except.bind_ok hms, updateUpTo_compressWide W h4]

include h2

/-- **The pipelined loop with block `bi` gathered is the sequential loop from block `bi` on.** -/
theorem interleavedLoop_eq (left bi : Nat) (hbi : bi < nfull) (hleft : bi + left = nfull)
    (states : GroupStates W) {cur : Vector (Vector W.V 16) MAX_GROUPS}
    (hcur : gatherGroupsAt W inputs (bi * 64) n lanes ngroups = .ok cur) :
    interleavedLoop W debug inputs n lanes ngroups nfull left bi states cur =
      (List.range' bi left).foldlM (sequentialBlock W inputs n lanes ngroups) states := by
  induction left generalizing bi states cur with
  | zero => omega
  | succ left ih =>
    have hgroups := compressGroups_run W debug h2 h4 states cur
    rw [List.range'_succ, List.foldlM_cons,
      Except.bind_ok (sequentialBlock_of W inputs h4 hcur states),
      interleavedLoop]
    by_cases hmore : bi + 1 < nfull
    · rw [if_pos hmore]
      cases hnext : gatherGroupsAt W inputs ((bi + 1) * 64) n lanes ngroups with
      | ok ms =>
        show (compressGroups W debug ngroups states cur >>= _) = _
        rw [Except.bind_ok hgroups]
        exact ih (bi + 1) hmore (by omega) _ hnext
      | error e =>
        -- the fault of the prefetch is the fault of the next sequential block
        obtain ⟨left, rfl⟩ : ∃ k, left = k + 1 := ⟨left - 1, by omega⟩
        rw [List.range'_succ, List.foldlM_cons, sequentialBlock, hnext]
        rfl
    · obtain rfl : left = 0 := by omega
      rw [if_neg hmore]
      show (compressGroups W debug ngroups states cur >>= _) = _
      rw [Except.bind_ok hgroups]
      rfl

/-- **The schedules agree**, in their states and in their faults. -/
theorem fullBlocks_schedules (states : GroupStates W) :
    fullBlocks W debug inputs n lanes ngroups nfull true states =
      fullBlocks W debug inputs n lanes ngroups nfull false states := by
  have h1 : ngroups ≠ 1 := by omega
  unfold fullBlocks
  by_cases hpos : 0 < nfull
  · rw [if_pos hpos, if_pos hpos, if_neg h1, if_neg h1, if_pos ⟨rfl, h2⟩, if_neg (by simp),
      List.range_eq_range']
    cases hcur : gatherGroupsAt W inputs 0 n lanes ngroups with
    | ok cur =>
      rw [Except.bind_ok rfl]
      exact interleavedLoop_eq W debug inputs h2 h4 nfull 0 hpos (by omega) states
        (by rw [Nat.zero_mul]; exact hcur)
    | error e =>
      obtain ⟨k, rfl⟩ : ∃ k, nfull = k + 1 := ⟨nfull - 1, by omega⟩
      rw [List.range'_succ, List.foldlM_cons, sequentialBlock, Nat.zero_mul, hcur]
      rfl
  · rw [if_neg hpos, if_neg hpos]

end Schedules

/-! ## Reading one block of a message -/

theorem read_block {m : Bytes} {bi : Nat} (h : bi < (blocks 64 m).length) :
    (Ptr.addr m (bi * 64)).read 0 64 = .ok (blocks 64 m)[bi] := by
  have hlen : bi * 64 + 64 ≤ m.length := by rw [length_blocks] at h; omega
  have hrest : 0 + 64 ≤ (Ptr.addr m (bi * 64)).rest.length := by
    simp only [Ptr.rest, List.length_drop]; omega
  rw [Ptr.read_ok hrest]
  refine congrArg _ (Vector.toList_inj.mp ?_)
  rw [toList_vecOf, getElem_blocks h]
  rfl

theorem read_pad (blk : Block) : (Ptr.addr blk.toList 0).read 0 64 = .ok blk := by
  have hrest : 0 + 64 ≤ (Ptr.addr blk.toList 0).rest.length := by simp [Ptr.rest]
  rw [Ptr.read_ok hrest]
  refine congrArg _ (Vector.toList_inj.mp ?_)
  rw [toList_vecOf]
  simp [Ptr.rest]

theorem lanePtrs_run {inputs : List Bytes} {lo hi start : Nat} (hhi : hi ≤ inputs.length)
    (hlanes : hi - lo ≤ MAX_LANES) (hstart : ∀ s ∈ inputs, start ≤ s.length) :
    ∃ ptrs, lanePtrs inputs lo hi start = .ok ptrs ∧
      ∀ (i : Fin MAX_LANES) (h : lo + i.val < hi), ptrs[i] = .addr inputs[lo + i.val] start := by
  obtain ⟨ptrs, hrun, hptrs, -⟩ := foldlM_entries hlanes
    (f := fun (ptrs : LanePtrs) i => do
      let input ← index inputs (lo + i)
      let p ← Ptr.ofSlice input start
      setVec ptrs i p)
    (v := Vector.replicate MAX_LANES .null)
    (fun i p => ∀ h : lo + i < inputs.length, p = .addr inputs[lo + i] start) fun ptrs i hi _ => by
      have hin : lo + i < inputs.length := by omega
      have hp := Ptr.ofSlice_ok (hstart _ (List.getElem_mem hin))
      refine ⟨.addr inputs[lo + i] start, ?_, fun _ => rfl⟩
      rw [Except.bind_ok (index_ok hin), Except.bind_ok hp]
      exact setVec_ok (by omega)
  exact ⟨ptrs, hrun, fun i h => hptrs i (by omega) (by omega)⟩

theorem lanePtrs_read {inputs : List Bytes} {lo hi bi : Nat} (hhi : hi ≤ inputs.length)
    (hlanes : hi - lo ≤ MAX_LANES) (hbi : ∀ s ∈ inputs, bi < s.length / 64) :
    ∃ ptrs, lanePtrs inputs lo hi (bi * 64) = .ok ptrs ∧
      ∀ (i : Fin MAX_LANES) (h : lo + i.val < hi),
        ptrs[i].read 0 64 = .ok ((blocks 64 inputs[lo + i.val]).getD bi zeroBlock) := by
  have hstart : ∀ s ∈ inputs, bi * 64 ≤ s.length := fun s hs => by
    have := hbi s hs
    omega
  obtain ⟨ptrs, hrun, hptrs⟩ := lanePtrs_run hhi hlanes hstart
  refine ⟨ptrs, hrun, fun i h => ?_⟩
  have hin : lo + i.val < inputs.length := by omega
  have hb : bi < (blocks 64 inputs[lo + i.val]).length := by
    rw [length_blocks]
    exact hbi _ (List.getElem_mem hin)
  rw [hptrs i h, read_block hb, List.getD_eq_getElem _ _ hb]

section Lanes

variable {W : Wide} (hW : Lanewise W)

include hW

theorem callGather_run {ptrs : LanePtrs} {n : Nat} {blks : Nat → Block} (h1 : 1 ≤ n)
    (hn : n ≤ W.LANES)
    (hread : ∀ i : Fin MAX_LANES, i.val < n → ptrs[i].read 0 64 = .ok (blks i)) :
    ∃ m, callGather W ptrs n = .ok m ∧
      ∀ i : Fin W.LANES, i.val < n → m.map (W.lane i) = loadM (blks i) := by
  obtain ⟨m, hrun, hm⟩ := hW.gather ptrs n blks h1 hn hread
  have hcontract : GatherContract W ptrs n :=
    ⟨h1, hn, fun i hi => Ptr.readable_of_read (hread i hi)⟩
  refine ⟨m, by rw [callGather, if_pos hcontract, hrun], fun i hi => Vector.ext fun w hw => ?_⟩
  have := hm ⟨w, hw⟩ i
  rw [show min i.val (n - 1) = i.val by omega] at this
  rw [Vector.getElem_map]
  exact this

/-! ## One block of every group -/

/-- Every lane that carries a message holds the words of its block `bi`. -/
def Gathered (W : Wide) (inputs : List Bytes) (bi : Nat) (g : Fin MAX_GROUPS) (m : Vector W.V 16) :
    Prop :=
  ∀ (i : Fin W.LANES) (h : g.val * W.LANES + i.val < inputs.length)
    (hb : bi < (blocks 64 inputs[g.val * W.LANES + i.val]).length),
    m.map (W.lane i) = loadM (blocks 64 inputs[g.val * W.LANES + i.val])[bi]

variable {inputs : List Bytes} {len : Nat} (hlen : ∀ s ∈ inputs, s.length = len)

include hlen

theorem gatherGroup_run {bi : Nat} {g : Fin MAX_GROUPS} (hg : g.val * W.LANES < inputs.length)
    (hbi : bi < len / 64) :
    ∃ ptrs m, lanePtrs inputs (g.val * W.LANES)
        (min (g.val * W.LANES + W.LANES) inputs.length) (bi * 64) = .ok ptrs ∧
      callGather W ptrs (min (g.val * W.LANES + W.LANES) inputs.length - g.val * W.LANES) = .ok m ∧
      Gathered W inputs bi g m := by
  have hpos := hW.lanes_pos
  have hle := hW.lanes_le
  generalize hlo : g.val * W.LANES = lo at *
  generalize hhi : min (lo + W.LANES) inputs.length = hi
  have hlohi : lo < hi ∧ hi ≤ inputs.length ∧ hi - lo ≤ W.LANES := by omega
  obtain ⟨hlt, hin, hwidth⟩ := hlohi
  have hwide : hi - lo ≤ MAX_LANES := by omega
  have hfull : ∀ s ∈ inputs, bi < s.length / 64 := fun s hs => by rw [hlen s hs]; exact hbi
  obtain ⟨ptrs, hptrs, hread⟩ := lanePtrs_read hin hwide hfull
  let blks (i : Nat) : Block := (blocks 64 (inputs.getD (lo + i) [])).getD bi zeroBlock
  have hblks : ∀ i (h : lo + i < inputs.length),
      blks i = (blocks 64 inputs[lo + i]).getD bi zeroBlock := fun i h => by
    show (blocks 64 (inputs.getD (lo + i) [])).getD bi zeroBlock = _
    rw [List.getD_eq_getElem _ _ h]
  have hblock : ∀ i : Fin MAX_LANES, i.val < hi - lo → ptrs[i].read 0 64 = .ok (blks i) :=
    fun i hi => by rw [hread i (by omega), hblks i (by omega)]
  obtain ⟨m, hm, hlanes⟩ := callGather_run hW (show 1 ≤ hi - lo by omega) hwidth hblock
  refine ⟨ptrs, m, hptrs, hm, ?_⟩
  subst hlo
  intro i h hb
  rw [hlanes i (by omega), hblks i h, List.getD_eq_getElem _ _ hb]

/-- **A gather of all groups.** -/
theorem gatherGroupsAt_run {bi ngroups : Nat} (hng : ngroups ≤ MAX_GROUPS)
    (hgroups : ∀ g, g < ngroups → g * W.LANES < inputs.length) (hbi : bi < len / 64) :
    ∃ ms, gatherGroupsAt W inputs (bi * 64) inputs.length W.LANES ngroups = .ok ms ∧
      ∀ g : Fin MAX_GROUPS, g.val < ngroups → Gathered W inputs bi g ms[g] := by
  obtain ⟨ms, hrun, hms, -⟩ := foldlM_entries hng
    (f := fun (ms : Vector (Vector W.V 16) MAX_GROUPS) g => do
      let lo := g * W.LANES
      let hi := min (lo + W.LANES) inputs.length
      let ptrs ← lanePtrs inputs lo hi (bi * 64)
      let m ← callGather W ptrs (hi - lo)
      setVec ms g m)
    (v := Vector.replicate MAX_GROUPS (Vector.replicate 16 (W.splat 0)))
    (fun g m => ∀ h : g < MAX_GROUPS, Gathered W inputs bi ⟨g, h⟩ m) fun ms g hg _ => by
      have hg4 : g < MAX_GROUPS := by omega
      obtain ⟨ptrs, m, hptrs, hm, hgathered⟩ :=
        gatherGroup_run hW hlen (g := ⟨g, hg4⟩) (hgroups g hg) hbi
      refine ⟨m, ?_, fun _ => hgathered⟩
      rw [Except.bind_ok hptrs, Except.bind_ok hm]
      exact setVec_ok hg4
  exact ⟨ms, hrun, fun g hg => hms g hg g.isLt⟩

/-! ## The full blocks -/

omit hW hlen in
/-- **The invariant of the full blocks**: every lane that carries a message holds the chain of its
first `t` blocks. -/
def Chained (W : Wide) (inputs : List Bytes) (t : Nat) (states : GroupStates W) : Prop :=
  ∀ (g : Fin MAX_GROUPS) (i : Fin W.LANES) (h : g.val * W.LANES + i.val < inputs.length),
    states[g].map (W.lane i) =
      ((blocks 64 inputs[g.val * W.LANES + i.val]).take t).foldl compressTextbook stateInit

omit hlen in
theorem chained_zero :
    Chained W inputs 0 (Vector.replicate MAX_GROUPS (ivState W)) := by
  intro g i h
  rw [getElem_fin, Vector.getElem_replicate, ivState_lane hW]
  rfl

theorem chained_succ {bi ngroups : Nat} (hactive : ∀ g, g * W.LANES < inputs.length → g < ngroups)
    (hbi : bi < len / 64) {states states' : GroupStates W} {ms : Vector (Vector W.V 16) MAX_GROUPS}
    (hms : ∀ g : Fin MAX_GROUPS, g.val < ngroups → Gathered W inputs bi g ms[g])
    (hstates : Chained W inputs bi states)
    (hstep : ∀ g : Fin MAX_GROUPS, g.val < ngroups → states'[g] = compressWide W states[g] ms[g]) :
    Chained W inputs (bi + 1) states' := by
  intro g i h
  have hg : g.val < ngroups := hactive _ (by omega)
  have hb : bi < (blocks 64 inputs[g.val * W.LANES + i.val]).length := by
    rw [length_blocks, hlen _ (List.getElem_mem h)]
    exact hbi
  rw [hstep g hg, compressWide_lane hW i (hms g hg i h hb), hstates g i h,
    List.take_succ_eq_append_getElem hb, List.foldl_concat]

section Loops

variable {ngroups : Nat} (hng : ngroups ≤ MAX_GROUPS)
  (hgroups : ∀ g, g < ngroups ↔ g * W.LANES < inputs.length)

include hng hgroups

theorem singleBlock_run (h1 : ngroups = 1) {bi : Nat} (hbi : bi < len / 64) {states : GroupStates W}
    (hstates : Chained W inputs bi states) :
    ∃ states', singleBlock W inputs inputs.length states bi = .ok states' ∧
      Chained W inputs (bi + 1) states' := by
  subst h1
  have hall : inputs.length ≤ W.LANES := by
    have := (hgroups 1).not.mp (by omega)
    omega
  obtain ⟨ptrs, m, hptrs, hm, hgathered⟩ := gatherGroup_run hW hlen (g := 0)
    ((hgroups 0).mp (by omega)) hbi
  simp only [Fin.val_zero, Nat.zero_mul, Nat.zero_add, Nat.min_eq_right hall, Nat.sub_zero]
    at hptrs hm
  unfold singleBlock
  rw [Except.bind_ok hptrs, Except.bind_ok hm]
  have hms : ∀ g : Fin MAX_GROUPS, g.val < 1 →
      Gathered W inputs bi g (Vector.replicate MAX_GROUPS m)[g] := by
    intro g hg
    obtain rfl : g = 0 := Fin.ext (show g.val = 0 by omega)
    exact hgathered
  refine ⟨_, rfl, chained_succ hW hlen (fun g hg => (hgroups g).mpr hg) hbi hms hstates ?_⟩
  · intro g hg
    obtain rfl : g = 0 := Fin.ext (show g.val = 0 by omega)
    simp

theorem sequentialBlock_run {bi : Nat} (hbi : bi < len / 64) {states : GroupStates W}
    (hstates : Chained W inputs bi states) :
    ∃ states', sequentialBlock W inputs inputs.length W.LANES ngroups states bi = .ok states' ∧
      Chained W inputs (bi + 1) states' := by
  obtain ⟨ms, hgather, hms⟩ := gatherGroupsAt_run hW hlen hng (fun g hg => (hgroups g).mp hg) hbi
  refine ⟨advance W ngroups states ms, ?_, ?_⟩
  · rw [sequentialBlock, Except.bind_ok hgather, updateUpTo_compressWide W hng]
  · exact chained_succ hW hlen (fun g hg => (hgroups g).mpr hg) hbi hms hstates
      fun g hg => getElem_advance states ms hg

/-- **Every loop form absorbs every full block of every message.** -/
theorem fullBlocks_run (debug interleave : Bool) :
    ∃ states, fullBlocks W debug inputs inputs.length W.LANES ngroups (len / 64) interleave
        (Vector.replicate MAX_GROUPS (ivState W)) = .ok states ∧
      Chained W inputs (len / 64) states := by
  suffices hplain : ∀ interleave, ¬(interleave = true ∧ 2 ≤ ngroups) →
      ∃ states, fullBlocks W debug inputs inputs.length W.LANES ngroups (len / 64) interleave
          (Vector.replicate MAX_GROUPS (ivState W)) = .ok states ∧
        Chained W inputs (len / 64) states by
    by_cases hpipe : interleave = true ∧ 2 ≤ ngroups
    · obtain ⟨rfl, h2⟩ := hpipe
      rw [fullBlocks_schedules W debug inputs h2 hng]
      exact hplain false (by simp)
    · exact hplain interleave hpipe
  intro interleave hpipe
  have h0 : Chained W inputs 0 _ := chained_zero hW
  unfold fullBlocks
  split
  · split
    · rename_i h1
      exact foldlM_range (Chained W inputs) (len / 64) h0
        fun bi states hbi hs => singleBlock_run hW hlen hng hgroups h1 hbi hs
    · exact foldlM_range (Chained W inputs) (len / 64) h0
        fun bi states hbi hs => sequentialBlock_run hW hlen hng hgroups hbi hs
  · rename_i hzero
    have hzero : len / 64 = 0 := by omega
    rw [hzero]
    exact ⟨_, rfl, h0⟩

end Loops

end Lanes

/-! ## Digests -/

theorem toList_stateToBytes (a b c d : U32) : (stateToBytes #v[a, b, c, d]).toList =
    (toLeBytes a).toList ++ (toLeBytes b).toList ++ (toLeBytes c).toList ++ (toLeBytes d).toList := by
  show (toLeBytes a ++ toLeBytes b ++ toLeBytes c ++ toLeBytes d).toList = _
  simp only [Vector.toList_append]

theorem take_overwrite_word (v : Digest) (k : Nat) (x : U32) (hk : k < 4) :
    (overwrite v (4 * k) (toLeBytes x).toList).toList.take (4 * (k + 1)) =
      v.toList.take (4 * k) ++ (toLeBytes x).toList := by
  have hlen : (toLeBytes x).toList.length = 4 := Vector.length_toList
  have h := take_overwrite (v := v) (n := 16) (show 4 * k + (toLeBytes x).toList.length ≤ 16 by omega)
  rwa [hlen] at h

theorem laneDigest_run {words : Vector (Vector U32 MAX_LANES) 4} {lane : Nat}
    (h : lane < MAX_LANES) :
    laneDigest words lane = .ok (stateToBytes (words.map fun w => w[lane])) := by
  have hw : ∀ w : Fin 4, indexVec words[w] lane = .ok words[w][lane] := fun w => indexVec_ok h
  have hall : ∀ v : Digest, v.toList = v.toList.take (4 * (3 + 1)) := fun v => by simp
  have hstate : words.map (fun w => w[lane]) =
      #v[words[0][lane], words[1][lane], words[2][lane], words[3][lane]] :=
    vec4_ext (by simp) (by simp) (by simp) (by simp)
  simp only [laneDigest, List.foldlM_cons, List.foldlM_nil, hw]
  refine congrArg Except.ok (Vector.toList_inj.mp ?_)
  show (overwrite (overwrite (overwrite (overwrite _ (4 * 0) _) (4 * 1) _) (4 * 2) _) (4 * 3)
    (toLeBytes words[3][lane]).toList).toList = _
  rw [hall, take_overwrite_word _ 3 _ (by decide), take_overwrite_word _ 2 _ (by decide),
    take_overwrite_word _ 1 _ (by decide), take_overwrite_word _ 0 _ (by decide), hstate,
    toList_stateToBytes]
  rfl

theorem laneWords_run {W : Wide} (hle : W.LANES ≤ MAX_LANES) (v : W.V) :
    ∃ words, laneWords W v = .ok words ∧
      ∀ (i : Fin W.LANES) (h : i.val < MAX_LANES), words[i.val] = W.lane i v := by
  have hlen : (W.toLanes v).toList.length = W.LANES := Vector.length_toList
  refine ⟨_, copyInto_ok (by omega), fun i h => ?_⟩
  rw [getElem_overwrite h (Nat.zero_le _) (by omega), Vector.getElem_toList]
  rfl

theorem stateWords_run {W : Wide} (hle : W.LANES ≤ MAX_LANES) (state : Vector W.V 4) :
    ∃ words, stateWords W state = .ok words ∧
      ∀ (i : Fin W.LANES) (h : i.val < MAX_LANES),
        words.map (fun w => w[i.val]) = state.map (W.lane i) := by
  obtain ⟨w0, h0, hw0⟩ := laneWords_run hle state[0]
  obtain ⟨w1, h1, hw1⟩ := laneWords_run hle state[1]
  obtain ⟨w2, h2, hw2⟩ := laneWords_run hle state[2]
  obtain ⟨w3, h3, hw3⟩ := laneWords_run hle state[3]
  refine ⟨#v[w0, w1, w2, w3], ?_, fun i h => vec4_ext ?_ ?_ ?_ ?_⟩
  · rw [stateWords, uncurry4, Except.bind_ok h0, Except.bind_ok h1, Except.bind_ok h2,
      Except.bind_ok h3]
    rfl
  · rw [Vector.getElem_map, Vector.getElem_map]; exact hw0 i h
  · rw [Vector.getElem_map, Vector.getElem_map]; exact hw1 i h
  · rw [Vector.getElem_map, Vector.getElem_map]; exact hw2 i h
  · rw [Vector.getElem_map, Vector.getElem_map]; exact hw3 i h

/-! ## Padding -/

theorem slice_tail (src : Bytes) :
    slice src (src.length - src.length % 64) (src.length - (src.length - src.length % 64)) =
      .ok (tail 64 src).val := by
  have hlo : src.length - src.length % 64 = src.length / 64 * 64 := by omega
  rw [slice_ok (by omega), hlo, List.take_of_length_le (by rw [List.length_drop])]
  rfl

/-- What the padding loop has built after `j` lanes. -/
structure PadsTo (inputs : List Bytes) (len lo j : Nat) (p : Pads) : Prop where
  pad : ∀ (i : Fin MAX_LANES) (h : lo + i.val < inputs.length), i.val < j → p.pad[i] =
    (buildFinalBlocks (BitVec.ofNat 64 len) (tail 64 inputs[lo + i.val]) zeroBlocks).2
  rest : ∀ i : Fin MAX_LANES, j ≤ i.val → p.pad[i] = zeroBlocks
  used : 0 < j → p.used[0] = if len % 64 ≤ 55 then 1 else 2

/-- The padding blocks of a group are those of its messages, and all lanes use as many. -/
theorem buildPads_run {inputs : List Bytes} {len : Nat} (hlen : ∀ s ∈ inputs, s.length = len)
    {lo hi : Nat} (hin : hi ≤ inputs.length) (hwide : hi - lo ≤ MAX_LANES) :
    ∃ p, buildPads inputs len lo hi = .ok p ∧ PadsTo inputs len lo (hi - lo) p := by
  refine foldlM_range (PadsTo inputs len lo) (hi - lo)
    ⟨fun _ _ h => by omega, fun i _ => by simp, fun h => by omega⟩ fun j p hj hp => ?_
  have hj16 : j < MAX_LANES := by omega
  have hlt : lo + j < inputs.length := by omega
  have hsrc : inputs[lo + j].length = len := hlen _ (List.getElem_mem hlt)
  have hslice := slice_tail inputs[lo + j]
  have hblocks : p.pad[j] = zeroBlocks := hp.rest ⟨j, hj16⟩ (Nat.le_refl j)
  rw [hsrc] at hslice
  rw [Except.bind_ok (index_ok hlt), hsrc, Except.bind_ok hslice,
    Except.bind_ok (indexVec_ok hj16), hblocks, dif_pos (tail 64 inputs[lo + j]).property,
    Except.bind_ok (setVec_ok hj16), Except.bind_ok (setVec_ok hj16)]
  refine ⟨_, rfl, ?_, ?_, ?_⟩
  · intro i h hij
    rw [getElem_fin, Vector.getElem_set]
    by_cases hji : j = i.val
    · subst hji; rw [if_pos rfl]
    · rw [if_neg hji]; exact hp.pad i h (by omega)
  · intro i hij
    rw [getElem_fin, Vector.getElem_set, if_neg (by omega)]
    exact hp.rest i (by omega)
  · intro _
    rw [Vector.getElem_set]
    by_cases hj0 : j = 0
    · rw [if_pos hj0, fst_buildFinalBlocks, length_tail, hsrc]
    · rw [if_neg hj0]; exact hp.used (by omega)

theorem padPtrs_run (pad : Vector (Vector Block 2) MAX_LANES) {gn pi : Nat} (hgn : gn ≤ MAX_LANES)
    (hpi : pi < 2) :
    ∃ ptrs, padPtrs pad gn pi = .ok ptrs ∧
      ∀ i : Fin MAX_LANES, i.val < gn → ptrs[i] = .addr pad[i][pi].toList 0 := by
  obtain ⟨ptrs, hrun, hptrs, -⟩ := foldlM_entries hgn
    (f := fun (ptrs : LanePtrs) i => do
      let blocks ← indexVec pad i
      let block ← indexVec blocks pi
      let p ← Ptr.ofSlice block.toList 0
      setVec ptrs i p)
    (v := Vector.replicate MAX_LANES .null)
    (fun i p => ∀ h : i < MAX_LANES, p = .addr pad[i][pi].toList 0) fun ptrs i hi _ => by
      have hi16 : i < MAX_LANES := by omega
      refine ⟨.addr pad[i][pi].toList 0, ?_, fun _ => rfl⟩
      rw [Except.bind_ok (indexVec_ok hi16), Except.bind_ok (indexVec_ok hpi),
        Except.bind_ok (Ptr.ofSlice_ok (Nat.zero_le _))]
      exact setVec_ok hi16
  exact ⟨ptrs, hrun, fun i hi => hptrs i hi i.isLt⟩

section Store

variable {W : Wide} (hW : Lanewise W) {inputs : List Bytes} {outputs : List Digest}
  (hout : inputs.length ≤ outputs.length) {f : Bytes → Digest}

include hW hout

theorem storeDigests_run {state : Vector W.V 4} {lo gn : Nat} (hgn : gn ≤ W.LANES)
    (hin : lo + gn ≤ inputs.length)
    (hd : ∀ (i : Fin W.LANES) (h : lo + i.val < inputs.length), i.val < gn →
      stateToBytes (state.map (W.lane i)) = f inputs[lo + i.val]) :
    storeDigests W state lo gn (fill f inputs outputs lo) =
      .ok () (fill f inputs outputs (lo + gn)) := by
  have hle := hW.lanes_le
  obtain ⟨words, hwords, hlanes⟩ := stateWords_run hle state
  unfold storeDigests
  rw [hwords, bind_ok (liftE_ok _ _)]
  refine forM_range_eq (fun k => fill f inputs outputs (lo + k)) gn fun k hk => ?_
  have hlane : k < W.LANES := by omega
  have h16 : k < MAX_LANES := by omega
  have hlt : lo + k < inputs.length := by omega
  rw [laneDigest_run h16, bind_ok (liftE_ok _ _)]
  refine store_fill hlt hout ?_
  rw [← hd ⟨k, hlane⟩ hlt hk, ← hlanes ⟨k, hlane⟩ h16]

end Store

/-! ## The whole kernel -/

section Kernel

variable {W : Wide} (hW : Lanewise W) {inputs : List Bytes} {len : Nat}
  (hlen : ∀ s ∈ inputs, s.length = len)

include hW hlen

/-- Compressing the padding of a group finishes the chain of every message in it. -/
theorem padding_run {g : Fin MAX_GROUPS} {gn : Nat} (h1 : 1 ≤ gn) (hgn : gn ≤ W.LANES)
    {states : GroupStates W} (hstates : Chained W inputs (len / 64) states) {p : Pads}
    (hp : PadsTo inputs len (g.val * W.LANES) gn p) :
    ∃ state, (List.range p.used[0]).foldlM (padBlock W p.pad gn) states[g] = .ok state ∧
      ∀ (i : Fin W.LANES) (h : g.val * W.LANES + i.val < inputs.length), i.val < gn →
        stateToBytes (state.map (W.lane i)) =
          hashWith inputs[g.val * W.LANES + i.val] compressTextbook := by
  have hle := hW.lanes_le
  have hused : p.used[0] ≤ 2 := by rw [hp.used h1]; split <;> omega
  -- the final blocks of message `k`, as many as are used
  let final (s : Bytes) : List Block := finalBlocks (BitVec.ofNat 64 len) (tail 64 s)
  have hcount : ∀ s ∈ inputs, (final s).length = p.used[0] := fun s hs => by
    rw [length_finalBlocks, length_tail, hlen s hs, hp.used h1]
  let Q (t : Nat) (state : Vector W.V 4) : Prop :=
    ∀ (i : Fin W.LANES) (h : g.val * W.LANES + i.val < inputs.length), i.val < gn →
      state.map (W.lane i) = ((final inputs[g.val * W.LANES + i.val]).take t).foldl compressTextbook
        ((blocks 64 inputs[g.val * W.LANES + i.val]).foldl compressTextbook stateInit)
  have hstart : Q 0 states[g] := fun i h _ => by
    have hnum : (blocks 64 inputs[g.val * W.LANES + i.val]).length = len / 64 := by
      rw [length_blocks, hlen _ (List.getElem_mem h)]
    rw [hstates g i h, ← hnum, List.take_length]
    rfl
  have hstep : ∀ pi state, pi < p.used[0] → Q pi state →
      ∃ state', padBlock W p.pad gn state pi = .ok state' ∧ Q (pi + 1) state' := by
    intro pi state hpi hstate
    have hpi2 : pi < 2 := by omega
    have hgn16 : gn ≤ MAX_LANES := by omega
    obtain ⟨ptrs, hptrs, hptr⟩ := padPtrs_run p.pad hgn16 hpi2
    let blks (i : Nat) : Block := if h : i < MAX_LANES then p.pad[i][pi] else zeroBlock
    have hblks : ∀ i (h : i < MAX_LANES), blks i = p.pad[i][pi] := fun i h => dif_pos h
    have hread : ∀ i : Fin MAX_LANES, i.val < gn → ptrs[i].read 0 64 = .ok (blks i) := by
      intro i hi
      rw [hptr i hi, read_pad, hblks i.val i.isLt]
      rfl
    obtain ⟨m, hm, hlanes⟩ := callGather_run hW h1 hgn hread
    refine ⟨compressWide W state m, ?_, fun i h hi => ?_⟩
    · rw [padBlock, Except.bind_ok hptrs, Except.bind_ok hm]; rfl
    · have hmem : inputs[g.val * W.LANES + i.val] ∈ inputs := List.getElem_mem h
      have hlt : pi < (final inputs[g.val * W.LANES + i.val]).length := by
        rw [hcount _ hmem]; exact hpi
      have hi16 : i.val < MAX_LANES := by omega
      have hwords : m.map (W.lane i) = loadM (final inputs[g.val * W.LANES + i.val])[pi] := by
        rw [hlanes i hi, hblks i.val hi16, getElem_finalBlocks hlt hpi2, ← hp.pad ⟨i.val, hi16⟩ h hi]
        rfl
      rw [compressWide_lane hW i hwords, hstate i h hi, List.take_succ_eq_append_getElem hlt,
        List.foldl_concat]
  obtain ⟨state, hrun, hstate⟩ := foldlM_range Q p.used[0] hstart hstep
  refine ⟨state, hrun, fun i h hi => ?_⟩
  have hmem : inputs[g.val * W.LANES + i.val] ∈ inputs := List.getElem_mem h
  rw [hstate i h hi, ← hcount _ hmem, List.take_length, hashWith_eq, padded, List.foldl_append,
    lenU64, hlen _ hmem]

variable {ngroups : Nat} {outputs : List Digest} (hout : inputs.length ≤ outputs.length)

include hout

theorem finishGroup_run {g : Fin MAX_GROUPS} (hg : g.val * W.LANES < inputs.length)
    {states : GroupStates W} (hstates : Chained W inputs (len / 64) states) :
    finishGroup W inputs inputs.length W.LANES len states g.val
        (fill (hashWith · compressTextbook) inputs outputs (g.val * W.LANES)) =
      .ok () (fill (hashWith · compressTextbook) inputs outputs
        (min (g.val * W.LANES + W.LANES) inputs.length)) := by
  have hpos := hW.lanes_pos
  have hle := hW.lanes_le
  obtain ⟨hi, hhi⟩ : ∃ hi, min (g.val * W.LANES + W.LANES) inputs.length = hi := ⟨_, rfl⟩
  obtain ⟨p, hpads, hp⟩ := buildPads_run hlen (show hi ≤ inputs.length by omega)
    (show hi - g.val * W.LANES ≤ MAX_LANES by omega)
  obtain ⟨state, hstate, hdigest⟩ := padding_run hW hlen
    (show 1 ≤ hi - g.val * W.LANES by omega) (by omega) hstates hp
  have hindex : indexVec states g.val = .ok states[g] := indexVec_ok g.isLt
  have hstore := storeDigests_run hW hout (f := (hashWith · compressTextbook))
    (show hi - g.val * W.LANES ≤ W.LANES by omega) (by omega) hdigest
  rw [show g.val * W.LANES + (hi - g.val * W.LANES) = hi by omega] at hstore
  unfold finishGroup
  simp only [hhi]
  rw [hpads, bind_ok (liftE_ok _ _), hindex, bind_ok (liftE_ok _ _), hstate,
    bind_ok (liftE_ok _ _)]
  exact hstore

/-- **The fused kernel hashes every message.** Under the lane contract, for messages of one length
in at most four groups, slot `i` holds the one-shot digest of message `i` and the slots behind the
messages are as they were, in both scheduling modes. -/
theorem hashEqualWide_fills (hne : inputs ≠ [])
    (hgroups : (inputs.length + W.LANES - 1) / W.LANES ≤ MAX_GROUPS) (debug interleave : Bool) :
    hashEqualWide W debug inputs interleave outputs =
      .ok () (inputs.map (hashWith · compressTextbook) ++ outputs.drop inputs.length) := by
  have hpos := hW.lanes_pos
  have hn : 1 ≤ inputs.length := List.length_pos_iff.mpr hne
  have hfirst : inputs[0].length = len := hlen _ (List.getElem_mem hn)
  have hiff : ∀ g, g < (inputs.length + W.LANES - 1) / W.LANES ↔ g * W.LANES < inputs.length :=
    fun g => lt_ceil_iff hpos
  have hsame : ∀ s ∈ inputs, ∀ t ∈ inputs.head?, s.length = t.length := fun s hs t ht => by
    rw [hlen s hs, hlen t (List.mem_of_head? ht)]
  have hceil : divCeil inputs.length W.LANES = .ok ((inputs.length + W.LANES - 1) / W.LANES) :=
    if_neg (by omega)
  obtain ⟨states, hfull, hstates⟩ := fullBlocks_run hW hlen hgroups hiff debug interleave
  unfold hashEqualWide
  rw [bind_ok (get_run outputs), debugAssert_ok hn, bind_ok (liftE_ok _ _), debugAssert_ok hout,
    bind_ok (liftE_ok _ _), debugAssert_ok hsame, bind_ok (liftE_ok _ _), hceil,
    bind_ok (liftE_ok _ _), debugAssert_ok hgroups, bind_ok (liftE_ok _ _), index_ok hn,
    bind_ok (liftE_ok _ _), hfirst, hfull, bind_ok (liftE_ok _ _)]
  generalize (inputs.length + W.LANES - 1) / W.LANES = ngroups at hgroups hiff
  have hend : min (ngroups * W.LANES) inputs.length = inputs.length := by
    have := (hiff ngroups).not.mp (Nat.lt_irrefl _)
    omega
  have hrun := forM_range_eq
    (m := finishGroup W inputs inputs.length W.LANES len states)
    (fun g => fill (hashWith · compressTextbook) inputs outputs (min (g * W.LANES) inputs.length))
    ngroups fun g hg => by
      have hlt := (hiff g).mp hg
      have hg4 : g < MAX_GROUPS := by omega
      rw [Nat.min_eq_left (by omega), Nat.succ_mul]
      exact finishGroup_run hW hlen hout (g := ⟨g, hg4⟩) hlt hstates
  rw [hend, fill_all, Nat.zero_mul, Nat.zero_min, fill_zero] at hrun
  exact hrun

end Kernel

end Md5Simd
