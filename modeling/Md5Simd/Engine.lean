import Md5Simd.Simd.Dispatch
import Md5Simd.Lib.Scatter

/-!
# The batch engine

`engine.rs`: `hash_many` is the dispatcher, `hash_many_grouped` hashes the inputs
sorted by length when the sort exposes a run, and restores the order of the
outputs. The sort of the index vector is unstable, so the results hold for every
`UnstableSort`.
-/

namespace Md5Simd

open Lib

namespace Engine

variable (b : Build)

/-- Hash independent messages into the output slice. -/
def hashMany (inputs : List Bytes) : EStateM Fault Ledger Unit := Dispatch.hashManyDispatch b inputs

def windows {α : Type} (xs : List α) : List (α × α) := xs.zip xs.tail

/-- The loop of `has_simd_sized_adjacent_run` over the windows, `run` so far. -/
def adjacentRun : List (Bytes × Bytes) → Nat → Bool
  | [], _ => false
  | pair :: rest, run =>
    if pair.1.length = pair.2.length then
      if 4 ≤ run + 1 then true else adjacentRun rest (run + 1)
    else
      adjacentRun rest 1

def hasSimdSizedAdjacentRun (inputs : List Bytes) : Bool := adjacentRun (windows inputs) 1

def countRun (inputs : List Bytes) (r : Nat × Nat) (pair : Nat × Nat) : Except Fault (Nat × Nat) := do
  let x ← index inputs pair.1
  let y ← index inputs pair.2
  if x.length = y.length then
    return (max r.1 (r.2 + 1), r.2 + 1)
  else
    return (r.1, 1)

/-- The length of the longest run of equal lengths in the order. -/
def maxRun (inputs : List Bytes) (order : List Nat) : Except Fault Nat :=
  Prod.fst <$> (windows order).foldlM (countRun inputs) (1, 1)

def runOn {σ α : Type} (s : σ) (m : EStateM Fault σ α) : Except Fault (α × σ) :=
  match m s with
  | .ok a s => .ok (a, s)
  | .error e _ => .error e

/-- The calls of a dispatch on another place. -/
def recordAll (calls : List Call) : EStateM Fault Ledger Unit :=
  modify fun l => { l with calls := l.calls ++ calls }

/-- Sort, hash and scatter. -/
def hashSorted (inputs : List Bytes) (order : List Nat) : EStateM Fault Ledger Unit := do
  let sortedInputs ← liftE (order.mapM (index inputs))
  -- `vec![[0u8; 16]; inputs.len()]`
  let sortedOutputs := List.replicate inputs.length (Vector.replicate 16 0)
  let r ← liftE (runOn ⟨sortedOutputs, []⟩ (hashMany b sortedInputs))
  recordAll r.2.calls
  Ledger.onOutputs (scatter order r.2.outputs)

/-- Hash messages grouped by length, in the order of the inputs. -/
def hashManyGrouped (sorter : UnstableSort) (inputs : List Bytes) : EStateM Fault Ledger Unit := do
  let l ← get
  if l.outputs.length < inputs.length then
    throw (Ledger.tooShort l.outputs.length inputs.length)
  else if inputs.length < 4 ∨ hasSimdSizedAdjacentRun inputs = true then
    hashMany b inputs
  else
    let order := sorter.sort (fun i => (inputs.getD i []).length) (List.range inputs.length)
    let run ← liftE (maxRun inputs order)
    if run < 4 then
      hashMany b inputs
    else
      hashSorted b inputs order

def groupOrder (sorter : UnstableSort) (inputs : List Bytes) : List Nat :=
  sorter.sort (fun i => (inputs.getD i []).length) (List.range inputs.length)

/-- Whether grouping goes past both of its early returns. -/
def sorts (sorter : UnstableSort) (inputs : List Bytes) : Bool :=
  !(decide (inputs.length < 4) || hasSimdSizedAdjacentRun inputs) &&
    match maxRun inputs (groupOrder sorter inputs) with
    | .ok run => !decide (run < 4)
    | .error _ => false

end Engine

open Engine

/-! ## The sorted path -/

variable {b : Build} {inputs : List Bytes} {order : List Nat} {outputs : List Digest}

theorem countRun_run {i j : Nat} (hi : i < inputs.length) (hj : j < inputs.length) (r : Nat × Nat) :
    countRun inputs r (i, j) =
      .ok (if (inputs.getD i []).length = (inputs.getD j []).length
        then (max r.1 (r.2 + 1), r.2 + 1) else (r.1, 1)) := by
  unfold countRun
  rw [index_ok hi, Except.bind_ok rfl, index_ok hj, Except.bind_ok rfl, List.getD_eq_getElem _ _ hi,
    List.getD_eq_getElem _ _ hj]
  split <;> rfl

section Order

variable (horder : order.Perm (List.range inputs.length))

include horder

theorem order_lt {i : Nat} (h : i ∈ order) : i < inputs.length :=
  List.mem_range.mp (horder.mem_iff.mp h)

/-- The run count reads only inputs. -/
theorem maxRun_run : ∃ n, maxRun inputs order = .ok n := by
  have hlt : ∀ p ∈ windows order, p.1 < inputs.length ∧ p.2 < inputs.length := fun p hp =>
    have hp' := List.of_mem_zip (a := p.1) (b := p.2) hp
    ⟨order_lt horder hp'.1, order_lt horder (List.mem_of_mem_tail hp'.2)⟩
  have hfold : ∀ ps : List (Nat × Nat), (∀ p ∈ ps, p.1 < inputs.length ∧ p.2 < inputs.length) →
      ∀ r, ∃ r', ps.foldlM (countRun inputs) r = .ok r' := by
    intro ps
    induction ps with
    | nil => exact fun _ r => ⟨r, rfl⟩
    | cons p ps ih =>
      intro hps r
      obtain ⟨h1, h2⟩ := hps p List.mem_cons_self
      rw [List.foldlM_cons, Except.bind_ok (countRun_run h1 h2 r)]
      exact ih (fun q hq => hps q (List.mem_cons_of_mem p hq)) _
  obtain ⟨r, hr⟩ := hfold _ hlt (1, 1)
  exact ⟨r.1, by rw [maxRun, hr]; rfl⟩

theorem mapM_index : order.mapM (index inputs) = .ok (order.map (inputs.getD · [])) := by
  have h : ∀ is : List Nat, (∀ i ∈ is, i < inputs.length) →
      is.mapM (index inputs) = .ok (is.map (inputs.getD · [])) := by
    intro is
    induction is with
    | nil => exact fun _ => rfl
    | cons i is ih =>
      intro his
      have hi := his i List.mem_cons_self
      rw [List.mapM_cons, index_ok hi, Except.bind_ok rfl,
        ih fun j hj => his j (List.mem_cons_of_mem i hj), List.map_cons, List.getD_eq_getElem _ _ hi]
      rfl
  exact h order fun i hi => order_lt horder hi

/-- **Sort, hash and scatter put every digest in the slot of its input**, whatever the order. -/
theorem hashSorted_run (hk : b.OptKernelOk) (hlen : inputs.length ≤ outputs.length) :
    ∃ calls, hashSorted b inputs order ⟨outputs, []⟩ =
      .ok () ⟨inputs.map (hash b) ++ outputs.drop inputs.length, calls⟩ := by
  have hsize : order.length = inputs.length := by
    rw [horder.length_eq, List.length_range]
  have hslots : (order.map (inputs.getD · [])).length ≤
      (List.replicate inputs.length (Vector.replicate 16 0 : Digest)).length := by
    rw [List.length_map, List.length_replicate, hsize]
  obtain ⟨calls, hrun⟩ := hashManyDispatch_eq hk hslots
  rw [List.drop_of_length_le (by simp [hsize]), List.append_nil] at hrun
  have hvals : ∀ j (hj : j < order.length), ∃ h : order[j] < inputs.length,
      ((order.map (inputs.getD · [])).map (hash b))[j]? = some (hash b inputs[order[j]]) := by
    intro j hj
    have hlt := order_lt horder (List.getElem_mem hj)
    refine ⟨hlt, ?_⟩
    rw [List.getElem?_map, List.getElem?_map, List.getElem?_eq_getElem hj, Option.map_some,
      Option.map_some, List.getD_eq_getElem _ _ hlt]
  have hscatter := scatter_run horder hlen hvals
  have hlocal : runOn ⟨List.replicate inputs.length (Vector.replicate 16 0), []⟩
      (hashMany b (order.map (inputs.getD · []))) =
        .ok ((), ⟨(order.map (inputs.getD · [])).map (hash b), calls⟩) := by
    rw [runOn, hashMany, hrun]
  unfold hashSorted
  rw [mapM_index horder, bind_ok (liftE_ok _ _), hlocal, bind_ok (liftE_ok _ _), recordAll,
    bind_ok (modify_run _ _)]
  exact ⟨_, zoom_ok hscatter⟩

end Order

/-! ## Grouping is transparent -/

theorem groupOrder_perm (sorter : UnstableSort) (inputs : List Bytes) :
    (groupOrder sorter inputs).Perm (List.range inputs.length) := sorter.perm _ _

theorem hashManyGrouped_eq (sorter : UnstableSort) (hlen : inputs.length ≤ outputs.length) :
    hashManyGrouped b sorter inputs ⟨outputs, []⟩ =
      (if sorts sorter inputs then hashSorted b inputs (groupOrder sorter inputs)
        else hashMany b inputs) ⟨outputs, []⟩ := by
  obtain ⟨run, hmax⟩ := maxRun_run (groupOrder_perm sorter inputs)
  have hsorts : sorts sorter inputs = true ↔
      ¬(inputs.length < 4 ∨ hasSimdSizedAdjacentRun inputs = true) ∧ ¬run < 4 := by
    simp [sorts, hmax]
  unfold hashManyGrouped
  rw [bind_ok (get_run _), if_neg (by simpa using hlen)]
  by_cases hfew : inputs.length < 4 ∨ hasSimdSizedAdjacentRun inputs = true
  · rw [if_pos hfew, if_neg fun h => (hsorts.mp h).1 hfew]
  rw [if_neg hfew]
  change (liftE (maxRun inputs (groupOrder sorter inputs)) >>= _) _ = _
  rw [hmax, bind_ok (liftE_ok _ _)]
  by_cases hrun : run < 4
  · rw [if_pos hrun, if_neg fun h => (hsorts.mp h).2 hrun]
  · rw [if_neg hrun, if_pos (hsorts.mpr ⟨hfew, hrun⟩)]
    rfl

theorem hashManyGrouped_short (sorter : UnstableSort) (h : outputs.length < inputs.length) :
    hashManyGrouped b sorter inputs ⟨outputs, []⟩ =
      .error (Ledger.tooShort outputs.length inputs.length) ⟨outputs, []⟩ := by
  unfold hashManyGrouped
  rw [bind_ok (get_run _), if_pos (show outputs.length < inputs.length from h)]
  rfl

/-- **Grouped hashing is hashing in place**, for every order the sort may choose between equal
lengths: it leaves the outputs of `hash_many`, which are the one-shot digests of the inputs in their
slots and all other slots as they were; and a slice that is too short panics unchanged. -/
theorem hash_many_grouped (b : Build) (hk : b.OptKernelOk) (sorter : UnstableSort)
    (inputs : List Bytes) (outputs : List Digest) :
    (inputs.length ≤ outputs.length →
      ∃ outs calls calls', hashManyGrouped b sorter inputs ⟨outputs, []⟩ = .ok () ⟨outs, calls⟩ ∧
        hashMany b inputs ⟨outputs, []⟩ = .ok () ⟨outs, calls'⟩ ∧
        outs = inputs.map (hash b) ++ outputs.drop inputs.length) ∧
      (outputs.length < inputs.length →
        hashManyGrouped b sorter inputs ⟨outputs, []⟩ =
          .error (Ledger.tooShort outputs.length inputs.length) ⟨outputs, []⟩) := by
  refine ⟨fun hlen => ?_, fun h => ?_⟩
  · obtain ⟨calls', hmany⟩ := hashManyDispatch_eq hk hlen
    obtain ⟨sortedCalls, hsorted⟩ := hashSorted_run (groupOrder_perm sorter inputs) hk hlen
    have hgrouped : ∃ calls, hashManyGrouped b sorter inputs ⟨outputs, []⟩ =
        .ok () ⟨inputs.map (hash b) ++ outputs.drop inputs.length, calls⟩ := by
      rw [hashManyGrouped_eq sorter hlen]
      by_cases hsorts : sorts sorter inputs = true
      · rw [if_pos hsorts]
        exact ⟨sortedCalls, hsorted⟩
      · rw [if_neg hsorts]
        exact ⟨calls', hmany⟩
    obtain ⟨calls, hgrouped⟩ := hgrouped
    exact ⟨_, calls, calls', hgrouped, hmany, rfl⟩
  · exact hashManyGrouped_short sorter h

/-- Six messages of alternating lengths. -/
theorem hash_many_grouped_alternating :
    ∃ outs calls calls',
      hashManyGrouped optBuild .merge [[1], [2, 2], [3], [4, 4], [5], [6]]
        ⟨List.replicate 7 emptyDigest, []⟩ = .ok () ⟨outs, calls⟩ ∧
      hashMany optBuild [[1], [2, 2], [3], [4, 4], [5], [6]] ⟨List.replicate 7 emptyDigest, []⟩ =
        .ok () ⟨outs, calls'⟩ ∧
      outs = [[1], [2, 2], [3], [4, 4], [5], [6]].map (hash optBuild) ++ [emptyDigest] :=
  (hash_many_grouped optBuild optKernelOk_optBuild .merge [[1], [2, 2], [3], [4, 4], [5], [6]]
    (List.replicate 7 emptyDigest)).1 (by decide)

end Md5Simd
