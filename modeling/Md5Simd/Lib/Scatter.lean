import Md5Simd.Lib.Fill

/-!
# Sorting by an index vector and scattering back

`UnstableSort` is a sort of an index vector by a key: some permutation in the
order of the keys, which one is left open between equal keys.

`scatter order vals` stores the `j`-th value at index `order[j]`. When `order` is
a permutation of `0..n` and the values belong to the elements in that order,
every slot below `n` ends with the value of its own element, whatever the order
was (`scatter_run`).
-/

namespace Lib

variable {α β : Type}

/-- `sort_unstable_by_key` on index vectors. -/
structure UnstableSort where
  sort : (Nat → Nat) → List Nat → List Nat
  perm : ∀ key xs, (sort key xs).Perm xs
  sorted : ∀ key xs, (sort key xs).Pairwise (key · ≤ key ·)

def UnstableSort.merge : UnstableSort where
  sort key xs := xs.mergeSort (fun i j => decide (key i ≤ key j))
  perm _ xs := List.mergeSort_perm xs _
  sorted key xs := by
    refine (List.pairwise_mergeSort (fun i j k hij hjk => ?_) (fun i j => ?_) xs).imp
      fun h => of_decide_eq_true h
    · exact decide_eq_true (Nat.le_trans (of_decide_eq_true hij) (of_decide_eq_true hjk))
    · simpa using Nat.le_total (key i) (key j)

/-- `for (j, &i) in order.iter().enumerate() { ys[i] = vals[j] }`. -/
def scatter (order : List Nat) (vals : List β) : EStateM Fault (List β) Unit :=
  forM order.zipIdx fun e => do
    let v ← liftE (index vals e.2)
    store e.1 v

theorem scatter_returns {ys vals : List β} {order : List Nat} (hlt : ∀ i ∈ order, i < ys.length)
    (hvals : order.length ≤ vals.length) : ∃ zs, scatter order vals ys = .ok () zs := by
  obtain ⟨zs, hrun, -⟩ := forM_zipIdx (m := fun e : Nat × Nat => do
      let v ← liftE (index vals e.2)
      store e.1 v) (fun _ zs => zs.length = ys.length) order rfl fun k hk zs hzs => by
    refine ⟨zs.set order[k] (vals[k]), ?_, by rw [List.length_set, hzs]⟩
    show (liftE (index vals k) >>= fun v => store order[k] v) zs = _
    rw [index_ok (by omega), bind_ok (liftE_ok _ zs)]
    exact store_ok (by rw [hzs]; exact hlt _ (List.getElem_mem hk))
  exact ⟨zs, hrun⟩

/-- **A scatter undoes the order it follows.** -/
theorem scatter_run {f : α → β} {xs : List α} {ys : List β} {order : List Nat} {vals : List β}
    (hperm : order.Perm (List.range xs.length)) (hlen : xs.length ≤ ys.length)
    (hvals : ∀ j (hj : j < order.length), ∃ h : order[j] < xs.length,
      vals[j]? = some (f xs[order[j]])) :
    scatter order vals ys = .ok () (xs.map f ++ ys.drop xs.length) := by
  -- after `k` stores the slots of the first `k` indices have their values
  let P (k : Nat) (zs : List β) : Prop := zs.length = ys.length ∧
    ∀ i, zs[i]? = if i ∈ order.take k then (xs[i]?).map f else ys[i]?
  obtain ⟨zs, hrun, hsize, hzs⟩ := forM_zipIdx (m := fun e : Nat × Nat => do
      let v ← liftE (index vals e.2)
      store e.1 v) P order ⟨rfl, fun i => by simp⟩ fun k hk zs ⟨hsize, hP⟩ => by
    obtain ⟨hin, hval⟩ := hvals k hk
    have hindex : index vals k = .ok (f xs[order[k]]) := by rw [index, hval]
    refine ⟨zs.set order[k] (f xs[order[k]]), ?_, by rw [List.length_set, hsize], fun i => ?_⟩
    · show (liftE (index vals k) >>= fun v => store order[k] v) zs = _
      rw [hindex, bind_ok (liftE_ok _ zs)]
      exact store_ok (by omega)
    · have hmem : i ∈ order.take (k + 1) ↔ i ∈ order.take k ∨ i = order[k] := by
        rw [List.take_succ_eq_append_getElem hk, List.mem_append, List.mem_singleton]
      rw [List.getElem?_set]
      by_cases hi : order[k] = i
      · rw [if_pos hi, if_pos (by omega), if_pos (hmem.mpr (.inr hi.symm)), ← hi,
          List.getElem?_eq_getElem hin]
        rfl
      · rw [if_neg hi, hP i]
        simp only [hmem, Ne.symm hi, or_false]
  refine hrun.trans (congrArg _ (List.ext_getElem? fun i => ?_))
  have hmem : i ∈ order ↔ i < xs.length := hperm.mem_iff.trans List.mem_range
  rw [hzs i, List.take_length, List.getElem?_append, List.length_map]
  by_cases hi : i < xs.length
  · rw [if_pos (hmem.mpr hi), if_pos hi, List.getElem?_map]
  · rw [if_neg (hmem.not.mpr hi), if_neg hi, List.getElem?_drop]
    congr 1
    omega

end Lib
