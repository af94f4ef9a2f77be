import Md5Simd.Engine
import Md5Simd.Simd.Policy

/-!
# What grouping is worth

`hash_many_grouped` decides by run lengths alone whether to sort: it does not when
four adjacent messages have one length, and it does when some length occurs four
times (`sorts_iff`). The scheduler looks at the lengths themselves and at the
batch width as well. So the two can disagree both ways, and the results say
exactly where.
-/

namespace Md5Simd

open Lib Engine

/-- The inputs in the order grouping hashes them in. -/
def Engine.sortedInputs (sorter : UnstableSort) (inputs : List Bytes) : List Bytes :=
  (groupOrder sorter inputs).map (inputs.getD · [])

/-- Four adjacent messages have one length. -/
def FourAdjacent (inputs : List Bytes) : Prop := ∃ len, HasRun 4 len (lengths inputs)

/-- Four adjacent messages have one length of at least 64, or eight one of at least 32. -/
def LongAdjacent (inputs : List Bytes) : Prop :=
  ∃ len, (64 ≤ len ∧ HasRun 4 len (lengths inputs)) ∨ (32 ≤ len ∧ HasRun 8 len (lengths inputs))

/-- Four messages have one length of at least 64, or eight one of at least 32. -/
def ManyLong (inputs : List Bytes) : Prop :=
  ∃ len, (64 ≤ len ∧ 4 ≤ (lengths inputs).count len) ∨ (32 ≤ len ∧ 8 ≤ (lengths inputs).count len)

variable {b : Build} {sorter : UnstableSort} {inputs : List Bytes} {outputs : List Digest}

/-! ## The run tests -/

/-- The test of the adjacent messages, `run` messages into a run. -/
theorem adjacentRun_iff (xs : List Bytes) (x : Bytes) (run : Nat) (h1 : 1 ≤ run) (h4 : run < 4) :
    adjacentRun (windows (x :: xs)) run = true ↔
      ∃ len, HasRun 4 len (List.replicate run x.length ++ lengths xs) := by
  induction xs generalizing x run with
  | nil =>
    refine iff_of_false (by simp [windows, adjacentRun]) ?_
    rintro ⟨len, hrun⟩
    have := hrun.length_le
    simp [lengths] at this
    omega
  | cons y ys ih =>
    show adjacentRun ((x, y) :: windows (y :: ys)) run = true ↔ _
    rw [adjacentRun, lengths, List.map_cons, ← lengths]
    by_cases hxy : x.length = y.length
    · rw [if_pos hxy, hxy, replicate_append_cons]
      by_cases hrun : 4 ≤ run + 1
      · rw [if_pos hrun]
        exact iff_of_true rfl ⟨y.length, (hasRun_front _ _ _).mono hrun⟩
      · rw [if_neg hrun]
        exact ih y (run + 1) (by omega) (by omega)
    · have hhead : (y.length :: lengths ys).head? ≠ some x.length := fun h =>
        hxy (Option.some.inj h).symm
      rw [if_neg hxy, ih y 1 (by omega) (by omega)]
      refine exists_congr fun len => ?_
      rw [hasRun_append (by omega) hhead]
      constructor
      · exact .inr
      · rintro (⟨-, hle⟩ | h)
        · omega
        · exact h

theorem hasSimdSizedAdjacentRun_iff :
    hasSimdSizedAdjacentRun inputs = true ↔ FourAdjacent inputs := by
  rcases inputs with _ | ⟨x, xs⟩
  · refine iff_of_false nofun ?_
    rintro ⟨len, hrun⟩
    exact absurd hrun.length_le (by simp [lengths])
  · exact adjacentRun_iff xs x 1 (le_refl 1) (by omega)

/-- The count of the longest run, `r.2` messages into a run and the longest so far `r.1`. -/
theorem countRuns_iff {k : Nat} (hk : 1 ≤ k) (is : List Nat) (i : Nat) (r r' : Nat × Nat)
    (hlt : ∀ j ∈ i :: is, j < inputs.length) (h1 : 1 ≤ r.2) (hle : r.2 ≤ r.1)
    (h : (windows (i :: is)).foldlM (countRun inputs) r = .ok r') :
    k ≤ r'.1 ↔ k ≤ r.1 ∨ ∃ len, HasRun k len (List.replicate r.2 (inputs.getD i []).length ++
      is.map fun j => (inputs.getD j []).length) := by
  induction is generalizing i r with
  | nil =>
    cases h
    refine ⟨.inl, ?_⟩
    rintro (h | ⟨len, hrun⟩)
    · exact h
    · have := hrun.length_le
      simp at this
      omega
  | cons j js ih =>
    have hi : i < inputs.length := hlt i List.mem_cons_self
    have hjs : ∀ k ∈ j :: js, k < inputs.length := fun k hk => hlt k (List.mem_cons_of_mem i hk)
    change (countRun inputs r (i, j) >>= (windows (j :: js)).foldlM (countRun inputs)) = _ at h
    rw [countRun_run hi (hjs j List.mem_cons_self), Except.bind_ok rfl] at h
    rw [List.map_cons]
    by_cases hij : (inputs.getD i []).length = (inputs.getD j []).length
    · rw [if_pos hij] at h
      rw [ih j _ hjs (by simp) (by simp) h, hij, replicate_append_cons]
      constructor
      · rintro (hmax | hrun)
        · rcases le_max_iff.mp hmax with hmax | hmax
          · exact .inl hmax
          · exact .inr ⟨_, (hasRun_front _ _ _).mono hmax⟩
        · exact .inr hrun
      · rintro (hmax | hrun)
        · exact .inl (le_max_of_le_left hmax)
        · exact .inr hrun
    · have hhead : ((inputs.getD j []).length :: js.map fun j => (inputs.getD j []).length).head? ≠
          some (inputs.getD i []).length := fun h => hij (Option.some.inj h).symm
      rw [if_neg hij] at h
      rw [ih j _ hjs (le_refl 1) (by simp; omega) h]
      constructor
      · rintro (hmax | ⟨len, hrun⟩)
        · exact .inl hmax
        · exact .inr ⟨len, (hasRun_append hk hhead).mpr (.inr hrun)⟩
      · rintro (hmax | ⟨len, hrun⟩)
        · exact .inl hmax
        · rcases (hasRun_append hk hhead).mp hrun with ⟨-, hmax⟩ | hrun
          · exact .inl (by omega)
          · exact .inr ⟨len, hrun⟩

/-- **The longest run** of an order of the inputs. -/
theorem maxRun_iff {order : List Nat} {run : Nat} (hlt : ∀ i ∈ order, i < inputs.length)
    (h : maxRun inputs order = .ok run) :
    4 ≤ run ↔ ∃ len, HasRun 4 len (order.map fun i => (inputs.getD i []).length) := by
  obtain ⟨r, hfold, rfl⟩ := Except.map_eq_ok.mp h
  rcases order with _ | ⟨i, is⟩
  · cases hfold
    refine iff_of_false (by decide) ?_
    rintro ⟨len, hrun⟩
    exact absurd hrun.length_le (by simp)
  · rw [countRuns_iff (by decide) is i (1, 1) r hlt (le_refl 1) (le_refl 1) hfold]
    constructor
    · rintro (hmax | hrun)
      · exact absurd hmax (by decide)
      · exact hrun
    · exact .inr

/-! ## The sorted inputs -/

theorem length_sortedInputs : (sortedInputs sorter inputs).length = inputs.length := by
  rw [sortedInputs, List.length_map, (groupOrder_perm sorter inputs).length_eq, List.length_range]

theorem lengths_sortedInputs : lengths (sortedInputs sorter inputs) =
    (groupOrder sorter inputs).map fun i => (inputs.getD i []).length := by
  rw [lengths, sortedInputs, List.map_map]
  rfl

theorem lengths_sortedInputs_sorted :
    (lengths (sortedInputs sorter inputs)).Pairwise (· ≤ ·) := by
  rw [lengths_sortedInputs, List.pairwise_map]
  exact sorter.sorted _ _

theorem lengths_sortedInputs_perm :
    (lengths (sortedInputs sorter inputs)).Perm (lengths inputs) := by
  have hrange : (List.range inputs.length).map (fun i => (inputs.getD i []).length) =
      lengths inputs := by
    refine List.ext_getElem (by simp [lengths]) fun i hi hi' => ?_
    simp at hi
    simp [lengths, hi]
  rw [lengths_sortedInputs, ← hrange]
  exact (groupOrder_perm sorter inputs).map _

theorem hasRun_sortedInputs {k len : Nat} :
    HasRun k len (lengths (sortedInputs sorter inputs)) ↔ k ≤ (lengths inputs).count len := by
  rw [hasRun_iff_count lengths_sortedInputs_sorted, lengths_sortedInputs_perm.count_eq]

/-- **When grouping sorts**: no four adjacent messages have one length, but some four have. -/
theorem sorts_iff : sorts sorter inputs = true ↔
    ¬FourAdjacent inputs ∧ ∃ len, 4 ≤ (lengths inputs).count len := by
  obtain ⟨run, hmax⟩ := maxRun_run (groupOrder_perm sorter inputs)
  have hsorts : sorts sorter inputs = true ↔
      ¬(inputs.length < 4 ∨ hasSimdSizedAdjacentRun inputs = true) ∧ 4 ≤ run := by
    simp [sorts, hmax]
  have hlong : 4 ≤ run ↔ ∃ len, 4 ≤ (lengths inputs).count len := by
    rw [maxRun_iff (fun i => order_lt (groupOrder_perm sorter inputs)) hmax, ← lengths_sortedInputs]
    exact exists_congr fun len => hasRun_sortedInputs
  rw [hsorts, hasSimdSizedAdjacentRun_iff, hlong]
  constructor
  · rintro ⟨hfew, hfour⟩
    exact ⟨fun hadj => hfew (.inr hadj), hfour⟩
  · rintro ⟨hnone, len, hfour⟩
    refine ⟨?_, len, hfour⟩
    rintro (hfew | hadj)
    · have := List.count_le_length (a := len) (l := lengths inputs)
      simp [lengths] at this hfour
      omega
    · exact hnone hadj

/-! ## The calls of a grouped call -/

theorem hashSorted_dispatch {l : Ledger} (hlen : inputs.length ≤ outputs.length)
    (hrun : hashMany b (sortedInputs sorter inputs)
      ⟨List.replicate inputs.length (Vector.replicate 16 0), []⟩ = .ok () l)
    (hl : l.outputs.length = inputs.length) :
    ∃ outs, hashSorted b inputs (groupOrder sorter inputs) ⟨outputs, []⟩ =
      .ok () ⟨outs, l.calls⟩ := by
  have horder := groupOrder_perm sorter inputs
  have hsize : (groupOrder sorter inputs).length = inputs.length := by
    rw [horder.length_eq, List.length_range]
  have hlt : ∀ i ∈ groupOrder sorter inputs, i < outputs.length := fun i hi =>
    Nat.lt_of_lt_of_le (order_lt horder hi) hlen
  have hvals : (groupOrder sorter inputs).length ≤ l.outputs.length := by rw [hsize, hl]
  obtain ⟨outs, hscatter⟩ := scatter_returns hlt hvals
  have hlocal : runOn ⟨List.replicate inputs.length (Vector.replicate 16 0), []⟩
      (hashMany b (sortedInputs sorter inputs)) = .ok ((), l) := by
    rw [runOn, hrun]
  refine ⟨outs, ?_⟩
  unfold hashSorted
  rw [mapM_index horder, bind_ok (liftE_ok _ _)]
  change (liftE (runOn _ (hashMany b (sortedInputs sorter inputs))) >>= _) _ = _
  rw [hlocal, bind_ok (liftE_ok _ _), recordAll, bind_ok (modify_run _ _)]
  exact zoom_ok hscatter

theorem hashSorted_calls (hlen : inputs.length ≤ outputs.length) :
    ∃ l, hashSorted b inputs (groupOrder sorter inputs) ⟨outputs, []⟩ = .ok () l ∧
      (EntersKernel b l.calls ↔
        OffersBatch (Platform.lanes b) (lengths (sortedInputs sorter inputs))) := by
  have hslots : (sortedInputs sorter inputs).length ≤
      (List.replicate inputs.length (Vector.replicate 16 0 : Digest)).length := by
    rw [length_sortedInputs, List.length_replicate]
  obtain ⟨l, hrun, hl, hcalls⟩ := dispatch_calls b hslots
  rw [List.length_replicate] at hl
  obtain ⟨outs, hsorted⟩ := hashSorted_dispatch hlen hrun hl
  exact ⟨⟨outs, l.calls⟩, hsorted, hcalls⟩

/-- **A grouped call enters a kernel** exactly when the list it dispatches offers a batch. -/
theorem hashManyGrouped_calls (b : Build) (sorter : UnstableSort)
    (hlen : inputs.length ≤ outputs.length) :
    ∃ l, hashManyGrouped b sorter inputs ⟨outputs, []⟩ = .ok () l ∧
      (EntersKernel b l.calls ↔ OffersBatch (Platform.lanes b)
        (lengths (if sorts sorter inputs then sortedInputs sorter inputs else inputs))) := by
  rw [hashManyGrouped_eq sorter hlen]
  by_cases hsorts : sorts sorter inputs = true
  · rw [if_pos hsorts, if_pos hsorts]
    exact hashSorted_calls hlen
  · rw [if_neg hsorts, if_neg hsorts]
    obtain ⟨l, hrun, -, hcalls⟩ := dispatch_calls b hlen
    exact ⟨l, hrun, hcalls⟩

/-! ## Where the two tests agree -/

theorem offersBatch_sortedInputs {max : Nat} :
    OffersBatch max (lengths (sortedInputs sorter inputs)) ↔ 4 ≤ max ∧ ManyLong inputs := by
  rw [offersBatch_iff]
  simp only [hasRun_sortedInputs]
  rfl

theorem dispatch_sortedInputs :
    (∃ l, hashMany b (sortedInputs sorter inputs)
        ⟨List.replicate inputs.length (Vector.replicate 16 0), []⟩ = .ok () l ∧
      EntersKernel b l.calls) ↔ 4 ≤ Platform.lanes b ∧ ManyLong inputs := by
  have hslots : (sortedInputs sorter inputs).length ≤
      (List.replicate inputs.length (Vector.replicate 16 0 : Digest)).length := by
    rw [length_sortedInputs, List.length_replicate]
  obtain ⟨l, hrun, -, hcalls⟩ := dispatch_calls b hslots
  rw [← offersBatch_sortedInputs, ← hcalls]
  exact exists_ok_iff hrun

/-- **When a sort pays.** Grouping takes the sorted path when `sorts` says so. That the dispatch
it sorts for then enters a kernel is true exactly of these lists: the ones it does not sort, and
the ones with enough long messages of one length on a platform with batch lanes. -/
theorem grouping_sorts_for_kernel (b : Build) (sorter : UnstableSort) (inputs : List Bytes)
    (outputs : List Digest) (hlen : inputs.length ≤ outputs.length) :
    hashManyGrouped b sorter inputs ⟨outputs, []⟩ =
        (if sorts sorter inputs then hashSorted b inputs (groupOrder sorter inputs)
          else hashMany b inputs) ⟨outputs, []⟩ ∧
      ((sorts sorter inputs = true →
          ∃ l, hashMany b (sortedInputs sorter inputs)
              ⟨List.replicate inputs.length (Vector.replicate 16 0), []⟩ = .ok () l ∧
            EntersKernel b l.calls) ↔
        FourAdjacent inputs ∨ (∀ len, (lengths inputs).count len < 4) ∨
          (4 ≤ Platform.lanes b ∧ ManyLong inputs)) := by
  refine ⟨hashManyGrouped_eq sorter hlen, ?_⟩
  rw [dispatch_sortedInputs, sorts_iff]
  constructor
  · intro h
    by_cases hadj : FourAdjacent inputs
    · exact .inl hadj
    by_cases hfour : ∃ len, 4 ≤ (lengths inputs).count len
    · exact .inr (.inr (h ⟨hadj, hfour⟩))
    · exact .inr (.inl fun len => Nat.lt_of_not_le fun h => hfour ⟨len, h⟩)
  · rintro (hadj | hfew | hlong) ⟨hnone, len, hfour⟩
    · exact absurd hadj hnone
    · exact absurd hfour (Nat.not_le_of_lt (hfew len))
    · exact hlong

/-- Seven messages of one and two bytes are sorted, on sixteen lanes, and no kernel is entered. -/
theorem grouping_sorts_short :
    sorts .merge ([1, 2, 1, 2, 1, 2, 1].map (List.replicate · 0)) = true ∧
      ¬∃ l, hashMany optBuild (sortedInputs .merge ([1, 2, 1, 2, 1, 2, 1].map (List.replicate · 0)))
          ⟨List.replicate 7 (Vector.replicate 16 0), []⟩ = .ok () l ∧
        EntersKernel optBuild l.calls := by
  constructor
  · have hnone : ¬hasSimdSizedAdjacentRun ([1, 2, 1, 2, 1, 2, 1].map (List.replicate · 0)) = true := by
      decide
    rw [hasSimdSizedAdjacentRun_iff] at hnone
    exact sorts_iff.mpr ⟨hnone, 1, by decide⟩
  · intro h
    obtain ⟨-, len, hlong⟩ := dispatch_sortedInputs.mp h
    have hpos : 0 < [1, 2, 1, 2, 1, 2, 1].count len := by
      rcases hlong with ⟨-, h⟩ | ⟨-, h⟩
      · exact Nat.lt_of_lt_of_le (by decide) h
      · exact Nat.lt_of_lt_of_le (by decide) h
    have hmem : len ∈ [1, 2, 1, 2, 1, 2, 1] := List.count_pos_iff.mp hpos
    simp at hmem
    omega

theorem not_fourAdjacent_blocks :
    ¬FourAdjacent ([64, 1, 64, 1, 64, 1, 64].map (List.replicate · 0)) := by
  rw [← hasSimdSizedAdjacentRun_iff]
  decide

theorem manyLong_blocks : ManyLong ([64, 1, 64, 1, 64, 1, 64].map (List.replicate · 0)) :=
  ⟨64, .inl ⟨le_refl 64, by decide⟩⟩

/-- Seven messages of 64 bytes and one byte, none adjacent to its like, are sorted into a kernel. -/
theorem grouping_sorts_for_kernel_blocks :
    ∃ l, hashMany optBuild (sortedInputs .merge ([64, 1, 64, 1, 64, 1, 64].map (List.replicate · 0)))
        ⟨List.replicate 7 (Vector.replicate 16 0), []⟩ = .ok () l ∧
      EntersKernel optBuild l.calls := by
  have h := (grouping_sorts_for_kernel optBuild .merge
    ([64, 1, 64, 1, 64, 1, 64].map (List.replicate · 0)) (List.replicate 7 emptyDigest)
    (by decide)).2.mpr (.inr (.inr ⟨by decide, manyLong_blocks⟩))
  exact h (sorts_iff.mpr ⟨not_fourAdjacent_blocks, 64, by decide⟩)

/-- **When grouping finds the batches.** That the call enters a kernel whenever the sorted list
offers a batch is true exactly of these lists: the ones without four adjacent messages of one
length, the ones whose long messages are adjacent, and the ones whose sorted list offers none. -/
theorem grouping_finds_kernel (b : Build) (sorter : UnstableSort) (inputs : List Bytes)
    (outputs : List Digest) (hlen : inputs.length ≤ outputs.length) :
    (OffersBatch (Platform.lanes b) (lengths (sortedInputs sorter inputs)) →
        ∃ l, hashManyGrouped b sorter inputs ⟨outputs, []⟩ = .ok () l ∧ EntersKernel b l.calls) ↔
      ¬FourAdjacent inputs ∨ LongAdjacent inputs ∨ ¬(4 ≤ Platform.lanes b ∧ ManyLong inputs) := by
  obtain ⟨l, hrun, hcalls⟩ := hashManyGrouped_calls b sorter hlen
  rw [exists_ok_iff (P := fun l => EntersKernel b l.calls) hrun, hcalls, offersBatch_sortedInputs]
  by_cases hmany : 4 ≤ Platform.lanes b ∧ ManyLong inputs
  swap
  · exact iff_of_true (fun h => absurd h hmany) (.inr (.inr hmany))
  by_cases hadj : FourAdjacent inputs
  · have hsorts : ¬sorts sorter inputs = true := fun h => (sorts_iff.mp h).1 hadj
    rw [if_neg hsorts, offersBatch_iff]
    constructor
    · intro h
      exact .inr (.inl (h hmany).2)
    · rintro (hnone | hlong | hfew) -
      · exact absurd hadj hnone
      · exact ⟨hmany.1, hlong⟩
      · exact absurd hmany hfew
  · have hfour : ∃ len, 4 ≤ (lengths inputs).count len := by
      obtain ⟨len, ⟨-, h⟩ | ⟨-, h⟩⟩ := hmany.2
      · exact ⟨len, h⟩
      · exact ⟨len, by omega⟩
    have hsorts : sorts sorter inputs = true := sorts_iff.mpr ⟨hadj, hfour⟩
    rw [if_pos hsorts, offersBatch_sortedInputs]
    exact iff_of_true (fun h => h) (.inl hadj)

/-- Four messages of 64 bytes, none adjacent to its like, are missed behind four adjacent messages
of one byte. -/
theorem grouping_misses_long :
    OffersBatch (Platform.lanes optBuild)
        (lengths (sortedInputs .merge ([1, 1, 1, 1, 64, 2, 64, 2, 64, 2, 64].map (List.replicate · 0)))) ∧
      ¬∃ l, hashManyGrouped optBuild .merge
          ([1, 1, 1, 1, 64, 2, 64, 2, 64, 2, 64].map (List.replicate · 0))
          ⟨List.replicate 11 emptyDigest, []⟩ = .ok () l ∧
        EntersKernel optBuild l.calls := by
  constructor
  · exact offersBatch_sortedInputs.mpr ⟨by decide, 64, .inl ⟨le_refl 64, by decide⟩⟩
  · have hadj : FourAdjacent ([1, 1, 1, 1, 64, 2, 64, 2, 64, 2, 64].map (List.replicate · 0)) :=
      hasSimdSizedAdjacentRun_iff.mp (by decide)
    have hsorts : ¬sorts .merge
        ([1, 1, 1, 1, 64, 2, 64, 2, 64, 2, 64].map (List.replicate · 0)) = true :=
      fun h => (sorts_iff.mp h).1 hadj
    have hlen : ([1, 1, 1, 1, 64, 2, 64, 2, 64, 2, 64].map (List.replicate · (0 : U8))).length ≤
        (List.replicate 11 emptyDigest).length := by decide
    obtain ⟨l, hrun, hcalls⟩ := hashManyGrouped_calls optBuild .merge hlen
    rw [exists_ok_iff (P := fun l => EntersKernel optBuild l.calls) hrun, hcalls, if_neg hsorts,
      offersBatch_iff]
    rintro ⟨-, len, hlong⟩
    have hfour : 32 ≤ len ∧ HasRun 4 len [1, 1, 1, 1, 64, 2, 64, 2, 64, 2, 64] := by
      rcases hlong with ⟨hlen, hrun⟩ | ⟨hlen, hrun⟩
      · exact ⟨by omega, hrun⟩
      · exact ⟨hlen, hrun.mono (by decide)⟩
    have hmem : len ∈ [1, 1, 1, 1, 64, 2, 64, 2, 64, 2, 64] :=
      hfour.2.subset (List.mem_replicate.mpr ⟨by decide, rfl⟩)
    obtain rfl : len = 64 := by
      simp at hmem
      omega
    have hnone : ¬List.replicate 4 64 <:+: [1, 1, 1, 1, 64, 2, 64, 2, 64, 2, 64] := by decide
    exact hnone hfour.2

/-- The same messages of 64 bytes are found when none of the short ones are adjacent. -/
theorem grouping_finds_kernel_blocks :
    ∃ l, hashManyGrouped optBuild .merge ([64, 1, 64, 1, 64, 1, 64].map (List.replicate · 0))
        ⟨List.replicate 7 emptyDigest, []⟩ = .ok () l ∧
      EntersKernel optBuild l.calls := by
  have h := (grouping_finds_kernel optBuild .merge
    ([64, 1, 64, 1, 64, 1, 64].map (List.replicate · 0)) (List.replicate 7 emptyDigest)
    (by decide)).mpr (.inl not_fourAdjacent_blocks)
  exact h (offersBatch_sortedInputs.mpr ⟨by decide, manyLong_blocks⟩)

end Md5Simd
