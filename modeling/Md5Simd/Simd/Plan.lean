import Md5Simd.Simd.Policy
import Md5Simd.Lib.Runs

/-!
# The calls of a dispatch

`hash_many_dispatch` looks at nothing but the lengths, and at every run of equal
lengths on its own: on batch SIMD it takes full batches and then what is left, on
the pair path two messages at a time, and else one (`runCalls`). `dispatch_plan`
says that the calls it makes are those, run after run.
-/

namespace Md5Simd

open Lib Dispatch

/-! ## One run -/

/-- The messages `lo..lo + n` one by one. -/
def scalars (lo n : Nat) : List Call := (List.range' lo n).map .scalar

/-- A run on batch SIMD: full batches, then what is left in one batch or one by one. -/
def batched (max len lo n : Nat) : List Call :=
  let width := max * MAX_GROUPS
  let full := if pickBatch width max len = 0 then 0 else n / width
  let rest := n - full * width
  (List.range full).map (fun j => .batch (lo + j * width) width) ++
    if pickBatch rest max len = 0 then scalars (lo + full * width) rest
    else [.batch (lo + full * width) rest]

def paired (len lo n : Nat) : List Call :=
  if 64 ≤ len then
    (List.range (n / 2)).map (fun j => .pair (lo + j * 2)) ++ scalars (lo + n / 2 * 2) (n % 2)
  else
    scalars lo n

/-- The calls of a run of `n` messages of length `len`, of which `lo` is the first. -/
def runCalls (b : Build) (len lo n : Nat) : List Call :=
  if 1 < Platform.lanes b then batched (Platform.lanes b) len lo n
  else if pairPathActive b then paired len lo n
  else scalars lo n

/-- The calls of runs one behind the other, the first starting at `lo`. -/
def planRuns (b : Build) : Nat → List (List Nat) → List Call
  | _, [] => []
  | lo, run :: rest => runCalls b (run.headD 0) lo run.length ++ planRuns b (lo + run.length) rest

/-- The calls of a dispatch of messages of these lengths. -/
def plan (b : Build) (lens : List Nat) : List Call := planRuns b 0 (groups lens)

theorem planRuns_cons (b : Build) {lo r len : Nat} (hr : 1 ≤ r) (runs : List (List Nat)) :
    planRuns b lo (List.replicate r len :: runs) =
      runCalls b len lo r ++ planRuns b (lo + r) runs := by
  have hhead : (List.replicate r len).headD 0 = len := by
    obtain ⟨k, rfl⟩ := Nat.exists_eq_add_of_le' hr
    rfl
  rw [planRuns, hhead, List.length_replicate]

theorem planRuns_append (b : Build) {lo r len : Nat} {lens : List Nat} (hr : 1 ≤ r)
    (hlens : lens.head? ≠ some len) :
    planRuns b lo (groups (List.replicate r len ++ lens)) =
      runCalls b len lo r ++ planRuns b (lo + r) (groups lens) := by
  rw [groups_append hr hlens, planRuns_cons b hr]

theorem scalars_succ (lo n : Nat) : scalars lo (n + 1) = .scalar lo :: scalars (lo + 1) n := by
  rw [scalars, List.range'_succ, List.map_cons, scalars]

theorem scalars_add (lo n n' : Nat) : scalars lo (n + n') = scalars lo n ++ scalars (lo + n) n' := by
  rw [scalars, ← List.range'_append_1, List.map_append, scalars, scalars]

section Batched

variable {max len lo n : Nat}

theorem pickBatch_zero (max len : Nat) : pickBatch 0 max len = 0 := if_pos (by omega)

/-- A run that is not batched as it stands is hashed one by one. -/
theorem batched_scalar (h : pickBatch n max len = 0) : batched max len lo n = scalars lo n := by
  have hfull : (if pickBatch (max * MAX_GROUPS) max len = 0 then 0
      else n / (max * MAX_GROUPS)) = 0 := by
    split
    · rfl
    · rename_i hwidth
      exact Nat.div_eq_of_lt (Nat.lt_of_not_le fun hle => pickBatch_mono hle hwidth h)
  simp only [batched, hfull, Nat.zero_mul, Nat.sub_zero, Nat.add_zero, List.range_zero,
    List.map_nil, List.nil_append, if_pos h]

theorem batched_zero : batched max len lo 0 = [] := batched_scalar (pickBatch_zero max len)

/-- Else a batch comes first. -/
theorem batched_batch (h : pickBatch n max len ≠ 0) :
    batched max len lo n = .batch lo (pickBatch n max len) ::
      batched max len (lo + pickBatch n max len) (n - pickBatch n max len) := by
  have hpick : pickBatch n max len = min n (max * MAX_GROUPS) := by
    unfold pickBatch at h ⊢
    split at h
    · exact absurd rfl h
    · split at h
      · exact absurd rfl h
      · rename_i h1 h2
        rw [if_neg h1, if_neg h2]
  have hwidth : pickBatch (max * MAX_GROUPS) max len ≠ 0 := by
    have := pickBatch_ne_zero_iff.mp h
    rw [pickBatch_ne_zero_iff, MAX_GROUPS]
    omega
  rw [hpick]
  simp only [batched, if_neg hwidth]
  generalize max * MAX_GROUPS = width at hpick hwidth ⊢
  rcases Nat.lt_or_ge n width with hlt | hge
  · -- everything is one batch
    rw [Nat.min_eq_left (Nat.le_of_lt hlt), Nat.div_eq_of_lt hlt, Nat.sub_self, Nat.zero_div,
      Nat.zero_mul, Nat.sub_zero, Nat.add_zero, if_neg h, if_pos (pickBatch_zero max len)]
    rfl
  · have hpos : 0 < width := by
      have := pickBatch_ne_zero_iff.mp hwidth
      omega
    have hrest : n - ((n - width) / width + 1) * width =
        n - width - (n - width) / width * width := by rw [Nat.succ_mul]; omega
    have hlo (j : Nat) : lo + (j + 1) * width = lo + width + j * width := by
      rw [Nat.succ_mul]; omega
    rw [Nat.min_eq_right hge, Nat.div_eq_sub_div hpos hge, List.range_succ_eq_map,
      List.map_cons, List.map_map, hrest, hlo]
    simp only [Function.comp_def, Nat.succ_eq_add_one, hlo, Nat.zero_mul, Nat.add_zero, List.cons_append]

end Batched

theorem paired_pair {len : Nat} (h : 64 ≤ len) (lo n : Nat) :
    paired len lo (n + 2) = .pair lo :: paired len (lo + 2) n := by
  have hlo (j : Nat) : lo + (j + 1) * 2 = lo + 2 + j * 2 := by omega
  rw [paired, if_pos h, show (n + 2) / 2 = n / 2 + 1 by omega, List.range_succ_eq_map,
    List.map_cons, List.map_map, Nat.add_mod_right, hlo, paired, if_pos h]
  simp only [Function.comp_def, Nat.succ_eq_add_one, hlo, Nat.zero_mul, Nat.add_zero, List.cons_append]

theorem paired_one (len lo : Nat) : paired len lo 1 = [.scalar lo] := by
  unfold paired
  split <;> rfl

/-! ## Where the calls are -/

theorem tiles_scalars (lo n : Nat) : Tiles lo (lo + n) (scalars lo n) := by
  induction n generalizing lo with
  | zero => exact rfl
  | succ n ih =>
    rw [scalars_succ, show lo + (n + 1) = lo + 1 + n by omega]
    exact ⟨rfl, ih (lo + 1)⟩

theorem tiles_batched (max len lo n : Nat) : Tiles lo (lo + n) (batched max len lo n) := by
  by_cases h : pickBatch n max len = 0
  · rw [batched_scalar h]
    exact tiles_scalars lo n
  · have hle := pickBatch_le n max len
    have hrest := tiles_batched max len (lo + pickBatch n max len) (n - pickBatch n max len)
    rw [show lo + pickBatch n max len + (n - pickBatch n max len) = lo + n by omega] at hrest
    rw [batched_batch h]
    exact ⟨rfl, hrest⟩
termination_by n
decreasing_by omega

theorem tiles_paired (len lo n : Nat) : Tiles lo (lo + n) (paired len lo n) := by
  by_cases hlen : 64 ≤ len
  swap
  · rw [paired, if_neg hlen]
    exact tiles_scalars lo n
  induction n using Nat.twoStepInduction generalizing lo with
  | zero =>
    rw [show paired len lo 0 = [] by simp [paired, scalars]]
    exact rfl
  | one =>
    rw [paired_one]
    exact ⟨rfl, rfl⟩
  | more n ih _ =>
    rw [paired_pair hlen, show lo + (n + 2) = lo + 2 + n by omega]
    exact ⟨rfl, ih (lo + 2)⟩

theorem tiles_runCalls (b : Build) (len lo n : Nat) : Tiles lo (lo + n) (runCalls b len lo n) := by
  unfold runCalls
  split
  · exact tiles_batched _ len lo n
  · split
    · exact tiles_paired len lo n
    · exact tiles_scalars lo n

theorem tiles_planRuns (b : Build) (runs : List (List Nat)) (lo : Nat) :
    Tiles lo (lo + runs.flatten.length) (planRuns b lo runs) := by
  induction runs generalizing lo with
  | nil => exact rfl
  | cons run runs ih =>
    rw [planRuns, List.flatten_cons, List.length_append, ← Nat.add_assoc]
    exact (tiles_runCalls b _ lo run.length).append (ih (lo + run.length))

theorem planRuns_runs (b : Build) (runs runs' : List (List Nat)) (lo : Nat) :
    planRuns b lo (runs ++ runs') =
      planRuns b lo runs ++ planRuns b (lo + runs.flatten.length) runs' := by
  induction runs generalizing lo with
  | nil => rfl
  | cons run runs ih =>
    rw [List.cons_append, planRuns, ih, planRuns, List.append_assoc, List.flatten_cons,
      List.length_append, Nat.add_assoc]

/-- **The calls of a run** stand between those before it and those behind it. -/
theorem plan_runAt (b : Build) {front back lens : List Nat} {n len : Nat}
    (h : RunAt front n len back lens) :
    ∃ before behind, plan b lens = before ++ (runCalls b len front.length n ++ behind) ∧
      Tiles 0 front.length before ∧ Tiles (front.length + n) lens.length behind := by
  have hflat (xs : List Nat) : (groups xs).flatten = xs := List.flatten_splitBy _ xs
  have hbefore := tiles_planRuns b (groups front) 0
  have hbehind := tiles_planRuns b (groups back) (front.length + n)
  rw [hflat, Nat.zero_add] at hbefore
  rw [hflat, show front.length + n + back.length = lens.length by
    rw [h.eq, List.length_append, List.length_append, List.length_replicate, Nat.add_assoc]]
    at hbehind
  refine ⟨_, _, ?_, hbefore, hbehind⟩
  rw [plan, h.groups_eq, planRuns_runs, hflat, Nat.zero_add, planRuns_cons b h.nonempty]

/-! ## The loops make these calls -/

variable {b : Build} {inputs : List Bytes} {outputs : List Digest} {l l' : Ledger}
  {max len0 i run done : Nat}

/-- **One run on batch SIMD.** -/
theorem runLoop_plan (done : Nat) (l : Ledger)
    (h : runLoop b inputs max len0 i run done l = .ok () l') :
    l'.calls = l.calls ++ batched max len0 (i + done) (run - done) := by
  unfold runLoop at h
  split at h
  · rename_i hlt
    dsimp only at h
    split at h
    · rename_i hzero
      obtain ⟨⟨⟩, m, hhash, h⟩ := bind_eq_ok h
      have hrest : pickBatch (run - (done + 1)) max len0 = 0 := by
        by_contra hne
        exact pickBatch_mono (by omega) hne hzero
      rw [runLoop_plan (done + 1) m h, hashAt_calls hhash, batched_scalar hzero,
        batched_scalar hrest, show run - done = run - (done + 1) + 1 by omega, scalars_succ,
        List.append_assoc]
      rfl
    · rename_i hne
      obtain ⟨⟨⟩, m, hbatch, h⟩ := bind_eq_ok h
      rw [runLoop_plan _ m h, batchAt_calls hbatch, batched_batch hne, List.append_assoc,
        Nat.add_assoc, Nat.sub_sub]
      rfl
  · cases h
    rw [show run - done = 0 by omega, batched_zero, List.append_nil]
termination_by run - done
decreasing_by all_goals omega

/-- **All runs on batch SIMD.** -/
theorem runs_plan (hb : 1 < Platform.lanes b) (i : Nat) (l : Ledger)
    (h : runs b inputs (Platform.lanes b) i l = .ok () l') :
    l'.calls = l.calls ++ planRuns b i (groups ((lengths inputs).drop i)) := by
  unfold runs at h
  split at h
  · rename_i hlt
    obtain ⟨⟨⟩, m, hrun, h⟩ := bind_eq_ok h
    have hpos := le_runLength inputs i inputs[i].length 1
    rw [runs_plan hb _ m h, runLoop_plan 0 l hrun, drop_lengths hlt,
      planRuns_append b hpos (runLength_stops i _ 1), runCalls, if_pos hb, List.append_assoc,
      Nat.sub_zero, Nat.add_zero]
  · cases h
    rw [List.drop_of_length_le (by simp [lengths]; omega)]
    exact (List.append_nil _).symm
termination_by inputs.length - i
decreasing_by
  have := le_runLength inputs i inputs[i].length 1
  omega

def pairCalls : Nat → List Nat → List Call
  | lo, x :: y :: lens =>
    if x = y ∧ 64 ≤ x then .pair lo :: pairCalls (lo + 2) lens
    else .scalar lo :: pairCalls (lo + 1) (y :: lens)
  | lo, [_] => [.scalar lo]
  | _, [] => []

theorem pairAt_calls {x y : Bytes} (h : Ledger.pairAt b i x y l = .ok () l') :
    l'.calls = l.calls ++ [.pair i] := by
  unfold Ledger.pairAt at h
  obtain ⟨⟨⟩, m, hrecord, hrest⟩ := bind_eq_ok h
  obtain ⟨d, m', hin, hstores⟩ := bind_eq_ok hrest
  obtain ⟨-, rfl⟩ := liftE_eq_ok hin
  obtain ⟨⟨⟩, m'', hfirst, hsecond⟩ := bind_eq_ok hstores
  obtain ⟨outs, -, rfl⟩ := zoom_eq_ok hfirst
  obtain ⟨outs', -, rfl⟩ := zoom_eq_ok hsecond
  cases hrecord
  rfl

theorem pairLoop_calls (i : Nat) (l : Ledger) (h : Multibuf.pairLoop b inputs i l = .ok () l') :
    l'.calls = l.calls ++ pairCalls i ((lengths inputs).drop i) := by
  unfold Multibuf.pairLoop at h
  split at h
  · rename_i hlt
    have hi : i < inputs.length := by omega
    rw [index_ok hi, liftE_ok_bind, index_ok hlt, liftE_ok_bind] at h
    have hdrop : (lengths inputs).drop i =
        inputs[i].length :: inputs[i + 1].length :: (lengths inputs).drop (i + 2) := by
      rw [List.drop_eq_getElem_cons (by simpa [lengths] using hi),
        List.drop_eq_getElem_cons (by simpa [lengths] using hlt)]
      simp [lengths]
    have hdrop' : (lengths inputs).drop (i + 1) =
        inputs[i + 1].length :: (lengths inputs).drop (i + 2) := by
      rw [List.drop_eq_getElem_cons (by simpa [lengths] using hlt)]
      simp [lengths]
    rw [hdrop, pairCalls]
    split at h
    · rename_i hpair
      obtain ⟨⟨⟩, m, hcall, h⟩ := bind_eq_ok h
      rw [if_pos hpair, pairLoop_calls (i + 2) m h, pairAt_calls hcall, List.append_assoc]
      rfl
    · rename_i hpair
      obtain ⟨⟨⟩, m, hcall, h⟩ := bind_eq_ok h
      rw [if_neg hpair, pairLoop_calls (i + 1) m h, hashAt_calls hcall, List.append_assoc, hdrop']
      rfl
  · split at h
    · rename_i hlast hlt
      have hdrop : (lengths inputs).drop i = [inputs[i].length] := by
        rw [List.drop_eq_getElem_cons (by simpa [lengths] using hlt),
          List.drop_of_length_le (by simp [lengths]; omega)]
        simp [lengths]
      rw [hdrop, hashAt_calls h]
      rfl
    · cases h
      rw [List.drop_of_length_le (by simp [lengths]; omega)]
      exact (List.append_nil _).symm
termination_by inputs.length - i

/-- A pair stays inside its run. -/
theorem pairCalls_run {len : Nat} {lens : List Nat} (hlens : lens.head? ≠ some len) (r lo : Nat) :
    pairCalls lo (List.replicate r len ++ lens) = paired len lo r ++ pairCalls (lo + r) lens := by
  induction r using Nat.twoStepInduction generalizing lo with
  | zero => simp [paired, scalars]
  | one =>
    rcases lens with _ | ⟨y, lens⟩
    · rw [paired_one]
      rfl
    · have hy : ¬(len = y ∧ 64 ≤ len) := fun h => hlens (congrArg some h.1.symm)
      rw [paired_one]
      exact if_neg hy
  | more r ih ih' =>
    rw [List.replicate_succ, List.replicate_succ, List.cons_append, List.cons_append, pairCalls]
    by_cases hlen : 64 ≤ len
    · rw [if_pos ⟨rfl, hlen⟩, ih, paired_pair hlen, show lo + (r + 2) = lo + 2 + r by omega]
      rfl
    · have hone : paired len (lo + 1) (r + 1) = scalars (lo + 1) (r + 1) := if_neg hlen
      have hall : paired len lo (r + 2) = scalars lo (r + 2) := if_neg hlen
      rw [if_neg fun h => hlen h.2, ← List.cons_append, ← List.replicate_succ, ih', hone, hall,
        scalars_succ lo, show lo + (r + 2) = lo + 1 + (r + 1) by omega]
      rfl

theorem planRuns_pair (hb : ¬1 < Platform.lanes b) (hp : pairPathActive b = true)
    (lens : List Nat) (lo : Nat) : planRuns b lo (groups lens) = pairCalls lo lens := by
  induction lens using run_induction generalizing lo with
  | hnil => rfl
  | hrun r len lens hr hlens ih =>
    rw [planRuns_append b hr hlens, runCalls, if_neg hb, if_pos hp, pairCalls_run hlens, ih]

theorem planRuns_scalar (hb : ¬1 < Platform.lanes b) (hp : ¬pairPathActive b = true)
    (lens : List Nat) (lo : Nat) : planRuns b lo (groups lens) = scalars lo lens.length := by
  induction lens using run_induction generalizing lo with
  | hnil => rfl
  | hrun r len lens hr hlens ih =>
    rw [planRuns_append b hr hlens, runCalls, if_neg hb, if_neg hp, ih, ← scalars_add,
      List.length_append, List.length_replicate]

theorem forM_hashAt_calls (is : List Nat) (l : Ledger)
    (h : (forM is (Ledger.hashAt b inputs) : EStateM Fault Ledger Unit) l = .ok () l') :
    l'.calls = l.calls ++ is.map .scalar := by
  induction is generalizing l with
  | nil =>
    cases h
    exact (List.append_nil _).symm
  | cons i is ih =>
    rw [List.forM_cons] at h
    obtain ⟨⟨⟩, m, hhash, hrest⟩ := bind_eq_ok h
    rw [ih m hrest, hashAt_calls hhash, List.append_assoc]
    rfl

/-- **The calls of a dispatch are a function of the build and the lengths**: a run of equal lengths
is batched, paired or hashed one by one by itself, whatever the messages hold, whatever the other
runs are and whatever is in the output slice. -/
theorem dispatch_plan (b : Build) (hlen : inputs.length ≤ outputs.length) :
    ∃ l, hashManyDispatch b inputs ⟨outputs, []⟩ = .ok () l ∧ l.outputs.length = outputs.length ∧
      l.calls = plan b (lengths inputs) := by
  obtain ⟨l, hrun, hl⟩ := hashManyDispatch_run (b := b) hlen
  refine ⟨l, hrun, hl.slots, ?_⟩
  unfold hashManyDispatch at hrun
  rw [bind_ok (get_run _), if_neg (by simpa using hlen)] at hrun
  by_cases hb : Platform.lanes b ≤ 1
  · have hb' : ¬1 < Platform.lanes b := Nat.not_lt.mpr hb
    rw [if_pos hb] at hrun
    unfold Multibuf.hashManyDispatch at hrun
    rw [bind_ok (get_run _), if_neg (by simpa using hlen)] at hrun
    by_cases hp : pairPathActive b = true
    · rw [if_neg (by simp [hp])] at hrun
      rw [pairLoop_calls 0 _ hrun, plan, planRuns_pair hb' hp]
      rfl
    · rw [if_pos (by simp [hp])] at hrun
      rw [forM_hashAt_calls _ _ hrun, plan, planRuns_scalar hb' hp, scalars,
        List.range_eq_range', lengths, List.length_map]
      rfl
  · rw [if_neg hb] at hrun
    exact runs_plan (Nat.lt_of_not_le hb) 0 _ hrun

end Md5Simd
