import Md5Simd.Simd.Dispatch
import Md5Simd.Lib.Runs

/-!
# When a dispatch enters a kernel

The scheduler reads nothing of the messages but their lengths. A dispatch makes a
batch call exactly when some run of equal lengths is one `pick_batch` batches
(`dispatch_calls`), and that is a matter of how often a length of at least 64, or
of at least 32, stands in a row (`offersBatch_iff`).
-/

namespace Md5Simd

open Lib Dispatch

def lengths (inputs : List Bytes) : List Nat := inputs.map List.length

/-- `pick_batch` batches some run of equal lengths. -/
def OffersBatch (max : Nat) (lens : List Nat) : Prop :=
  ∃ len k, HasRun k len lens ∧ pickBatch k max len ≠ 0

/-- Some call is one of a batch kernel. -/
def EntersKernel (b : Build) (calls : List Call) : Prop :=
  ∃ lo n W, .batch lo n ∈ calls ∧ Platform.kernel b n = some W

/-! ## The policy -/

theorem pickBatch_ne_zero_iff {left max msgLen : Nat} :
    pickBatch left max msgLen ≠ 0 ↔
      4 ≤ max ∧ ((4 ≤ left ∧ 64 ≤ msgLen) ∨ (8 ≤ left ∧ 32 ≤ msgLen)) := by
  unfold pickBatch MAX_GROUPS
  split
  · omega
  · split <;> omega

theorem pickBatch_mono {left left' max msgLen : Nat} (h : left ≤ left')
    (hne : pickBatch left max msgLen ≠ 0) : pickBatch left' max msgLen ≠ 0 := by
  rw [pickBatch_ne_zero_iff] at hne ⊢
  omega

variable {b : Build} {inputs : List Bytes} {outputs : List Digest} {l l' : Ledger}
  {max len0 i run done : Nat} {lens : List Nat}

/-- Four messages of 64 bytes in a row, or eight of 32. -/
theorem offersBatch_iff :
    OffersBatch max lens ↔
      4 ≤ max ∧ ∃ len, (64 ≤ len ∧ HasRun 4 len lens) ∨ (32 ≤ len ∧ HasRun 8 len lens) := by
  constructor
  · rintro ⟨len, k, hrun, hne⟩
    obtain ⟨hmax, ⟨hk, hlen⟩ | ⟨hk, hlen⟩⟩ := pickBatch_ne_zero_iff.mp hne
    · exact ⟨hmax, len, .inl ⟨hlen, hrun.mono hk⟩⟩
    · exact ⟨hmax, len, .inr ⟨hlen, hrun.mono hk⟩⟩
  · rintro ⟨hmax, len, ⟨hlen, hrun⟩ | ⟨hlen, hrun⟩⟩
    · exact ⟨len, 4, hrun, pickBatch_ne_zero_iff.mpr ⟨hmax, .inl ⟨le_refl 4, hlen⟩⟩⟩
    · exact ⟨len, 8, hrun, pickBatch_ne_zero_iff.mpr ⟨hmax, .inr ⟨le_refl 8, hlen⟩⟩⟩

theorem offersBatch_append (hlens : lens.head? ≠ some len0) :
    OffersBatch max (List.replicate run len0 ++ lens) ↔
      pickBatch run max len0 ≠ 0 ∨ OffersBatch max lens := by
  constructor
  · rintro ⟨len, k, hrun, hne⟩
    have hk : 1 ≤ k := by
      have := pickBatch_ne_zero_iff.mp hne
      omega
    rcases (hasRun_append hk hlens).mp hrun with ⟨rfl, hle⟩ | hrun
    · exact .inl (pickBatch_mono hle hne)
    · exact .inr ⟨len, k, hrun, hne⟩
  · rintro (hne | ⟨len, k, hrun, hne⟩)
    · exact ⟨len0, run, hasRun_front run len0 lens, hne⟩
    · exact ⟨len, k, hrun.behind _, hne⟩

/-! ## The calls of a run -/

theorem hashAt_calls (h : Ledger.hashAt b inputs i l = .ok () l') :
    l'.calls = l.calls ++ [.scalar i] := by
  unfold Ledger.hashAt at h
  obtain ⟨input, m, hin, hrest⟩ := bind_eq_ok h
  obtain ⟨-, rfl⟩ := liftE_eq_ok hin
  obtain ⟨⟨⟩, m', hrecord, hstore⟩ := bind_eq_ok hrest
  obtain ⟨outs, -, rfl⟩ := zoom_eq_ok hstore
  cases hrecord
  rfl

theorem batchAt_calls {lo n : Nat} (h : Ledger.batchAt b inputs lo n l = .ok () l') :
    l'.calls = l.calls ++ [.batch lo n] := by
  unfold Ledger.batchAt at h
  obtain ⟨⟨⟩, m, hrecord, hrest⟩ := bind_eq_ok h
  obtain ⟨batch, m', hin, hbatch⟩ := bind_eq_ok hrest
  obtain ⟨-, rfl⟩ := liftE_eq_ok hin
  obtain ⟨outs, -, rfl⟩ := zoom_eq_ok hbatch
  cases hrecord
  rfl

/-- A run makes a batch call exactly when it is batched as it stands at its start. -/
theorem runLoop_calls (done : Nat) (l : Ledger)
    (h : runLoop b inputs max len0 i run done l = .ok () l') :
    ∃ cs, l'.calls = l.calls ++ cs ∧
      ((∃ lo n, .batch lo n ∈ cs) ↔ pickBatch (run - done) max len0 ≠ 0) := by
  unfold runLoop at h
  split at h
  · rename_i hlt
    dsimp only at h
    split at h
    · rename_i hzero
      obtain ⟨⟨⟩, m, hhash, h⟩ := bind_eq_ok h
      obtain ⟨cs, hcs, hiff⟩ := runLoop_calls (done + 1) m h
      refine ⟨.scalar (i + done) :: cs, by rw [hcs, hashAt_calls hhash, List.append_assoc]; rfl, ?_⟩
      -- what is left of a run that is not batched is not batched either
      have hrest : ¬pickBatch (run - (done + 1)) max len0 ≠ 0 := fun hne =>
        pickBatch_mono (by omega) hne hzero
      simpa [hzero, hrest] using hiff
    · rename_i hne
      obtain ⟨⟨⟩, m, hbatch, h⟩ := bind_eq_ok h
      obtain ⟨cs, hcs, -⟩ := runLoop_calls _ m h
      refine ⟨_ :: cs, by rw [hcs, batchAt_calls hbatch, List.append_assoc]; rfl, ?_⟩
      exact iff_of_true ⟨_, _, List.mem_cons_self⟩ hne
  · cases h
    refine ⟨[], (List.append_nil _).symm, ?_⟩
    have hdone : run - done = 0 := by omega
    rw [hdone, pickBatch_ne_zero_iff]
    simp
termination_by run - done
decreasing_by all_goals omega

/-! ## The calls of a dispatch -/

theorem runLength_stops (i len0 run : Nat) :
    ((lengths inputs).drop (i + runLength inputs i len0 run)).head? ≠ some len0 := by
  rw [List.head?_drop, lengths, List.getElem?_map]
  unfold runLength
  split
  · rename_i h
    split
    · have := runLength_stops i len0 (run + 1)
      rwa [List.head?_drop, lengths, List.getElem?_map] at this
    · rename_i hlen
      rw [List.getElem?_eq_getElem h]
      exact fun heq => hlen (Option.some.inj heq)
  · rename_i h
    rw [List.getElem?_eq_none (by omega)]
    exact nofun
termination_by inputs.length - (i + run)

theorem drop_lengths (h : i < inputs.length) :
    (lengths inputs).drop i =
      List.replicate (runLength inputs i inputs[i].length 1) inputs[i].length ++
        (lengths inputs).drop (i + runLength inputs i inputs[i].length 1) := by
  obtain ⟨hin, hsame⟩ := runLength_head h
  generalize runLength inputs i inputs[i].length 1 = run at hin hsame
  have hrun : ((lengths inputs).drop i).take run = List.replicate run inputs[i].length := by
    rw [List.eq_replicate_iff]
    refine ⟨by simp [lengths]; omega, fun len hlen => ?_⟩
    rw [lengths, ← List.map_drop, ← List.map_take, List.mem_map] at hlen
    obtain ⟨s, hs, rfl⟩ := hlen
    exact hsame s hs
  rw [← hrun, ← List.drop_drop, List.take_append_drop]

theorem runs_calls (i : Nat) (l : Ledger) (h : runs b inputs max i l = .ok () l') :
    ∃ cs, l'.calls = l.calls ++ cs ∧
      ((∃ lo n, .batch lo n ∈ cs) ↔ OffersBatch max ((lengths inputs).drop i)) := by
  unfold runs at h
  split at h
  · rename_i hlt
    obtain ⟨⟨⟩, m, hrun, h⟩ := bind_eq_ok h
    obtain ⟨cs, hcs, hiff⟩ := runLoop_calls 0 l hrun
    obtain ⟨cs', hcs', hiff'⟩ := runs_calls _ m h
    refine ⟨cs ++ cs', by rw [hcs', hcs, List.append_assoc], ?_⟩
    rw [drop_lengths hlt, offersBatch_append (runLength_stops i _ 1), ← hiff']
    rw [Nat.sub_zero] at hiff
    rw [← hiff]
    simp only [List.mem_append, exists_or]
  · cases h
    refine ⟨[], (List.append_nil _).symm, ?_⟩
    rw [List.drop_of_length_le (by simp [lengths]; omega), offersBatch_iff]
    simp [HasRun]
termination_by inputs.length - i
decreasing_by
  have := le_runLength inputs i inputs[i].length 1
  omega

/-- **A dispatch enters a kernel exactly when its lengths offer a batch**, on every platform. -/
theorem dispatch_calls (b : Build) (hlen : inputs.length ≤ outputs.length) :
    ∃ l, hashManyDispatch b inputs ⟨outputs, []⟩ = .ok () l ∧ l.outputs.length = outputs.length ∧
      (EntersKernel b l.calls ↔ OffersBatch (Platform.lanes b) (lengths inputs)) := by
  obtain ⟨l, hrun, hl⟩ := hashManyDispatch_run (b := b) hlen
  refine ⟨l, hrun, hl.slots, ?_⟩
  -- every batch has a kernel
  have hbatch : EntersKernel b l.calls ↔ ∃ lo n, .batch lo n ∈ l.calls := by
    constructor
    · rintro ⟨lo, n, -, hmem, -⟩
      exact ⟨lo, n, hmem⟩
    · rintro ⟨lo, n, hmem⟩
      obtain ⟨W, hW, -⟩ := (hl.batches lo n hmem).groups
      exact ⟨lo, n, W, hmem, hW⟩
  rw [hbatch]
  unfold hashManyDispatch at hrun
  rw [bind_ok (get_run _), if_neg (by simpa using hlen)] at hrun
  by_cases hmax : Platform.lanes b ≤ 1
  · rw [if_pos hmax] at hrun
    obtain ⟨l', hrun', hl'⟩ := Multibuf.hashManyDispatch_run (b := b) (fun _ _ => False) hlen
    rw [hrun] at hrun'
    cases hrun'
    rw [offersBatch_iff]
    refine iff_of_false (fun ⟨lo, n, hmem⟩ => hl'.batches lo n hmem) fun h => ?_
    omega
  · rw [if_neg hmax] at hrun
    obtain ⟨cs, hcs, hiff⟩ := runs_calls 0 _ hrun
    rw [hcs]
    exact hiff

end Md5Simd
