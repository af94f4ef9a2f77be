import Md5Simd.Backend
import Md5Simd.Lib.Fill

/-!
# The scalar pair path

`multibuf.rs`: two independent compressions interleaved step by step, the pair
hash over them, and the dispatcher that pairs equal-length neighbours.

`compressPair_eq` separates the lanes: the interleaved loop is two runs of
`stepDest`, so each lane is the production compressor of its own state and block.

A dispatcher works on a `Ledger`, the output slice with a ghost record of the
hashing calls made so far.
-/

namespace Md5Simd

open Lib

/-- Whether batches use the software pair path. -/
def pairPathActive (b : Build) : Bool := b.pairInterleave && !b.forcePortable && !b.opt

/-! ## Two lanes -/

def stepPair (m : Words × Words) (v : State × State) (step : Fin 64) : State × State :=
  (stepDest v.1 m.1 step, stepDest v.2 m.2 step)

/-- Interleave one block of two independent states. -/
def compressPair (state0 : State) (block0 : Block) (state1 : State) (block1 : Block) :
    State × State :=
  let m := (loadM block0, loadM block1)
  let init := (state0, state1)
  let v := steps.foldl (stepPair m) init
  (feedForward init.1 v.1, feedForward init.2 v.2)

theorem foldl_stepPair (m : Words × Words) (ks : List (Fin 64)) (s t : State) :
    ks.foldl (stepPair m) (s, t) =
      (ks.foldl (fun v k => stepDest v m.1 k) s, ks.foldl (fun v k => stepDest v m.2 k) t) := by
  induction ks generalizing s t with
  | nil => rfl
  | cons k ks ih => exact ih _ _

theorem foldl_stepDest (m : Words) (s : State) :
    steps.foldl (fun v k => stepDest v m k) s = run prodMix m s := by
  rw [run]
  congr 1
  funext v k
  exact stepDest_eq_ringStep v m k

/-- **Each lane is the production compressor of its own state and block.** -/
theorem compressPair_eq (s0 : State) (b0 : Block) (s1 : State) (b1 : Block) :
    compressPair s0 b0 s1 b1 = (compress s0 b0, compress s1 b1) := by
  rw [compress_eq_run, compress_eq_run, ← foldl_stepDest, ← foldl_stepDest]
  simp only [compressPair, foldl_stepPair]

/-- **The three compressors are one function**, and in the interleaved one no lane depends on the
other. -/
theorem compressors_agree (s : State) (blk : Block) :
    compress s blk = compressTextbook s blk ∧
      (∀ t c, (compressPair s blk t c).1 = compress s blk) ∧
      (∀ t c, (compressPair t c s blk).2 = compress s blk) ∧
      (∀ t c t' c', (compressPair s blk t c).1 = (compressPair s blk t' c').1 ∧
        (compressPair t c s blk).2 = (compressPair t' c' s blk).2) := by
  refine ⟨compress_eq_textbook s blk, fun t c => ?_, fun t c => ?_, fun t c t' c' => ⟨?_, ?_⟩⟩
  · rw [compressPair_eq]
  · rw [compressPair_eq]
  · rw [compressPair_eq, compressPair_eq]
  · rw [compressPair_eq, compressPair_eq]

/-! ## The pair hash -/

variable (b : Build)

def compressPairs (s0 s1 : State) (blocks : List (Block × Block)) : State × State :=
  blocks.foldl (fun s blk => compressPair s.1 blk.1 s.2 blk.2) (s0, s1)

/-- Hash two messages; an equal-length pair is interleaved when the pair path is active. -/
def hashPair (x y : Bytes) : Except Fault (Digest × Digest) := do
  if !pairPathActive b || x.length != y.length then
    return (hash b x, hash b y)
  else
    let s := compressPairs iv iv ((blocks 64 x).zip (blocks 64 y))
    let f0 := buildFinalBlocks (lenU64 x) (tail 64 x) zeroBlocks
    let f1 := buildFinalBlocks (lenU64 y) (tail 64 y) zeroBlocks
    debugAssert b.debugAssertions (f0.1 = f1.1) (assertEqText f0.1 f1.1 none)
    -- `for i in 0..u0` over both arrays
    let s := compressPairs s.1 s.2 ((f0.2.toList.take f0.1).zip (f1.2.toList.take f0.1))
    return (stateToBytes s.1, stateToBytes s.2)

/-! ## The dispatcher -/

/-- A hashing call of a dispatcher. -/
inductive Call where
  /-- `backend::hash` of input `i`. -/
  | scalar (i : Nat)
  /-- `hash_pair` of inputs `i` and `i + 1`. -/
  | pair (i : Nat)
  /-- `hash_equal_n` of the `n` inputs from `lo` on. -/
  | batch (lo n : Nat)
  deriving DecidableEq, Repr

def Call.start : Call → Nat
  | .scalar i => i
  | .pair i => i
  | .batch lo _ => lo

def Call.size : Call → Nat
  | .scalar _ => 1
  | .pair _ => 2
  | .batch _ n => n

/-- The calls take the inputs from `lo` to `hi` in order, without gap or overlap. -/
def Tiles : Nat → Nat → List Call → Prop
  | lo, hi, [] => lo = hi
  | lo, hi, c :: cs => c.start = lo ∧ Tiles (lo + c.size) hi cs

theorem Tiles.append {lo mid hi : Nat} {cs cs' : List Call} (h : Tiles lo mid cs)
    (h' : Tiles mid hi cs') : Tiles lo hi (cs ++ cs') := by
  induction cs generalizing lo with
  | nil =>
    subst h
    exact h'
  | cons c cs ih => exact ⟨h.1, ih h.2⟩

theorem Tiles.le {lo hi : Nat} {cs : List Call} (h : Tiles lo hi cs) : lo ≤ hi := by
  induction cs generalizing lo with
  | nil => exact Nat.le_of_eq h
  | cons c cs ih => exact Nat.le_trans (Nat.le_add_right lo c.size) (ih h.2)

theorem Tiles.within {lo hi : Nat} {cs : List Call} {c : Call} (h : Tiles lo hi cs)
    (hc : c ∈ cs) : lo ≤ c.start ∧ c.start + c.size ≤ hi := by
  induction cs generalizing lo with
  | nil => exact absurd hc List.not_mem_nil
  | cons d cs ih =>
    obtain ⟨rfl, hrest⟩ := h
    rcases List.mem_cons.mp hc with rfl | hc
    · exact ⟨Nat.le_refl _, hrest.le⟩
    · have := ih hrest hc
      omega

/-- The output slice and the calls made so far. The calls are ghost: nothing reads them. -/
structure Ledger where
  outputs : List Digest
  calls : List Call
  deriving DecidableEq

namespace Ledger

def onOutputs {α : Type} (m : EStateM Fault (List Digest) α) : EStateM Fault Ledger α :=
  zoom Ledger.outputs (fun l o => { l with outputs := o }) m

def record (c : Call) : EStateM Fault Ledger Unit := modify fun l => { l with calls := l.calls ++ [c] }

def tooShort (outputs inputs : Nat) : Fault :=
  .panic ("outputs.len() (" ++ toString outputs ++ ") < inputs.len() (" ++ toString inputs ++ ")")

/-- `outputs[i] = backend::hash(inputs[i])`. -/
def hashAt (inputs : List Bytes) (i : Nat) : EStateM Fault Ledger Unit := do
  let input ← liftE (index inputs i)
  record (.scalar i)
  onOutputs (store i (hash b input))

/-- `(outputs[i], outputs[i + 1]) = hash_pair(x, y)`. -/
def pairAt (i : Nat) (x y : Bytes) : EStateM Fault Ledger Unit := do
  record (.pair i)
  let d ← liftE (hashPair b x y)
  onOutputs (store i d.1)
  onOutputs (store (i + 1) d.2)

end Ledger

open Ledger

namespace Multibuf

def pairLoop (inputs : List Bytes) (i : Nat) : EStateM Fault Ledger Unit := do
  if i + 1 < inputs.length then
    let x ← liftE (index inputs i)
    let y ← liftE (index inputs (i + 1))
    if x.length = y.length ∧ 64 ≤ x.length then
      pairAt b i x y
      pairLoop inputs (i + 2)
    else
      hashAt b inputs i
      pairLoop inputs (i + 1)
  else if i < inputs.length then
    hashAt b inputs i
termination_by inputs.length - i

/-- Hash many independent messages, pairing equal-length neighbours when the path is active. -/
def hashManyDispatch (inputs : List Bytes) : EStateM Fault Ledger Unit := do
  let l ← get
  if l.outputs.length < inputs.length then
    throw (tooShort l.outputs.length inputs.length)
  else if !pairPathActive b then
    forM (List.range inputs.length) (hashAt b inputs)
  else
    pairLoop b inputs 0

end Multibuf

/-! ## The pair hash is two hashes -/

variable {b : Build}

theorem compressPairs_eq {xs ys : List Block} (h : xs.length = ys.length) (s0 s1 : State) :
    compressPairs s0 s1 (xs.zip ys) = (xs.foldl compress s0, ys.foldl compress s1) := by
  induction xs generalizing ys s0 s1 with
  | nil => rw [List.eq_nil_of_length_eq_zero h.symm]; rfl
  | cons x xs ih =>
    rcases ys with _ | ⟨y, ys⟩
    · cases h
    · rw [List.zip_cons_cons, compressPairs, List.foldl_cons, compressPair_eq]
      exact ih (by simpa using h) _ _

theorem optKernelOk_of_pair (hp : pairPathActive b = true) : b.OptKernelOk := by
  intro h
  simp only [pairPathActive, hasOptKernel, Bool.and_eq_true, Bool.not_eq_true'] at hp h
  rw [hp.2] at h
  exact absurd h.1.1 (by decide)

theorem hash_of_pair (hp : pairPathActive b = true) (input : Bytes) :
    hash b input = hashWith input compress := by
  rw [hash_eq_textbook (optKernelOk_of_pair hp), hashWith_congr compress_eq_textbook]

/-- **The pair hash is two one-shot hashes**, whether the pair path is active or not. -/
theorem hashPair_run (b : Build) (x y : Bytes) : hashPair b x y = .ok (hash b x, hash b y) := by
  unfold hashPair
  split
  · rfl
  · rename_i h
    simp only [Bool.or_eq_true, Bool.not_eq_true', bne_iff_ne, ne_eq, not_or, not_not,
      Bool.not_eq_false] at h
    obtain ⟨hp, hlen⟩ := h
    have hblocks : (blocks 64 x).length = (blocks 64 y).length := by
      rw [length_blocks, length_blocks, hlen]
    have hused : (buildFinalBlocks (lenU64 x) (tail 64 x) zeroBlocks).1 =
        (buildFinalBlocks (lenU64 y) (tail 64 y) zeroBlocks).1 := by
      rw [fst_buildFinalBlocks, fst_buildFinalBlocks, length_tail, length_tail, hlen]
    have hfinal : (finalBlocks (lenU64 x) (tail 64 x)).length =
        (finalBlocks (lenU64 y) (tail 64 y)).length := by
      rw [length_finalBlocks, length_finalBlocks, length_tail, length_tail, hlen]
    have hx : hash b x = stateToBytes ((finalBlocks (lenU64 x) (tail 64 x)).foldl compress
        ((blocks 64 x).foldl compress iv)) := by
      rw [hash_of_pair hp, hashWith_eq, padded, List.foldl_append]; rfl
    have hy : hash b y = stateToBytes ((finalBlocks (lenU64 y) (tail 64 y)).foldl compress
        ((blocks 64 y).foldl compress iv)) := by
      rw [hash_of_pair hp, hashWith_eq, padded, List.foldl_append]; rfl
    rw [hx, hy, Except.bind_ok (debugAssert_ok hused), compressPairs_eq hblocks]
    dsimp only
    -- the first `u0` blocks of both arrays are their final blocks
    have hfx : (buildFinalBlocks (lenU64 x) (tail 64 x) zeroBlocks).2.toList.take
        (buildFinalBlocks (lenU64 x) (tail 64 x) zeroBlocks).1 =
        finalBlocks (lenU64 x) (tail 64 x) := rfl
    have hfy : (buildFinalBlocks (lenU64 y) (tail 64 y) zeroBlocks).2.toList.take
        (buildFinalBlocks (lenU64 x) (tail 64 x) zeroBlocks).1 =
        finalBlocks (lenU64 y) (tail 64 y) := by rw [hused]; rfl
    rw [hfx, hfy, compressPairs_eq hfinal]
    rfl

/-! ## The dispatcher fills the slice -/

/-- **The loop invariant of a dispatcher**: the first `k` inputs have their digests, the calls made
take these inputs in order, and every batch among them satisfies `ok`. Only the digests rest on the
vendored kernel. -/
structure Filled (b : Build) (ok : Nat → Nat → Prop) (inputs : List Bytes) (outputs : List Digest)
    (k : Nat) (l : Ledger) : Prop where
  digests : b.OptKernelOk → l.outputs = fill (hash b) inputs outputs k
  slots : l.outputs.length = outputs.length
  tiles : Tiles 0 k l.calls
  batches : ∀ lo n, .batch lo n ∈ l.calls → ok lo n

variable {ok : Nat → Nat → Prop} {inputs : List Bytes} {outputs : List Digest} {k : Nat} {l : Ledger}

theorem filled_zero : Filled b ok inputs outputs 0 ⟨outputs, []⟩ :=
  ⟨fun _ => rfl, rfl, rfl, fun _ _ h => by cases h⟩

theorem Filled.call (hl : Filled b ok inputs outputs k l) {c : Call} (hc : c.start = k)
    (hok : ∀ lo n, c = .batch lo n → ok lo n) {outs : List Digest}
    (hslots : outs.length = l.outputs.length)
    (houts : b.OptKernelOk → outs = fill (hash b) inputs outputs (k + c.size)) :
    Filled b ok inputs outputs (k + c.size) ⟨outs, l.calls ++ [c]⟩ := by
  refine ⟨houts, hslots.trans hl.slots, hl.tiles.append ⟨hc, rfl⟩, fun lo n hmem => ?_⟩
  rcases List.mem_append.mp hmem with hmem | hmem
  · exact hl.batches lo n hmem
  · exact hok lo n (List.mem_singleton.mp hmem).symm

theorem hashAt_run (hlen : inputs.length ≤ outputs.length) (hk : k < inputs.length)
    (hl : Filled b ok inputs outputs k l) :
    ∃ l', Ledger.hashAt b inputs k l = .ok () l' ∧ Filled b ok inputs outputs (k + 1) l' := by
  have hslot : k < l.outputs.length := by rw [hl.slots]; omega
  unfold Ledger.hashAt
  rw [index_ok hk, bind_ok (liftE_ok _ l), Ledger.record, bind_ok (modify_run _ l)]
  refine ⟨_, zoom_ok (store_ok hslot), hl.call (c := .scalar k) rfl (fun lo n h => by cases h)
    List.length_set fun hkernel => ?_⟩
  rw [hl.digests hkernel]
  exact slot_fill hk hlen

theorem pairAt_run (hlen : inputs.length ≤ outputs.length) (hk : k + 1 < inputs.length)
    (hl : Filled b ok inputs outputs k l) :
    ∃ l', Ledger.pairAt b k inputs[k] inputs[k + 1] l = .ok () l' ∧
      Filled b ok inputs outputs (k + 2) l' := by
  have hslot0 : k < l.outputs.length := by rw [hl.slots]; omega
  have hslot1 : k + 1 < (l.outputs.set k (hash b inputs[k])).length := by
    rw [List.length_set, hl.slots]; omega
  have hrun0 : Ledger.onOutputs (store k (hash b inputs[k])) ⟨l.outputs, l.calls ++ [.pair k]⟩ = _ :=
    zoom_ok (store_ok hslot0)
  unfold Ledger.pairAt
  rw [Ledger.record, bind_ok (modify_run _ l), hashPair_run, bind_ok (liftE_ok _ _)]
  refine ⟨_, (bind_ok hrun0).trans (zoom_ok (store_ok hslot1)), hl.call (c := .pair k) rfl
    (fun lo n h => by cases h) (by rw [List.length_set, List.length_set]) fun hkernel => ?_⟩
  rw [hl.digests hkernel, slot_fill (show k < inputs.length by omega) hlen]
  exact slot_fill hk hlen

theorem pairLoop_run (hlen : inputs.length ≤ outputs.length) (k : Nat) (l : Ledger)
    (hk : k ≤ inputs.length) (hl : Filled b ok inputs outputs k l) :
    ∃ l', Multibuf.pairLoop b inputs k l = .ok () l' ∧
      Filled b ok inputs outputs inputs.length l' := by
  unfold Multibuf.pairLoop
  split
  · rename_i hk1
    rw [index_ok (show k < inputs.length by omega), bind_ok (liftE_ok _ l), index_ok hk1,
      bind_ok (liftE_ok _ l)]
    split
    · obtain ⟨m, hrun, hm⟩ := pairAt_run hlen hk1 hl
      rw [bind_ok hrun]
      exact pairLoop_run hlen (k + 2) m (by omega) hm
    · obtain ⟨m, hrun, hm⟩ := hashAt_run hlen (by omega) hl
      rw [bind_ok hrun]
      exact pairLoop_run hlen (k + 1) m (by omega) hm
  · split
    · rename_i hlt
      have hlast : k + 1 = inputs.length := by omega
      rw [← hlast]
      exact hashAt_run hlen hlt hl
    · obtain rfl : k = inputs.length := by omega
      exact ⟨l, rfl, hl⟩
termination_by inputs.length - k

/-- **The dispatcher fills the slice**, on the pair path and off it. -/
theorem Multibuf.hashManyDispatch_run (ok : Nat → Nat → Prop) (hlen : inputs.length ≤ outputs.length) :
    ∃ l', Multibuf.hashManyDispatch b inputs ⟨outputs, []⟩ = .ok () l' ∧
      Filled b ok inputs outputs inputs.length l' := by
  unfold Multibuf.hashManyDispatch
  rw [bind_ok (get_run _), if_neg (by simpa using hlen)]
  split
  · exact forM_range (fun k l => Filled b ok inputs outputs k l) inputs.length filled_zero
      fun i l hi hl => hashAt_run hlen hi hl
  · exact pairLoop_run hlen 0 _ (by omega) filled_zero

/-- **Batches on the pair path.** With the path active the dispatcher returns, every input has its
one-shot digest and the slots behind the inputs are unchanged; and the pair hash is two one-shot
hashes, path or no path. -/
theorem multibuf_hash_many (b : Build) :
    (∀ inputs outputs, pairPathActive b = true → inputs.length ≤ outputs.length →
      ∃ calls, Multibuf.hashManyDispatch b inputs ⟨outputs, []⟩ =
        .ok () ⟨inputs.map (hash b) ++ outputs.drop inputs.length, calls⟩) ∧
      ∀ x y, hashPair b x y = .ok (hash b x, hash b y) := by
  refine ⟨fun inputs outputs hp hlen => ?_, hashPair_run b⟩
  obtain ⟨l, hrun, hl⟩ := Multibuf.hashManyDispatch_run (fun _ _ => True) hlen
  refine ⟨l.calls, hrun.trans ?_⟩
  rw [← fill_all, ← hl.digests (optKernelOk_of_pair hp)]

/-- A build with the pair path on. -/
def pairBuild : Build := { optBuild with opt := false }

theorem multibuf_hash_many_pair :
    ∃ calls, Multibuf.hashManyDispatch pairBuild [List.replicate 64 1, List.replicate 64 2, [3]]
        ⟨List.replicate 4 emptyDigest, []⟩ =
      .ok () ⟨[List.replicate 64 1, List.replicate 64 2, [3]].map (hash pairBuild) ++ [emptyDigest],
        calls⟩ :=
  (multibuf_hash_many pairBuild).1 [List.replicate 64 1, List.replicate 64 2, [3]]
    (List.replicate 4 emptyDigest) rfl (by decide)

end Md5Simd
