import Md5Simd.Hasher
import Md5Simd.Lib.Fill

/-!
# Several streams at once

`update_many` and `finalize_many` of `engine.rs`: a round appends one slice to
every lane state, a snapshot finalizes every lane into the output slice. A run is
any sequence of the two, a call that panics being caught and the run going on.

`Lanes` is the invariant of a run: lane `k` holds the bytes it was given. One
call keeps it (`call_run`), and every outcome of a run is what the rounds before
it say of each lane alone (`streams_isolated`).
-/

namespace Md5Simd

open Lib

namespace Engine

variable (b : Build)

/-- `assert_eq!(states.len(), inputs.len())` fails. -/
def lengthsDiffer (states inputs : Nat) : Fault := .panic (assertEqText states inputs none)

/-- Append one slice to every state. -/
def updateMany (inputs : List Bytes) : EStateM Fault (List Md5State) Unit := do
  let states ← get
  if states.length = inputs.length then
    -- `states.iter_mut().zip(inputs.iter())`, of one length here
    forM inputs.zipIdx fun e => onElem e.2 (Md5State.update b e.1)
  else
    throw (lengthsDiffer states.length inputs.length)

def fewOutputs (outputs states : Nat) : Fault :=
  .panic ("outputs.len() (" ++ toString outputs ++ ") < states.len() (" ++ toString states ++ ")")

/-- Finalize every state into the output slice; the states are only read. -/
def finalizeMany (states : List Md5State) : EStateM Fault (List Digest) Unit := do
  let outputs ← get
  if outputs.length < states.length then
    throw (fewOutputs outputs.length states.length)
  else
    forM states.zipIdx fun e => do
      let d ← liftE (Md5State.finalize b e.1)
      store e.2 d

/-! ## Runs -/

inductive StreamOp where
  | updateMany (inputs : List Bytes)
  | finalizeMany (outputs : List Digest)
  deriving DecidableEq

/-- How a call ended, and the output slice after it. -/
structure Outcome where
  result : Except Fault Unit
  outputs : List Digest

/-- One call on the states; a panic is caught by the caller. -/
def call (states : List Md5State) : StreamOp → List Md5State × Outcome
  | .updateMany inputs =>
    match updateMany b inputs states with
    | .ok _ states' => (states', ⟨.ok (), []⟩)
    | .error e states' => (states', ⟨.error e, []⟩)
  | .finalizeMany outputs =>
    match finalizeMany b states outputs with
    | .ok _ outputs' => (states, ⟨.ok (), outputs'⟩)
    | .error e outputs' => (states, ⟨.error e, outputs'⟩)

def callAll : List Md5State → List StreamOp → List Md5State × List Outcome
  | states, [] => (states, [])
  | states, op :: ops =>
    let now := call b states op
    let rest := callAll now.1 ops
    (rest.1, now.2 :: rest.2)

/-! ## What a run is for -/

/-- What a call gives lane `k` of `n`: nothing if it is a snapshot, or a round that panics. -/
def laneSlice (n k : Nat) : StreamOp → Bytes
  | .updateMany inputs => if n = inputs.length then inputs.getD k [] else []
  | .finalizeMany _ => []

def laneBytes (n : Nat) (ops : List StreamOp) (k : Nat) : Bytes := ops.flatMap (laneSlice n k)

/-- The outcome of a call on `n` lanes after the calls `before`. -/
def expected (n : Nat) (before : List StreamOp) : StreamOp → Outcome
  | .updateMany inputs =>
    ⟨if n = inputs.length then .ok () else .error (lengthsDiffer n inputs.length), []⟩
  | .finalizeMany outputs =>
    if outputs.length < n then ⟨.error (fewOutputs outputs.length n), outputs⟩
    else ⟨.ok (), (List.range n).map (fun k => hash b (laneBytes n before k)) ++ outputs.drop n⟩

end Engine

open Engine

/-! ## One call -/

/-- **The invariant**: each of the `n` states follows the message of its lane. -/
structure Lanes (b : Build) (n : Nat) (msg : Nat → Bytes) (states : List Md5State) : Prop where
  count : states.length = n
  lane : ∀ k (h : k < states.length), Absorbed b states[k].raw (msg k)

variable {b : Build} {n : Nat} {msg : Nat → Bytes} {states : List Md5State}

theorem updateMany_run (hs : Lanes b n msg states) {inputs : List Bytes} (hn : n = inputs.length) :
    ∃ states', updateMany b inputs states = .ok () states' ∧
      Lanes b n (fun k => msg k ++ inputs.getD k []) states' := by
  -- after `i` lanes the first `i` have their slices
  let msgAt (i k : Nat) : Bytes := if k < i then msg k ++ inputs.getD k [] else msg k
  have hstart : Lanes b n (msgAt 0) states :=
    ⟨hs.count, fun k h => by simpa only [msgAt, Nat.not_lt_zero, if_false] using hs.lane k h⟩
  obtain ⟨states', hrun, hend⟩ := forM_zipIdx
    (m := fun e : Bytes × Nat => onElem e.2 (Md5State.update b e.1))
    (fun i s => Lanes b n (msgAt i) s) inputs hstart fun i hi s hP => by
      have hlt : i < s.length := by rw [hP.count, hn]; exact hi
      have hlane := hP.lane i hlt
      simp only [msgAt, Nat.lt_irrefl, if_false] at hlane
      obtain ⟨r, hr, habs⟩ := absorbed_update hlane inputs[i]
      refine ⟨_, onElem_ok hlt (Md5State.onRaw_ok hr), by rw [List.length_set, hP.count], ?_⟩
      intro k hk
      rw [List.length_set] at hk
      rw [List.getElem_set]
      by_cases hik : i = k
      · subst hik
        rw [if_pos rfl]
        simpa only [msgAt, Nat.lt_succ_self, if_true, List.getD_eq_getElem _ _ hi] using habs
      · rw [if_neg hik]
        have hiff : k < i + 1 ↔ k < i := by omega
        simpa only [msgAt, hiff] using hP.lane k hk
  refine ⟨states', ?_, hend.count, ?_⟩
  · unfold updateMany
    rw [bind_ok (get_run _), if_pos (by rw [hs.count, hn])]
    exact hrun
  · intro k hk
    have hlt : k < inputs.length := by rw [← hn, ← hend.count]; exact hk
    simpa only [msgAt, if_pos hlt] using hend.lane k hk

theorem finalizeMany_run (hk : b.OptKernelOk) (hs : Lanes b n msg states) {outputs : List Digest}
    (hn : n ≤ outputs.length) :
    finalizeMany b states outputs =
      .ok () ((List.range n).map (fun k => hash b (msg k)) ++ outputs.drop n) := by
  have hcount : (List.range n).length = n := List.length_range
  obtain ⟨outs, hrun, rfl⟩ := forM_zipIdx
    (m := fun e : Md5State × Nat => do
      let d ← liftE (Md5State.finalize b e.1)
      store e.2 d)
    (fun i o => o = fill (fun k => hash b (msg k)) (List.range n) outputs i) states rfl
    fun i hi o ho => by
      have hlt : i < (List.range n).length := by rw [hcount, ← hs.count]; exact hi
      have hd : Md5State.finalize b states[i] = .ok (hash b (msg i)) :=
        absorbed_digest hk (hs.lane i hi)
      refine ⟨_, ?_, rfl⟩
      rw [ho, hd, bind_ok (liftE_ok _ _)]
      exact store_fill hlt (by rw [hcount]; exact hn) (by rw [List.getElem_range])
  have hfill : fill (fun k => hash b (msg k)) (List.range n) outputs (List.range n).length = _ :=
    fill_all
  rw [hcount] at hfill
  rw [hs.count, hfill, fill_zero] at hrun
  unfold finalizeMany
  rw [bind_ok (get_run _), if_neg (by rw [hs.count]; omega)]
  exact hrun

theorem updateMany_differ {inputs : List Bytes} (h : states.length ≠ inputs.length) :
    updateMany b inputs states =
      .error (lengthsDiffer states.length inputs.length) states := by
  unfold updateMany
  rw [bind_ok (get_run _), if_neg h]
  rfl

theorem finalizeMany_short {outputs : List Digest} (h : outputs.length < states.length) :
    finalizeMany b states outputs =
      .error (fewOutputs outputs.length states.length) outputs := by
  unfold finalizeMany
  rw [bind_ok (get_run _), if_pos h]
  rfl

/-- **One call** has the outcome the calls before it say, and keeps the lanes. -/
theorem call_run (hk : b.OptKernelOk) {before : List StreamOp}
    (hs : Lanes b n (laneBytes n before) states) (op : StreamOp) :
    (call b states op).2 = expected b n before op ∧
      Lanes b n (laneBytes n (before ++ [op])) (call b states op).1 := by
  have hbytes : ∀ k, laneBytes n (before ++ [op]) k = laneBytes n before k ++ laneSlice n k op := by
    intro k
    simp only [laneBytes, List.flatMap_append, List.flatMap_cons, List.flatMap_nil, List.append_nil]
  have hsame : (∀ k, laneSlice n k op = []) → Lanes b n (laneBytes n (before ++ [op])) states :=
    fun hnil => ⟨hs.count, fun k hk => by rw [hbytes, hnil, List.append_nil]; exact hs.lane k hk⟩
  cases op with
  | updateMany inputs =>
    by_cases hn : n = inputs.length
    · obtain ⟨states', hrun, hstates⟩ := updateMany_run hs hn
      simp only [call, hrun, expected, if_pos hn]
      refine ⟨trivial, hstates.count, ?_⟩
      intro k hk
      rw [hbytes, laneSlice, if_pos hn]
      exact hstates.lane k hk
    · have hdiffer : states.length ≠ inputs.length := by rw [hs.count]; exact hn
      have hrun := updateMany_differ (b := b) hdiffer
      simp only [call, hrun, expected, if_neg hn, hs.count]
      exact ⟨trivial, hsame fun k => if_neg hn⟩
  | finalizeMany outputs =>
    by_cases hn : outputs.length < n
    · have hshort : outputs.length < states.length := by rw [hs.count]; exact hn
      have hrun := finalizeMany_short (b := b) hshort
      simp only [call, hrun, expected, if_pos hn, hs.count]
      exact ⟨trivial, hsame fun _ => rfl⟩
    · simp only [call, finalizeMany_run hk hs (Nat.le_of_not_lt hn), expected, if_neg hn]
      exact ⟨trivial, hsame fun _ => rfl⟩

/-! ## Every run -/

theorem callAll_run (hk : b.OptKernelOk) (ops : List StreamOp) {before : List StreamOp}
    (hs : Lanes b n (laneBytes n before) states) :
    Lanes b n (laneBytes n (before ++ ops)) (callAll b states ops).1 ∧
      ∀ j (h : j < ops.length),
        (callAll b states ops).2[j]? = some (expected b n (before ++ ops.take j) ops[j]) := by
  induction ops generalizing states before with
  | nil =>
    rw [List.append_nil]
    exact ⟨hs, fun j h => absurd h (Nat.not_lt_zero j)⟩
  | cons op ops ih =>
    obtain ⟨hout, hnext⟩ := call_run hk hs op
    obtain ⟨hend, hrest⟩ := ih hnext
    rw [callAll]
    refine ⟨?_, ?_⟩
    · rwa [List.append_assoc] at hend
    · intro j h
      rcases j with _ | j
      · rw [List.getElem?_cons_zero, hout, List.take_zero, List.append_nil]
        rfl
      · rw [List.getElem?_cons_succ, hrest j (by simpa using h), List.append_assoc]
        rfl

theorem lanes_new (b : Build) (n : Nat) :
    Lanes b n (laneBytes n []) (List.replicate n Md5State.new) := by
  refine ⟨List.length_replicate, ?_⟩
  intro k h
  rw [List.getElem_replicate]
  exact absorbed_new

/-- **Streams are isolated.** In every run on `n` new states, snapshots and rounds in any order, the
outcome of each call is that of the calls before it, lane by lane: slot `k` of a snapshot is the
digest of the `k`-th slices of the earlier rounds, whatever the other lanes were given and however
often snapshots were taken, and the slots behind the lanes are as they were. A round of the wrong
length and a snapshot into a slice that is too short panic with all states and outputs as they
were, on any states. -/
theorem streams_isolated (b : Build) (hk : b.OptKernelOk) :
    (∀ (n : Nat) (ops : List StreamOp) (j : Nat) (h : j < ops.length),
      (callAll b (List.replicate n Md5State.new) ops).2[j]? =
        some (expected b n (ops.take j) ops[j])) ∧
      (∀ (states : List Md5State) (inputs : List Bytes), states.length ≠ inputs.length →
        updateMany b inputs states =
          .error (lengthsDiffer states.length inputs.length) states) ∧
      ∀ (states : List Md5State) (outputs : List Digest), outputs.length < states.length →
        finalizeMany b states outputs =
          .error (fewOutputs outputs.length states.length) outputs := by
  refine ⟨?_, fun _ _ => updateMany_differ, fun _ _ => finalizeMany_short⟩
  intro n ops j h
  exact (callAll_run hk ops (lanes_new b n)).2 j h

/-- Two lanes, a round of the wrong length among the good ones, and a snapshot after each. -/
theorem streams_isolated_two :
    (callAll optBuild (List.replicate 2 Md5State.new)
        [.updateMany [[1], []], .updateMany [[7]], .updateMany [[2], [3]],
          .finalizeMany [emptyDigest, emptyDigest, emptyDigest]]).2[3]? =
      some ⟨.ok (), [hash optBuild [1, 2], hash optBuild [3], emptyDigest]⟩ ∧
      updateMany optBuild [[7]] (List.replicate 2 Md5State.new) =
        .error (lengthsDiffer 2 1) (List.replicate 2 Md5State.new) ∧
      finalizeMany optBuild (List.replicate 2 Md5State.new) [emptyDigest] =
        .error (fewOutputs 1 2) [emptyDigest] := by
  obtain ⟨hruns, hround, hsnap⟩ := streams_isolated optBuild optKernelOk_optBuild
  exact ⟨hruns 2 [.updateMany [[1], []], .updateMany [[7]], .updateMany [[2], [3]],
      .finalizeMany [emptyDigest, emptyDigest, emptyDigest]] 3 (by decide),
    hround _ [[7]] (by decide), hsnap _ [emptyDigest] (by decide)⟩

end Md5Simd
