import Md5Simd.Frame

/-!
# Framing preserves collisions

The Merkle–Damgård law of `hashWith` for an arbitrary block compressor: two
distinct messages with one digest come from two distinct calls of the compressor
with one value.

The padding does the work: the last eight bytes are the length, so of two padded
messages neither is a suffix of the other (`not_suffix_padded`).
`hashWithM` is the same program over a compressor with effects; with a
compressor that records its calls it shows what is fed (`hashWithM_logged`).
-/

namespace Md5Simd

open Lib

/-! ## The calls of the compressor -/

section Effects

variable {m : Type → Type} [Monad m]

def finalizeWithM (state : State) (totalBytes : U64) (tail : Tail)
    (compress : State → Block → m State) : m Digest := do
  let state ← (finalBlocks totalBytes tail).foldlM compress state
  return stateToBytes state

/-- `hashWith` over a compressor with effects. -/
def hashWithM (input : Bytes) (compress : State → Block → m State) : m Digest := do
  if input.isEmpty then
    finalizeWithM stateInit 0 emptyTail compress
  else
    let state ← (blocks 64 input).foldlM compress stateInit
    finalizeWithM state (lenU64 input) (tail 64 input) compress

end Effects

theorem hashWithM_pure (f : State → Block → State) (input : Bytes) :
    Id.run (hashWithM input fun s b => pure (f s b)) = hashWith input f := by
  unfold hashWithM hashWith
  split
  · simp [finalizeWithM, finalizeWith]
  · simp [finalizeWithM, finalizeWith]

/-- A compressor that records what it is fed. -/
def logged (f : State → Block → State) (s : State) (b : Block) :
    StateM (List (State × Block)) State := fun log => (f s b, log ++ [(s, b)])

theorem foldlM_logged (f : State → Block → State) (bs : List Block) (s : State)
    (log : List (State × Block)) :
    bs.foldlM (logged f) s log = (bs.foldl f s, log ++ feeds f s bs) := by
  induction bs generalizing s log with
  | nil => simp [feeds]; rfl
  | cons b bs ih =>
    rw [List.foldlM_cons, List.foldl_cons, feeds]
    show bs.foldlM (logged f) (f s b) (log ++ [(s, b)]) = _
    rw [ih, List.append_assoc]
    rfl

theorem finalizeWithM_logged (f : State → Block → State) (s : State) (total : U64) (t : Tail)
    (log : List (State × Block)) :
    finalizeWithM s total t (logged f) log =
      (finalizeWith s total t f, log ++ feeds f s (finalBlocks total t)) := by
  show (fun r => (stateToBytes r.1, r.2)) ((finalBlocks total t).foldlM (logged f) s log) = _
  rw [foldlM_logged]
  rfl

/-- The pairs fed to `f` while `hashWith input f` is computed. -/
def calls (f : State → Block → State) (input : Bytes) : List (State × Block) :=
  ((hashWithM input (logged f)).run []).2

/-- **A recorded run computes the digest and is fed the padded message in order.** -/
theorem hashWithM_logged (f : State → Block → State) (input : Bytes) :
    (hashWithM input (logged f)).run [] = (hashWith input f, feeds f stateInit (padded input)) := by
  unfold hashWithM hashWith padded
  split
  · rename_i h
    rw [List.isEmpty_iff.mp h]
    exact finalizeWithM_logged f stateInit 0 emptyTail []
  · rw [feeds_append]
    show (fun r => finalizeWithM r.1 (lenU64 input) (tail 64 input) (logged f) r.2)
      ((blocks 64 input).foldlM (logged f) stateInit []) = _
    rw [foldlM_logged]
    exact finalizeWithM_logged f _ _ _ _

theorem calls_eq (f : State → Block → State) (input : Bytes) :
    calls f input = feeds f stateInit (padded input) := by
  rw [calls, hashWithM_logged]

/-! ## The padding -/

/-- Below `2 ^ 61` bytes the bit length fits in the length field. -/
theorem lenU64_inj {M N : Bytes} (hM : M.length < 2 ^ 61) (hN : N.length < 2 ^ 61)
    (h : lenU64 M * 8 = lenU64 N * 8) : M.length = N.length := by
  have h := congrArg BitVec.toNat h
  have h8 : (8 : U64).toNat = 8 := rfl
  simp only [lenU64, BitVec.toNat_mul, BitVec.toNat_ofNat, h8] at h
  omega

theorem join_padded_concat (M : Bytes) :
    ∃ pre, join (padded M) = pre ++ (u64ToLeBytes (lenU64 M * 8)).toList :=
  ⟨M ++ 0x80 :: List.replicate (padZeros (M.length % 64)) 0, by
    rw [join_padded, List.append_assoc, List.cons_append]⟩

/-- One padded message ends another only if they are of one length. -/
theorem length_eq_of_suffix {M N : Bytes} (hM : M.length < 2 ^ 61) (hN : N.length < 2 ^ 61)
    (h : padded M <:+ padded N) : M.length = N.length := by
  obtain ⟨bs, hbs⟩ := h
  obtain ⟨pm, hpm⟩ := join_padded_concat M
  obtain ⟨pn, hpn⟩ := join_padded_concat N
  have hjoin : (join bs ++ pm) ++ (u64ToLeBytes (lenU64 M * 8)).toList =
      pn ++ (u64ToLeBytes (lenU64 N * 8)).toList := by
    rw [List.append_assoc, ← hpm, ← join_append, hbs, hpn]
  have hfield := (List.append_inj' hjoin (by simp)).2
  exact lenU64_inj hM hN (u64ToLeBytes_inj (Vector.toList_inj.mp hfield))

theorem padded_inj {M N : Bytes} (hlen : M.length = N.length) (h : padded M = padded N) : M = N := by
  have hjoin : join (padded M) = join (padded N) := by rw [h]
  rw [join_padded, join_padded] at hjoin
  exact (List.append_inj hjoin hlen).1

/-- **Padding is suffix-free.** -/
theorem not_suffix_padded {M N : Bytes} (hne : M ≠ N) (hM : M.length < 2 ^ 61)
    (hN : N.length < 2 ^ 61) : ¬ padded M <:+ padded N := by
  intro h
  have hlen := length_eq_of_suffix hM hN h
  -- messages of one length have padded messages of one length, so the suffix is all of it
  have heq : padded M = padded N :=
    h.eq_of_length (by rw [length_padded, length_padded, hlen])
  exact hne (padded_inj hlen heq)

/-! ## The law -/

/-- **Framing preserves collisions.** Distinct messages have padded messages of which neither is a
suffix of the other, and one digest for both needs two calls of `f` with one value. -/
theorem hashWith_collision (f : State → Block → State) {M N : Bytes} (hne : M ≠ N)
    (hM : M.length < 2 ^ 61) (hN : N.length < 2 ^ 61) :
    (padded M ≠ padded N ∧ ¬ padded M <:+ padded N ∧ ¬ padded N <:+ padded M) ∧
      (hashWith M f = hashWith N f →
        ∃ p ∈ calls f M, ∃ q ∈ calls f N, p ≠ q ∧ f p.1 p.2 = f q.1 q.2) := by
  have hMN := not_suffix_padded hne hM hN
  have hNM := not_suffix_padded hne.symm hN hM
  refine ⟨⟨fun h => hMN (h ▸ List.suffix_rfl), hMN, hNM⟩, fun h => ?_⟩
  rw [hashWith_eq, hashWith_eq] at h
  rw [calls_eq, calls_eq]
  exact exists_collision f stateInit _ _ hMN hNM (stateToBytes_inj h)

/-- A compressor that ignores the block collides on any two messages. -/
theorem hashWith_collision_fixed :
    ∃ p ∈ calls (fun s _ => s) [0], ∃ q ∈ calls (fun s _ => s) [1], p ≠ q ∧ p.1 = q.1 := by
  have h := (hashWith_collision (fun s _ => s) (M := [0]) (N := [1]) (by decide) (by decide)
    (by decide)).2
  exact h (by rw [hashWith_eq, hashWith_eq, List.foldl_fixed, List.foldl_fixed])

end Md5Simd
