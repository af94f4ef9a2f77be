import Md5Simd.Lib.Chain
import Md5Simd.Compress

/-!
# Final blocks and one-shot framing

`frame.rs`. `buildFinalBlocks` writes the one or two blocks that end a message,
`finalizeWith` compresses them, `hashWith` is the one-shot hash. A tail is
shorter than a block by its type, as the builder's callers promise.

Two facts carry everything else: `join_finalBlocks` says which bytes the final
blocks hold, and `hashWith_eq` that the one-shot hash is one chain over
`padded input`.
-/

namespace Md5Simd

open Lib

def zeroBlock : Block := Vector.replicate 64 0

/-- Build the final blocks of a message of `totalBytes` bytes ending in `tail`, in `blocks`; the
number written is returned with them. One block leaves `blocks[1]` as it was. -/
def buildFinalBlocks (totalBytes : U64) (tail : Tail) (blocks : Vector Block 2) :
    Nat × Vector Block 2 :=
  let bitLen := (u64ToLeBytes (totalBytes * 8)).toList
  let len := tail.val.length
  have : len < 64 := tail.property
  if len ≤ 55 then
    let b0 := overwrite zeroBlock 0 tail.val
    let b0 := b0.set len 0x80
    let b0 := overwrite b0 56 bitLen
    (1, blocks.set 0 b0)
  else
    let b0 := overwrite zeroBlock 0 tail.val
    let b0 := b0.set len 0x80
    let b1 := overwrite zeroBlock 56 bitLen
    (2, #v[b0, b1])

def zeroBlocks : Vector Block 2 := Vector.replicate 2 zeroBlock

/-- The blocks a finalization compresses, `&blocks[..used]`. -/
def finalBlocks (totalBytes : U64) (tail : Tail) : List Block :=
  let r := buildFinalBlocks totalBytes tail zeroBlocks
  r.2.toList.take r.1

/-- Finalize from a state, a total length and a tail. -/
def finalizeWith (state : State) (totalBytes : U64) (tail : Tail)
    (compress : State → Block → State) : Digest :=
  stateToBytes ((finalBlocks totalBytes tail).foldl compress state)

def lenU64 (input : Bytes) : U64 := BitVec.ofNat 64 input.length

/-- One-shot framing: the complete blocks, then padding. -/
def hashWith (input : Bytes) (compress : State → Block → State) : Digest :=
  if input.isEmpty then
    finalizeWith stateInit 0 emptyTail compress
  else
    let state := (blocks 64 input).foldl compress stateInit
    finalizeWith state (lenU64 input) (tail 64 input) compress

/-! ## The bytes of the final blocks -/

/-- The number of zeros between the marker and the length field. -/
def padZeros (len : Nat) : Nat := if len ≤ 55 then 55 - len else 119 - len

theorem toList_marked {t : Bytes} (h : t.length < 64) :
    ((overwrite zeroBlock 0 t).set t.length 0x80 h).toList =
      t ++ 0x80 :: List.replicate (63 - t.length) 0 := by
  have hz : zeroBlock.toList = List.replicate 64 0 := by simp [zeroBlock]
  rw [Vector.toList_set, toList_overwrite (by omega), putSlice, hz]
  simp only [List.take_zero, List.nil_append, Nat.zero_add, List.drop_replicate]
  rw [List.set_append_right _ _ (le_refl _), Nat.sub_self,
    show 64 - t.length = (63 - t.length) + 1 by omega, List.replicate_succ, List.set_cons_zero]

theorem drop_marked {t : Bytes} (h : t.length ≤ 55) :
    (t ++ 0x80 :: List.replicate (63 - t.length) 0 : Bytes).take 56 =
      t ++ 0x80 :: List.replicate (55 - t.length) 0 := by
  rw [List.take_append, List.take_of_length_le (by omega),
    show 56 - t.length = (55 - t.length) + 1 by omega, List.take_succ_cons, List.take_replicate,
    Nat.min_eq_left (by omega)]

/-- **The final blocks**: the tail, the marker, zeros, and the bit length modulo `2 ^ 64`. -/
theorem join_finalBlocks (total : U64) (t : Tail) :
    join (finalBlocks total t) = t.val ++ 0x80 :: (List.replicate (padZeros t.val.length) 0 ++
      (u64ToLeBytes (total * 8)).toList) := by
  have ht := t.property
  unfold finalBlocks buildFinalBlocks padZeros
  dsimp only
  split
  · -- one block: the length field overwrites the last eight zeros
    rename_i h
    have h1 : ((zeroBlocks.set 0 (overwrite ((overwrite zeroBlock 0 t.val).set t.val.length 0x80 ht)
        56 (u64ToLeBytes (total * 8)).toList)).toList.take 1) =
        [overwrite ((overwrite zeroBlock 0 t.val).set t.val.length 0x80 ht) 56
          (u64ToLeBytes (total * 8)).toList] := rfl
    rw [h1, join_cons, join_nil, List.append_nil, toList_overwrite (by simp), putSlice,
      toList_marked ht, drop_marked h, List.drop_of_length_le (by simp; omega)]
    simp only [List.append_nil, List.append_assoc, List.cons_append]
  · -- two blocks: the zeros of the first run on into the second
    have hz : zeroBlock.toList = List.replicate 64 0 := by simp [zeroBlock]
    have h2 (a b : Block) : (#v[a, b] : Vector Block 2).toList.take 2 = [a, b] := rfl
    rw [h2, join_cons, join_cons, join_nil, List.append_nil, toList_overwrite (by simp), putSlice,
      toList_marked ht, hz, List.drop_of_length_le (by simp), List.append_nil, List.take_replicate,
      Nat.min_eq_left (by omega), List.append_assoc, List.cons_append, ← List.append_assoc,
      List.replicate_append_replicate,
      show 63 - t.val.length + 56 = 119 - t.val.length by omega]

theorem length_finalBlocks (total : U64) (t : Tail) :
    (finalBlocks total t).length = if t.val.length ≤ 55 then 1 else 2 := by
  unfold finalBlocks buildFinalBlocks
  dsimp only
  split <;> simp

/-- The number of blocks depends on the length of the tail only. -/
theorem fst_buildFinalBlocks (total : U64) (t : Tail) (blocks : Vector Block 2) :
    (buildFinalBlocks total t blocks).1 = if t.val.length ≤ 55 then 1 else 2 := by
  unfold buildFinalBlocks
  dsimp only
  split <;> rfl

theorem getElem_finalBlocks {total : U64} {t : Tail} {i : Nat} (h : i < (finalBlocks total t).length)
    (h2 : i < 2) : (finalBlocks total t)[i] = (buildFinalBlocks total t zeroBlocks).2[i] := by
  simp [finalBlocks]

/-! ## The one-shot hash as one chain -/

/-- The blocks of the padded message. -/
def padded (input : Bytes) : List Block :=
  blocks 64 input ++ finalBlocks (lenU64 input) (tail 64 input)

theorem join_padded (input : Bytes) :
    join (padded input) = input ++ 0x80 :: (List.replicate (padZeros (input.length % 64)) 0 ++
      (u64ToLeBytes (lenU64 input * 8)).toList) := by
  rw [padded, join_append, join_finalBlocks, ← List.append_assoc, join_blocks_append_tail,
    length_tail]

theorem length_padded (input : Bytes) :
    (padded input).length = input.length / 64 + if input.length % 64 ≤ 55 then 1 else 2 := by
  rw [padded, List.length_append, length_blocks, length_finalBlocks, length_tail]

theorem finalizeWith_foldl (bs : List Block) (total : U64) (t : Tail) (f : State → Block → State) :
    finalizeWith (bs.foldl f stateInit) total t f =
      stateToBytes ((bs ++ finalBlocks total t).foldl f stateInit) := by
  rw [List.foldl_append]; rfl

/-- **The one-shot hash is one chain over the padded message.** -/
theorem hashWith_eq (input : Bytes) (f : State → Block → State) :
    hashWith input f = stateToBytes ((padded input).foldl f stateInit) := by
  unfold hashWith padded
  split
  · -- the empty message takes the same chain without the block loop
    rename_i h
    rw [List.isEmpty_iff.mp h]
    rfl
  · exact finalizeWith_foldl _ _ _ _

theorem hashWith_congr {f g : State → Block → State} (h : ∀ s b, f s b = g s b) (input : Bytes) :
    hashWith input f = hashWith input g := by
  rw [hashWith_eq, hashWith_eq, foldl_congr_fun h]

/-- The digest bytes determine the state. -/
theorem stateToBytes_inj {s t : State} (h : stateToBytes s = stateToBytes t) : s = t := by
  obtain ⟨h, h3⟩ := Vector.append_inj h
  obtain ⟨h, h2⟩ := Vector.append_inj h
  obtain ⟨h0, h1⟩ := Vector.append_inj h
  exact vec4_ext (toLeBytes_inj h0) (toLeBytes_inj h1) (toLeBytes_inj h2) (toLeBytes_inj h3)

end Md5Simd
