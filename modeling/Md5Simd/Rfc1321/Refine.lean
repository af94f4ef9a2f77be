import Md5Simd.Backend
import Md5Simd.Lib.Sine
import Md5Simd.Rfc1321.Spec

/-!
# The code computes RFC 1321

Four correspondences, one for each part of the reference:

* the final blocks hold the padded bits (`bitsOf_padded`);
* the words of a block are the words of its bits (`wordAt_join`);
* the textbook compressor is `process` (`process_toBuffer`): its 64 steps in
  place are 64 steps of the RFC's moving buffer, with the tables for the index
  formulas and `K_eq_T` for the sines;
* `stateToBytes` is the RFC's output order.

`hash_rfc1321` assembles them for every build.
-/

namespace Md5Simd

open Lib

/-! ## Padding -/

open Rfc1321 in
theorem bitsOf_replicate_zero (n : Nat) :
    bitsOf (List.replicate n 0) = List.replicate (8 * n) false := by
  induction n with
  | zero => rfl
  | succ n ih =>
    rw [List.replicate_succ, Nat.mul_succ, Nat.add_comm (8 * n) 8, ← List.replicate_append_replicate, ← ih]
    rfl

theorem extractLsb'_byte {w : Nat} (x : BitVec w) (i : Nat) :
    x.extractLsb' (8 * i) 8 = BitVec.ofNat 8 (x.toNat / 256 ^ i) := by
  apply BitVec.eq_of_toNat_eq
  rw [BitVec.extractLsb'_toNat, Nat.shiftRight_eq_div_pow, BitVec.toNat_ofNat, Nat.pow_mul]

theorem lengthField_eq (input : Bytes) :
    (u64ToLeBytes (lenU64 input * 8)).toList = Rfc1321.lowBytes 8 (8 * input.length) := by
  have hbits : (lenU64 input * 8).toNat = 8 * input.length % 2 ^ 64 := by
    rw [lenU64, BitVec.toNat_mul, BitVec.toNat_ofNat, Nat.mod_mul_mod, Nat.mul_comm]; rfl
  refine List.ext_getElem (by simp) fun i hi _ => ?_
  have hi : i < 8 := by simpa using hi
  simp only [Vector.getElem_toList, u64ToLeBytes, Vector.getElem_ofFn, Rfc1321.lowBytes,
    List.getElem_map, List.getElem_range, extractLsb'_byte, hbits]
  apply BitVec.eq_of_toNat_eq
  simp only [BitVec.toNat_ofNat]
  -- byte `i` of eight lies below the modulus
  interval_cases i <;> norm_num <;> omega

/-- **The padded blocks hold the padded bits.** -/
theorem bitsOf_padded (input : Bytes) :
    Rfc1321.bitsOf (join (padded input)) = Rfc1321.pad (Rfc1321.bitsOf input) := by
  have hmark : ∀ l, Rfc1321.bitsOf (0x80 :: l) = true :: (List.replicate 7 false ++ Rfc1321.bitsOf l) :=
    fun l => rfl
  have hz : 7 + 8 * padZeros (input.length % 64) = Rfc1321.zeroBits (8 * input.length) := by
    obtain ⟨hbits, hfewest⟩ := Rfc1321.zeroBits_spec (8 * input.length)
    have hpad : padZeros (input.length % 64) < 64 ∧
        (input.length + 1 + padZeros (input.length % 64)) % 64 = 56 := by
      unfold padZeros
      split <;> omega
    have hle := hfewest (7 + 8 * padZeros (input.length % 64)) (by omega)
    omega
  rw [join_padded, Rfc1321.bitsOf_append, hmark, Rfc1321.bitsOf_append, bitsOf_replicate_zero,
    lengthField_eq, ← List.append_assoc, List.replicate_append_replicate, hz, Rfc1321.pad,
    Rfc1321.length_bitsOf]

/-! ## Words of a block -/

theorem getElem_join {n : Nat} (bs : List (Vector U8 n)) {i j : Nat} (hi : i < bs.length)
    (hj : j < n) (h : i * n + j < (join bs).length) : (join bs)[i * n + j] = bs[i][j] := by
  induction bs generalizing i with
  | nil => cases hi
  | cons b bs ih =>
    simp only [join_cons]
    rcases i with _ | i
    · rw [List.getElem_append_left (by simpa using hj)]
      simp
    · rw [List.getElem_append_right (by simp [Nat.succ_mul]; omega)]
      simp only [Vector.length_toList, Nat.succ_mul, show i * n + n + j - n = i * n + j by omega]
      exact ih (by simpa using hi) _

/-- Word `k` of block `n` of the bits is word `k` the compressor loads from block `n`. -/
theorem wordAt_join (bs : List Block) {n : Nat} (hn : n < bs.length) (k : Fin 16) :
    Rfc1321.wordAt (Rfc1321.bitsOf (join bs)) (16 * n + k) = (loadM bs[n])[k] := by
  have hbyte : ∀ j, (hj : 4 * k.val + j < 64) →
      Rfc1321.byteAt (Rfc1321.bitsOf (join bs)) (4 * (16 * n + k) + j) = bs[n][4 * k.val + j] := by
    intro j hj
    have hlen : n * 64 + (4 * k.val + j) < (join bs).length := by rw [length_join]; omega
    have hpos : 4 * (16 * n + k) + j = n * 64 + (4 * k.val + j) := by omega
    simp only [hpos]
    rw [Rfc1321.byteAt_bitsOf _ hlen, getElem_join bs hn hj]
  have h0 := hbyte 0 (by omega)
  rw [Nat.add_zero] at h0
  simp only [Rfc1321.wordAt, h0, hbyte 1 (by omega), hbyte 2 (by omega), hbyte 3 (by omega)]
  simp only [loadM, Vector.getElem_ofFn, Nat.add_zero, getElem_fin]
  rfl

/-! ## The block function -/

/-- The state as the RFC's buffer. -/
def toBuffer (s : State) : Rfc1321.Buffer := uncurry4 Rfc1321.Buffer.mk s

theorem toBuffer_inj {s t : State} (h : toBuffer s = toBuffer t) : s = t := by
  obtain ⟨h0, h1, h2, h3⟩ := Rfc1321.Buffer.mk.inj h
  exact vec4_ext h0 h1 h2 h3

theorem sineCheck_K : ∀ i : Fin 64, Sine.sineCheck (i.val + 1) K[i].toNat = true := by
  decide +kernel

/-- **The table `K` is the RFC's `T`.** -/
theorem K_eq_T (i : Fin 64) : Rfc1321.T (i.val + 1) = K[i] := by
  rw [Rfc1321.T, Sine.floor_of_sineCheck (sineCheck_K i), BitVec.ofNat_toNat, BitVec.setWidth_eq]

theorem MSG_eq_wordIndex : ∀ i : Fin 64, Rfc1321.wordIndex i = MSG[i] := by decide

theorem S_eq_shift : ∀ i : Fin 64, Rfc1321.shift i = S[i] := by decide

theorem func_eq_bookMix (i : Fin 64) : Rfc1321.func i = bookMix i := by
  unfold Rfc1321.func bookMix byRound
  rcases round_cases i with h | h | h | h <;> simp only [h]
  · rw [if_pos (by omega)]; rfl
  · rw [if_neg (by omega), if_pos (by omega)]; rfl
  · rw [if_neg (by omega), if_neg (by omega), if_pos (by omega)]; rfl
  · rw [if_neg (by omega), if_neg (by omega), if_neg (by omega)]; rfl

theorem toBuffer_shiftStep {X : Nat → U32} {m : Words} (hX : ∀ k : Fin 16, X k = m[k]) (i : Fin 64)
    (v : State) :
    toBuffer (shiftStep (roundFn bookMix m i) v) = Rfc1321.step X (toBuffer v) i := by
  simp only [Rfc1321.step, K_eq_T, S_eq_shift, func_eq_bookMix, MSG_eq_wordIndex, hX]
  rw [add_right_comm]
  rfl

theorem toBuffer_foldl_shiftStep {X : Nat → U32} {m : Words} (hX : ∀ k : Fin 16, X k = m[k])
    (ks : List (Fin 64)) (v : State) :
    toBuffer (ks.foldl (fun v k => shiftStep (roundFn bookMix m k) v) v) =
      (ks.map Fin.val).foldl (Rfc1321.step X) (toBuffer v) := by
  induction ks generalizing v with
  | nil => rfl
  | cons k ks ih => rw [List.foldl_cons, List.map_cons, List.foldl_cons, ih, toBuffer_shiftStep hX]

theorem map_val_steps : steps.map Fin.val = List.range 64 := by
  unfold steps; decide

/-- The run in place ends where the moving buffer ends. -/
theorem toBuffer_run {X : Nat → U32} {m : Words} (hX : ∀ k : Fin 16, X k = m[k]) (s : State) :
    toBuffer (run bookMix m s) = (List.range 64).foldl (Rfc1321.step X) (toBuffer s) := by
  have h := foldl_ringStep (roundFn bookMix m) destOf steps 0 s descends_steps
  rw [destAfter_steps, rotateTo_zero, rotateTo_zero] at h
  rw [run, h, toBuffer_foldl_shiftStep hX, map_val_steps]

/-- The words of a block, as the RFC's `X`. -/
def blockWords (blk : Block) (k : Nat) : U32 := if h : k < 16 then (loadM blk)[k] else 0

theorem blockWords_eq (blk : Block) (k : Fin 16) : blockWords blk k = (loadM blk)[k] :=
  dif_pos k.isLt

/-- **The textbook compressor is the RFC's block function.** -/
theorem process_toBuffer {X : Nat → U32} {blk : Block} (hX : ∀ k : Fin 16, X k = (loadM blk)[k])
    (s : State) : Rfc1321.process X (toBuffer s) = toBuffer (compressTextbook s blk) := by
  rw [compressTextbook_eq_run, Rfc1321.process, ← toBuffer_run hX]
  simp only [toBuffer, uncurry4, feedForward, Vector.getElem_zipWith]

/-! ## All blocks -/

theorem foldl_range_blocks {β γ δ : Type} {f : γ → β → γ} {g : δ → Nat → δ} {v : γ → δ} (bs : List β)
    (h : ∀ n (hn : n < bs.length) s, g (v s) n = v (f s bs[n])) (s : γ) :
    (List.range bs.length).foldl g (v s) = v (bs.foldl f s) := by
  induction bs using List.reverseRecOn with
  | nil => rfl
  | append_singleton bs b ih =>
    have hinit : ∀ n (hn : n < bs.length) s, g (v s) n = v (f s bs[n]) := fun n hn s => by
      have := h n (by simp; omega) s
      rwa [List.getElem_append_left hn] at this
    have hlast := h bs.length (by simp) (bs.foldl f s)
    rw [List.getElem_concat_length rfl] at hlast
    rw [List.length_append, List.length_singleton, List.range_succ, List.foldl_append,
      ih hinit, List.foldl_concat]
    exact hlast

theorem digestBuffer_join (bs : List Block) :
    Rfc1321.digestBuffer (Rfc1321.bitsOf (join bs)) =
      toBuffer (bs.foldl compressTextbook stateInit) := by
  have hlen : (Rfc1321.bitsOf (join bs)).length / 512 = bs.length := by
    rw [Rfc1321.length_bitsOf, length_join]; omega
  have hinit : Rfc1321.init = toBuffer stateInit := by decide
  rw [Rfc1321.digestBuffer, hlen, hinit]
  exact foldl_range_blocks bs (fun n hn s => process_toBuffer (wordAt_join bs hn) s) stateInit

/-! ## Output -/

theorem toList_toLeBytes (w : U32) : (toLeBytes w).toList = Rfc1321.lowBytes 4 w.toNat := by
  have h := extractLsb'_byte w
  exact congrArg₂ _ (h 0) (congrArg₂ _ (h 1) (congrArg₂ _ (h 2) (congrArg₂ _ (h 3) rfl)))

theorem output_toBuffer (s : State) : Rfc1321.output (toBuffer s) = (stateToBytes s).toList := by
  simp only [stateToBytes, Vector.toList_append, toList_toLeBytes]
  simp [Rfc1321.output, toBuffer]

/-! ## The digest -/

/-- **Framing with the textbook compressor is the RFC's MD5.** -/
theorem hashWith_rfc1321 (input : Bytes) :
    (hashWith input compressTextbook).toList = Rfc1321.md5 input := by
  rw [hashWith_eq, ← output_toBuffer, ← digestBuffer_join, bitsOf_padded]
  rfl

/-- What the reference asks of a vendored kernel: one call is one RFC block. -/
def Build.OptKernelRfc1321 (b : Build) : Prop :=
  hasOptKernel b = true →
    ∀ s blk, toBuffer (b.transform s blk) = Rfc1321.process (blockWords blk) (toBuffer s)

theorem optKernelOk_of_rfc1321 {b : Build} (hk : b.OptKernelRfc1321) : b.OptKernelOk :=
  fun h s blk => toBuffer_inj ((hk h s blk).trans (process_toBuffer (blockWords_eq blk) s))

/-- **Every one-shot entry of every build is the RFC's MD5.** -/
theorem hash_rfc1321 (b : Build) (hk : b.OptKernelRfc1321) (input : Bytes) :
    (hash b input).toList = Rfc1321.md5 input ∧
      (hashTextbook input).toList = Rfc1321.md5 input ∧
      (hashInTree input).toList = Rfc1321.md5 input := by
  refine ⟨?_, ?_, ?_⟩
  · rw [hash_eq_textbook (optKernelOk_of_rfc1321 hk), hashWith_rfc1321]
  · rw [hashTextbook_eq, hashWith_rfc1321]
  · rw [hashInTree_eq, hashTextbook_eq, hashWith_rfc1321]

/-- The message "abc". -/
theorem hash_rfc1321_abc :
    (hash optBuild [0x61, 0x62, 0x63]).toList = Rfc1321.md5 [0x61, 0x62, 0x63] ∧
      (hashTextbook [0x61, 0x62, 0x63]).toList = Rfc1321.md5 [0x61, 0x62, 0x63] ∧
      (hashInTree [0x61, 0x62, 0x63]).toList = Rfc1321.md5 [0x61, 0x62, 0x63] :=
  hash_rfc1321 optBuild (fun _ s blk => (process_toBuffer (blockWords_eq blk) s).symm) _

end Md5Simd
