import Md5Simd.Simd.Intrinsics

/-!
# The AVX adapters

`avx2.rs`, eight lanes in one register, and `avx512.rs`, sixteen lanes. Both
gathers transpose 8×8 tiles of words with the 256-bit unpacks; both adapters
satisfy the lane contract (`lanewise_avx2`, `lanewise_avx512`).
-/

namespace Md5Simd

open Lib

/-! ## Eight lanes -/

/-- Transpose 8×8 words, rows are messages, via unpack and permute. -/
def transpose8 : Vector M256 8 → Vector M256 8 := uncurry8 fun r0 r1 r2 r3 r4 r5 r6 r7 =>
  let t0 := mm256_unpacklo_epi32 r0 r1
  let t1 := mm256_unpackhi_epi32 r0 r1
  let t2 := mm256_unpacklo_epi32 r2 r3
  let t3 := mm256_unpackhi_epi32 r2 r3
  let t4 := mm256_unpacklo_epi32 r4 r5
  let t5 := mm256_unpackhi_epi32 r4 r5
  let t6 := mm256_unpacklo_epi32 r6 r7
  let t7 := mm256_unpackhi_epi32 r6 r7
  let u0 := mm256_unpacklo_epi64 t0 t2
  let u1 := mm256_unpacklo_epi64 t1 t3
  let u2 := mm256_unpackhi_epi64 t0 t2
  let u3 := mm256_unpackhi_epi64 t1 t3
  let u4 := mm256_unpacklo_epi64 t4 t6
  let u5 := mm256_unpacklo_epi64 t5 t7
  let u6 := mm256_unpackhi_epi64 t4 t6
  let u7 := mm256_unpackhi_epi64 t5 t7
  #v[mm256_permute2x128_si256 0x20 u0 u4,
    mm256_permute2x128_si256 0x20 u2 u6,
    mm256_permute2x128_si256 0x20 u1 u5,
    mm256_permute2x128_si256 0x20 u3 u7,
    mm256_permute2x128_si256 0x31 u0 u4,
    mm256_permute2x128_si256 0x31 u2 u6,
    mm256_permute2x128_si256 0x31 u1 u5,
    mm256_permute2x128_si256 0x31 u3 u7]

theorem row_transpose8 (r : Vector M256 8) {j : Nat} (hj : j < 8) :
    (transpose8 r)[j] =
      uncurry8 (fun r0 r1 r2 r3 r4 r5 r6 r7 =>
        #v[r0[j], r1[j], r2[j], r3[j], r4[j], r5[j], r6[j], r7[j]]) r := by
  interval_cases j <;> rfl

theorem getElem_transpose8 (r : Vector M256 8) {i j : Nat} (hi : i < 8) (hj : j < 8) :
    (transpose8 r)[j][i] = r[i][j] := by
  simp only [row_transpose8 r hj]
  interval_cases i <;> rfl

def rotlAvx2 (a : M256) (r : Nat) : M256 :=
  if r ∈ immRotations then
    mm256_or_si256 (mm256_slli_epi32 a r) (mm256_srli_epi32 a (32 - r))
  else
    let n := mm256_set1_epi32 (BitVec.ofNat 32 r)
    let nInv := mm256_set1_epi32 (32 - BitVec.ofNat 32 r)
    mm256_or_si256 (mm256_sllv_epi32 a n) (mm256_srlv_epi32 a nInv)

/-- The transposed words `8 * h..8 * h + 8` of eight blocks. -/
def avxHalf {L : Nat} (p : Vector BytePtr L) (base h : Nat) : Except Fault (Vector M256 8) := do
  let rows ← loadRows 8 8 p base (4 * (8 * h))
  return transpose8 rows

def gatherAvx2 (ptrs : LanePtrs) (n : Nat) : Except Fault (Vector M256 16) := do
  let p ← rowPtrs 8 ptrs n
  let w0 ← avxHalf p 0 0
  let w8 ← avxHalf p 0 1
  return w0 ++ w8

/-- `__m256i` as eight lanes. -/
def Avx2 : Wide where
  LANES := 8
  V := M256
  splat := mm256_set1_epi32
  splatRef := mm256_set1_epi32
  add := mm256_add_epi32
  xor := mm256_xor_si256
  and := mm256_and_si256
  or := mm256_or_si256
  not a := mm256_xor_si256 a (mm256_set1_epi32 (-1))
  rotl := rotlAvx2
  toLanes v := v
  gatherBlock := gatherAvx2

theorem variable_counts {r : Nat} (hr : r ≤ 32) :
    (BitVec.ofNat 32 r).toNat = r ∧ (32 - BitVec.ofNat 32 r).toNat = 32 - r := by
  have h : ∀ r : Fin 33, (BitVec.ofNat 32 r.val).toNat = r.val ∧
      (32 - BitVec.ofNat 32 r.val).toNat = 32 - r.val := by decide
  exact h ⟨r, by omega⟩

theorem getElem_rotlAvx2 (a : M256) {r : Nat} (hr : r ≤ 32) {i : Nat} (hi : i < 8) :
    (rotlAvx2 a r)[i] = a[i].rotateLeft r := by
  unfold rotlAvx2
  split
  · simp only [mm256_or_si256, mm256_slli_epi32, mm256_srli_epi32, shlImm, shrImm,
      Vector.getElem_zipWith, Vector.getElem_map]
    exact shifts_rotate hr _
  · simp only [mm256_or_si256, mm256_sllv_epi32, mm256_srlv_epi32, mm256_set1_epi32,
      Vector.getElem_zipWith, Vector.getElem_replicate, variable_counts hr]
    exact shifts_rotate hr _

theorem avxHalf_run {L : Nat} {p : Vector BytePtr L} {blks : Nat → Block} {base h : Nat}
    (hbase : base + 8 ≤ L) (hh : 8 * h + 8 ≤ 16)
    (hp : ∀ i (hi : i < L), p[i].read 0 64 = .ok (blks i)) :
    ∃ t, avxHalf p base h = .ok t ∧
      ∀ w (_ : w < 16) j (_ : j < 8) i (_ : i < 8), w = 8 * h + j →
        t[j][i] = (loadM (blks (base + i)))[w] := by
  obtain ⟨rows, hrun, hrows⟩ := loadRows_run 8 8 hbase hh hp
  refine ⟨transpose8 rows, by rw [avxHalf, Except.bind_ok hrun]; rfl, fun w hw j hj i hi hwj => ?_⟩
  subst hwj
  exact (getElem_transpose8 rows hi hj).trans (hrows i hi j hj)

theorem halves_words {V : Type} {w0 w8 : Vector V 8} (Word : Nat → V → Prop)
    (h0 : ∀ j (_ : j < 8), Word j w0[j]) (h8 : ∀ j (_ : j < 8), Word (8 + j) w8[j])
    (w : Fin 16) : Word w (w0 ++ w8)[w] := by
  by_cases h : w.val < 8
  · rw [getElem_fin, Vector.getElem_append_left h]
    exact h0 w.val h
  · rw [getElem_fin, Vector.getElem_append_right w.isLt (show 8 ≤ w.val by omega)]
    have := h8 (w.val - 8) (by omega)
    rwa [show 8 + (w.val - 8) = w.val by omega] at this

theorem getElem_xor_ones {n : Nat} (a : Vector U32 n) {i : Nat} (hi : i < n) :
    (Vector.zipWith (· ^^^ ·) a (Vector.replicate n (-1)))[i] = ~~~a[i] := by
  rw [Vector.getElem_zipWith, Vector.getElem_replicate]
  exact BitVec.xor_allOnes

/-- **The AVX2 adapter satisfies the lane contract.** -/
theorem lanewise_avx2 : Lanewise Avx2 where
  lanes_pos := by decide
  lanes_le := by decide
  splat _ i := Vector.getElem_replicate i.isLt
  splatRef _ i := Vector.getElem_replicate i.isLt
  add _ _ i := Vector.getElem_zipWith i.isLt
  xor _ _ i := Vector.getElem_zipWith i.isLt
  and _ _ i := Vector.getElem_zipWith i.isLt
  or _ _ i := Vector.getElem_zipWith i.isLt
  not a i := getElem_xor_ones a i.isLt
  rotl a _ i hr := getElem_rotlAvx2 a (Nat.le_of_lt hr) i.isLt
  gather ptrs n blks h1 hn hread := by
    have hn8 : n ≤ 8 := hn
    obtain ⟨p, hp, hblk⟩ := rowPtrs_run h1 hn8 (show n ≤ 16 by omega) hread
    obtain ⟨w0, hw0, h0⟩ := avxHalf_run (Nat.le_refl (0 + 8)) (show 8 * 0 + 8 ≤ 16 by omega) hblk
    obtain ⟨w8, hw8, h8⟩ := avxHalf_run (Nat.le_refl (0 + 8)) (show 8 * 1 + 8 ≤ 16 by omega) hblk
    have hwords : ∀ (w : Fin 16) i (hi : i < 8),
        (w0 ++ w8)[w][i] = (loadM (blks (min i (n - 1))))[w] := fun w i hi => by
      have hlow : ∀ j (_ : j < 8) (_ : j < 16), w0[j][i] = (loadM (blks (min i (n - 1))))[j] :=
        fun j hj hw => by rw [h0 j hw j hj i hi (by omega), Nat.zero_add]
      have hhigh : ∀ j (_ : j < 8) (_ : 8 + j < 16),
          w8[j][i] = (loadM (blks (min i (n - 1))))[8 + j] :=
        fun j hj hw => by rw [h8 (8 + j) hw j hj i hi (by omega), Nat.zero_add]
      exact halves_words (fun w v => ∀ _ : w < 16, v[i] = (loadM (blks (min i (n - 1))))[w])
        hlow hhigh w w.isLt
    refine ⟨w0 ++ w8, ?_, fun w i => hwords w i.val i.isLt⟩
    exact (Except.bind_ok hp).trans ((Except.bind_ok hw0).trans (Except.bind_ok hw8))

/-! ## Sixteen lanes -/

def rotlAvx512 (a : M512) (r : Nat) : M512 :=
  if r ∈ immRotations then
    mm512_or_si512 (mm512_slli_epi32 a r) (mm512_srli_epi32 a (32 - r))
  else
    let n := mm512_set1_epi32 (BitVec.ofNat 32 r)
    let nInv := mm512_set1_epi32 (32 - BitVec.ofNat 32 r)
    mm512_or_si512 (mm512_sllv_epi32 a n) (mm512_srlv_epi32 a nInv)

/-- A half of sixteen blocks: lanes 0..8, with lanes 8..16 inserted above them. -/
def zmmHalf (upper : Nat → M256) (p : Vector BytePtr 16) (h : Nat) :
    Except Fault (Vector M512 8) := do
  let lo ← avxHalf p 0 h
  let hi ← avxHalf p 8 h
  return Vector.ofFn fun j => mm512_inserti64x4 (mm512_castsi256_si512 (upper (8 * h + j)) lo[j]) hi[j] 1

/-- A gather of sixteen blocks; `upper w` is the undefined half of the cast for word `w`. -/
def gatherAvx512 (upper : Nat → M256) (ptrs : LanePtrs) (n : Nat) :
    Except Fault (Vector M512 16) := do
  let p ← rowPtrs 16 ptrs n
  let m0 ← zmmHalf upper p 0
  let m8 ← zmmHalf upper p 1
  return m0 ++ m8

/-- `__m512i` as sixteen lanes. -/
def Avx512 (upper : Nat → M256) : Wide where
  LANES := 16
  V := M512
  splat := mm512_set1_epi32
  splatRef := mm512_set1_epi32
  add := mm512_add_epi32
  xor := mm512_xor_si512
  and := mm512_and_si512
  or := mm512_or_si512
  not a := mm512_xor_si512 a (mm512_set1_epi32 (-1))
  rotl := rotlAvx512
  toLanes v := v
  gatherBlock := gatherAvx512 upper

theorem getElem_rotlAvx512 (a : M512) {r : Nat} (hr : r ≤ 32) {i : Nat} (hi : i < 16) :
    (rotlAvx512 a r)[i] = a[i].rotateLeft r := by
  unfold rotlAvx512
  split
  · simp only [mm512_or_si512, mm512_slli_epi32, mm512_srli_epi32, shlImm, shrImm,
      Vector.getElem_zipWith, Vector.getElem_map]
    exact shifts_rotate hr _
  · simp only [mm512_or_si512, mm512_sllv_epi32, mm512_srlv_epi32, mm512_set1_epi32,
      Vector.getElem_zipWith, Vector.getElem_replicate, variable_counts hr]
    exact shifts_rotate hr _

theorem getElem_insert (upper lo hi : M256) {i : Nat} (h : i < 16) :
    (mm512_inserti64x4 (mm512_castsi256_si512 upper lo) hi 1)[i] =
      if _ : i < 8 then lo[i] else hi[i - 8] := by
  have himm : (1 : BitVec 1).toNat = 1 := rfl
  rw [mm512_inserti64x4, Vector.getElem_ofFn, himm]
  dsimp only
  by_cases h8 : i < 8
  · rw [if_neg (by omega), dif_pos h8]
    exact Vector.getElem_append_left h8
  · rw [if_pos (by omega), dif_neg h8]
    simp only [show i % 8 = i - 8 by omega]

theorem zmmHalf_run {upper : Nat → M256} {p : Vector BytePtr 16} {blks : Nat → Block} {h : Nat}
    (hh : 8 * h + 8 ≤ 16) (hp : ∀ i (hi : i < 16), p[i].read 0 64 = .ok (blks i)) :
    ∃ t, zmmHalf upper p h = .ok t ∧
      ∀ w (_ : w < 16) j (_ : j < 8) i (_ : i < 16), w = 8 * h + j →
        t[j][i] = (loadM (blks i))[w] := by
  obtain ⟨lo, hlo, hlow⟩ := avxHalf_run (show 0 + 8 ≤ 16 by omega) hh hp
  obtain ⟨hi, hhi, hhigh⟩ := avxHalf_run (show 8 + 8 ≤ 16 by omega) hh hp
  refine ⟨_, by rw [zmmHalf, Except.bind_ok hlo, Except.bind_ok hhi]; rfl,
    fun w hw j hj i h16 hwj => ?_⟩
  rw [Vector.getElem_ofFn, getElem_insert _ _ _ h16]
  split
  · rename_i h8
    have := hlow w hw j hj i h8 hwj
    rwa [Nat.zero_add] at this
  · have := hhigh w hw j hj (i - 8) (by omega) hwj
    rwa [show 8 + (i - 8) = i by omega] at this

/-- **The AVX-512 adapter satisfies the lane contract**, whatever the casts leave undefined. -/
theorem lanewise_avx512 (upper : Nat → M256) : Lanewise (Avx512 upper) where
  lanes_pos := show 1 ≤ 16 by decide
  lanes_le := show 16 ≤ 16 by decide
  splat _ i := Vector.getElem_replicate i.isLt
  splatRef _ i := Vector.getElem_replicate i.isLt
  add _ _ i := Vector.getElem_zipWith i.isLt
  xor _ _ i := Vector.getElem_zipWith i.isLt
  and _ _ i := Vector.getElem_zipWith i.isLt
  or _ _ i := Vector.getElem_zipWith i.isLt
  not a i := getElem_xor_ones a i.isLt
  rotl a _ i hr := getElem_rotlAvx512 a (Nat.le_of_lt hr) i.isLt
  gather ptrs n blks h1 hn hread := by
    have hn16 : n ≤ 16 := hn
    obtain ⟨p, hp, hblk⟩ := rowPtrs_run h1 hn16 hn16 hread
    obtain ⟨m0, hm0, h0⟩ := zmmHalf_run (show 8 * 0 + 8 ≤ 16 by omega) hblk
    obtain ⟨m8, hm8, h8⟩ := zmmHalf_run (show 8 * 1 + 8 ≤ 16 by omega) hblk
    have hwords : ∀ (w : Fin 16) i (hi : i < 16),
        (m0 ++ m8)[w][i] = (loadM (blks (min i (n - 1))))[w] := fun w i hi =>
      halves_words (fun w v => ∀ _ : w < 16, v[i] = (loadM (blks (min i (n - 1))))[w])
        (fun j hj hw => h0 j hw j hj i hi (by omega))
        (fun j hj hw => h8 (8 + j) hw j hj i hi (by omega)) w w.isLt
    refine ⟨m0 ++ m8, ?_, fun w i => hwords w i.val i.isLt⟩
    exact (Except.bind_ok hp).trans ((Except.bind_ok hm0).trans (Except.bind_ok hm8))

end Md5Simd
