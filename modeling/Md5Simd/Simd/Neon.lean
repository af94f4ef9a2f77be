import Md5Simd.Simd.Intrinsics

/-!
# The NEON adapters

`neon.rs`, four lanes in one register, and `neon8.rs`, eight lanes in two. The
gather transposes 4×4 tiles of words; both adapters satisfy the lane contract
(`lanewise_neon4`, `lanewise_neon8`).
-/

namespace Md5Simd

open Lib

/-! ## Four lanes -/

/-- 4×4 transpose via `vtrn`, rows are messages. -/
def transpose4 : Vector U32x4 4 → Vector U32x4 4 := uncurry4 fun r0 r1 r2 r3 =>
  let t01 := vtrnq_u32 r0 r1
  let t23 := vtrnq_u32 r2 r3
  let c0 := vcombine_u32 (vget_low_u32 t01.1) (vget_low_u32 t23.1)
  let c1 := vcombine_u32 (vget_low_u32 t01.2) (vget_low_u32 t23.2)
  let c2 := vcombine_u32 (vget_high_u32 t01.1) (vget_high_u32 t23.1)
  let c3 := vcombine_u32 (vget_high_u32 t01.2) (vget_high_u32 t23.2)
  #v[c0, c1, c2, c3]

theorem getElem_transpose4 (r : Vector U32x4 4) {i j : Nat} (hi : i < 4) (hj : j < 4) :
    (transpose4 r)[j][i] = r[i][j] := by
  interval_cases i <;> interval_cases j <;> rfl

def rotlNeon4 (a : U32x4) (r : Nat) : U32x4 :=
  if r ∈ immRotations then
    vorrq_u32 (vshlq_n_u32 a r) (vshrq_n_u32 a (32 - r))
  else
    let left := vshlq_u32 a (vdupq_n_s32 (BitVec.ofNat 32 r))
    let right := vshlq_u32 a (vdupq_n_s32 (BitVec.ofNat 32 r - 32))
    vorrq_u32 left right

/-- The transposed words `4 * q..4 * q + 4` of four blocks. -/
def neonQuarter {L : Nat} (p : Vector BytePtr L) (base q : Nat) :
    Except Fault (Vector U32x4 4) := do
  let rows ← loadRows 4 4 p base (4 * (4 * q))
  return transpose4 rows

def gatherNeon4 (ptrs : LanePtrs) (n : Nat) : Except Fault (Vector U32x4 16) := do
  let p ← rowPtrs 4 ptrs n
  gatherQuarters (vdupq_n_u32 0) (neonQuarter p 0)

/-- `uint32x4_t` as four lanes. -/
def Neon4 : Wide where
  LANES := 4
  V := U32x4
  splat := vdupq_n_u32
  splatRef := vdupq_n_u32
  add := vaddq_u32
  xor := veorq_u32
  and := vandq_u32
  or := vorrq_u32
  not := vmvnq_u32
  rotl := rotlNeon4
  toLanes v := v
  gatherBlock := gatherNeon4

theorem getElem_rotlNeon4 (a : U32x4) {r : Nat} (hr : r ≤ 32) {i : Nat} (hi : i < 4) :
    (rotlNeon4 a r)[i] = a[i].rotateLeft r := by
  unfold rotlNeon4
  split
  · simp only [vorrq_u32, vshlq_n_u32, vshrq_n_u32, shlImm, shrImm, Vector.getElem_zipWith,
      Vector.getElem_map]
    exact shifts_rotate hr _
  · simp only [vorrq_u32, vshlq_u32, vdupq_n_s32, Vector.getElem_zipWith,
      Vector.getElem_replicate, ushl_left hr, ushl_right hr]
    exact shifts_rotate hr _

theorem neonQuarter_run {L : Nat} {p : Vector BytePtr L} {blks : Nat → Block} {base q : Nat}
    (hbase : base + 4 ≤ L) (hq : q < 4)
    (hp : ∀ i (hi : i < L), p[i].read 0 64 = .ok (blks i)) :
    ∃ t, neonQuarter p base q = .ok t ∧
      ∀ j (_ : j < 4) i (_ : i < 4) (_ : 4 * q + j < 16),
        t[j][i] = (loadM (blks (base + i)))[4 * q + j] := by
  obtain ⟨rows, hrun, hrows⟩ := loadRows_run 4 4 hbase (show 4 * q + 4 ≤ 16 by omega) hp
  refine ⟨transpose4 rows, by rw [neonQuarter, Except.bind_ok hrun]; rfl, fun j hj i hi _ => ?_⟩
  exact (getElem_transpose4 rows hi hj).trans (hrows i hi j hj)

/-- **The four-lane adapter satisfies the lane contract.** -/
theorem lanewise_neon4 : Lanewise Neon4 where
  lanes_pos := by decide
  lanes_le := by decide
  splat _ i := Vector.getElem_replicate i.isLt
  splatRef _ i := Vector.getElem_replicate i.isLt
  add _ _ i := Vector.getElem_zipWith i.isLt
  xor _ _ i := Vector.getElem_zipWith i.isLt
  and _ _ i := Vector.getElem_zipWith i.isLt
  or _ _ i := Vector.getElem_zipWith i.isLt
  not _ i := Vector.getElem_map _ i.isLt
  rotl a _ i hr := getElem_rotlNeon4 a (Nat.le_of_lt hr) i.isLt
  gather ptrs n blks h1 hn hread := by
    have hn4 : n ≤ 4 := hn
    obtain ⟨p, hp, hblk⟩ := rowPtrs_run h1 hn4 (show n ≤ 16 by omega) hread
    obtain ⟨m, hm, hwords⟩ := gatherQuarters_run (vdupq_n_u32 0)
      (fun w (v : U32x4) => ∀ (_ : w < 16) i (_ : i < 4), v[i] = (loadM (blks (min i (n - 1))))[w])
      fun q hq => by
        obtain ⟨t, ht, hword⟩ := neonQuarter_run (Nat.le_refl (0 + 4)) hq hblk
        refine ⟨t, ht, fun j hj hw i hi => ?_⟩
        rw [hword j hj i hi hw, Nat.zero_add]
    exact ⟨m, (Except.bind_ok hp).trans hm, fun w i => hwords w.val w.isLt w.isLt i.val i.isLt⟩

/-! ## Eight lanes -/

/-- `[lo, hi]`, lanes 0..4 and 4..8. -/
structure Pair4 where
  lo : U32x4
  hi : U32x4

/-- One intrinsic on both registers. -/
def Pair4.both (f : U32x4 → U32x4 → U32x4) (a b : Pair4) : Pair4 := ⟨f a.lo b.lo, f a.hi b.hi⟩

/-- `vst1q_u32` of both registers. -/
def Pair4.toLanes (v : Pair4) : Vector U32 8 := v.lo ++ v.hi

/-- The quarters of lanes 0..4 and of lanes 4..8. -/
def neonQuarters (p : Vector BytePtr 8) (q : Nat) : Except Fault (Vector Pair4 4) := do
  let lt ← neonQuarter p 0 q
  let ht ← neonQuarter p 4 q
  return Vector.zipWith Pair4.mk lt ht

def gatherNeon8 (debug : Bool) (ptrs : LanePtrs) (n : Nat) : Except Fault (Vector Pair4 16) := do
  debugAssert debug (1 ≤ n ∧ n ≤ 8) "assertion failed: (1..=LANES).contains(&n)"
  let p ← rowPtrs 8 ptrs n
  gatherQuarters ⟨vdupq_n_u32 0, vdupq_n_u32 0⟩ (neonQuarters p)

/-- Two `uint32x4_t` as eight lanes. -/
def Neon8 (debug : Bool) : Wide where
  LANES := 8
  V := Pair4
  splat x := ⟨vdupq_n_u32 x, vdupq_n_u32 x⟩
  splatRef x := ⟨vdupq_n_u32 x, vdupq_n_u32 x⟩
  add := Pair4.both vaddq_u32
  xor := Pair4.both veorq_u32
  and := Pair4.both vandq_u32
  or := Pair4.both vorrq_u32
  not a := ⟨vmvnq_u32 a.lo, vmvnq_u32 a.hi⟩
  rotl a r := ⟨rotlNeon4 a.lo r, rotlNeon4 a.hi r⟩
  toLanes := Pair4.toLanes
  gatherBlock := gatherNeon8 debug

namespace Pair4

theorem lane_lo (v : Pair4) {i : Nat} (hi : i < 8) (h : i < 4) : v.toLanes[i] = v.lo[i] :=
  Vector.getElem_append_left h

theorem lane_hi (v : Pair4) {i : Nat} (hi : i < 8) (h : 4 ≤ i) : v.toLanes[i] = v.hi[i - 4] :=
  Vector.getElem_append_right hi h

theorem lane_ext {v : Pair4} {f : U32 → U32} {a : Pair4}
    (hlo : ∀ i (_ : i < 4), v.lo[i] = f a.lo[i]) (hhi : ∀ i (_ : i < 4), v.hi[i] = f a.hi[i])
    {i : Nat} (hi : i < 8) : v.toLanes[i] = f a.toLanes[i] := by
  by_cases h : i < 4
  · rw [lane_lo v hi h, lane_lo a hi h, hlo i h]
  · rw [lane_hi v hi (by omega), lane_hi a hi (by omega), hhi (i - 4) (by omega)]

theorem lane_both {f : U32x4 → U32x4 → U32x4} {g : U32 → U32 → U32}
    (hf : ∀ a b i (_ : i < 4), (f a b)[i] = g a[i] b[i]) (a b : Pair4) {i : Nat} (hi : i < 8) :
    (both f a b).toLanes[i] = g a.toLanes[i] b.toLanes[i] := by
  by_cases h : i < 4
  · rw [lane_lo _ hi h, lane_lo a hi h, lane_lo b hi h]
    exact hf ..
  · rw [lane_hi _ hi (by omega), lane_hi a hi (by omega), lane_hi b hi (by omega)]
    exact hf ..

theorem lane_const {v : Pair4} {x : U32} (hlo : ∀ i (_ : i < 4), v.lo[i] = x)
    (hhi : ∀ i (_ : i < 4), v.hi[i] = x) {i : Nat} (hi : i < 8) : v.toLanes[i] = x :=
  lane_ext (f := fun _ => x) (a := v) hlo hhi hi

end Pair4

theorem neonQuarters_run {p : Vector BytePtr 8} {blks : Nat → Block} {q : Nat} (hq : q < 4)
    (hp : ∀ i (hi : i < 8), p[i].read 0 64 = .ok (blks i)) :
    ∃ t, neonQuarters p q = .ok t ∧
      ∀ j (_ : j < 4) (_ : 4 * q + j < 16) i (_ : i < 8),
        t[j].toLanes[i] = (loadM (blks i))[4 * q + j] := by
  obtain ⟨lt, hlt, hlow⟩ := neonQuarter_run (show 0 + 4 ≤ 8 by omega) hq hp
  obtain ⟨ht, hht, hhigh⟩ := neonQuarter_run (show 4 + 4 ≤ 8 by omega) hq hp
  refine ⟨Vector.zipWith Pair4.mk lt ht,
    by rw [neonQuarters, Except.bind_ok hlt, Except.bind_ok hht]; rfl, fun j hj hw i hi => ?_⟩
  rw [Vector.getElem_zipWith]
  by_cases h : i < 4
  · rw [Pair4.lane_lo _ hi h, hlow j hj i h hw, Nat.zero_add]
  · rw [Pair4.lane_hi _ hi (by omega), hhigh j hj (i - 4) (by omega) hw,
      show 4 + (i - 4) = i by omega]

/-- **The eight-lane adapter satisfies the lane contract.** -/
theorem lanewise_neon8 (debug : Bool) : Lanewise (Neon8 debug) where
  lanes_pos := show 1 ≤ 8 by decide
  lanes_le := show 8 ≤ 16 by decide
  splat _ i := Pair4.lane_const (fun _ => Vector.getElem_replicate) (fun _ => Vector.getElem_replicate)
    i.isLt
  splatRef _ i := Pair4.lane_const (fun _ => Vector.getElem_replicate)
    (fun _ => Vector.getElem_replicate) i.isLt
  add a b i := Pair4.lane_both (fun _ _ _ => Vector.getElem_zipWith) a b i.isLt
  xor a b i := Pair4.lane_both (fun _ _ _ => Vector.getElem_zipWith) a b i.isLt
  and a b i := Pair4.lane_both (fun _ _ _ => Vector.getElem_zipWith) a b i.isLt
  or a b i := Pair4.lane_both (fun _ _ _ => Vector.getElem_zipWith) a b i.isLt
  not _ i := Pair4.lane_ext (fun _ => Vector.getElem_map _) (fun _ => Vector.getElem_map _) i.isLt
  rotl a r i hr := Pair4.lane_ext (f := (BitVec.rotateLeft · r)) (a := a)
    (fun _ => getElem_rotlNeon4 a.lo (Nat.le_of_lt hr))
    (fun _ => getElem_rotlNeon4 a.hi (Nat.le_of_lt hr)) i.isLt
  gather ptrs n blks h1 hn hread := by
    have hn8 : n ≤ 8 := hn
    obtain ⟨p, hp, hblk⟩ := rowPtrs_run h1 hn8 (show n ≤ 16 by omega) hread
    obtain ⟨m, hm, hwords⟩ := gatherQuarters_run ⟨vdupq_n_u32 0, vdupq_n_u32 0⟩
      (fun w (v : Pair4) => ∀ (_ : w < 16) i (_ : i < 8),
        v.toLanes[i] = (loadM (blks (min i (n - 1))))[w])
      fun q hq => neonQuarters_run hq hblk
    refine ⟨m, ?_, fun w i => hwords w.val w.isLt w.isLt i.val i.isLt⟩
    exact (Except.bind_ok (debugAssert_ok ⟨h1, hn8⟩)).trans ((Except.bind_ok hp).trans hm)

end Md5Simd
