import Md5Simd.Simd.Wide

/-!
# Vector registers and intrinsics

A register is its `u32` lanes, lane 0 first. Each intrinsic the adapters call is
defined here by its documented meaning: lane by lane for the arithmetic, within
128-bit halves for the unpacks. Loads and stores are little-endian.

The second half is what the four gathers share: the lane pointers, the rows read
through them and the loops over the words of a block.
-/

namespace Md5Simd

open Lib

/-! ## Registers -/

/-- `uint32x4_t`. -/
abbrev U32x4 := Vector U32 4

/-- `uint32x2_t`. -/
abbrev U32x2 := Vector U32 2

/-- `__m256i`. -/
abbrev M256 := Vector U32 8

/-- `__m512i`. -/
abbrev M512 := Vector U32 16

section Lanes

variable {n : Nat}

/-- Shift left by an immediate. -/
def shlImm (a : Vector U32 n) (imm : Nat) : Vector U32 n := a.map fun x : U32 => x <<< imm

/-- Logical shift right by an immediate. -/
def shrImm (a : Vector U32 n) (imm : Nat) : Vector U32 n := a.map fun x : U32 => x >>> imm

/-- `f` on the lanes of a vector of eight. -/
abbrev uncurry8 {α β : Type} (f : α → α → α → α → α → α → α → α → β) (v : Vector α 8) : β :=
  f v[0] v[1] v[2] v[3] v[4] v[5] v[6] v[7]

/-- Load `n` words from byte offset `off` of a pointer. -/
def loadWords (n : Nat) (p : BytePtr) (off : Nat) : Except Fault (Vector U32 n) := do
  let bytes ← p.read off (4 * n)
  return Vector.ofFn fun i => fromLeBytes
    #v[bytes[4 * i.val], bytes[4 * i.val + 1], bytes[4 * i.val + 2], bytes[4 * i.val + 3]]

/-- The words of a range of a block. -/
theorem loadWords_run {p : BytePtr} {blk : Block} {w : Nat} (h : p.read 0 64 = .ok blk)
    (hw : w + n ≤ 16) :
    ∃ v, loadWords n p (4 * w) = .ok v ∧ ∀ j (hj : j < n), v[j] = (loadM blk)[w + j] := by
  obtain ⟨u, hu, hbytes⟩ := Ptr.read_of_read h (show 4 * w + 4 * n ≤ 64 by omega)
  refine ⟨_, by rw [loadWords, Except.bind_ok hu]; rfl, fun j hj => ?_⟩
  simp only [loadM, Vector.getElem_ofFn, hbytes, Nat.mul_add, Nat.add_assoc]

end Lanes

/-! ## NEON -/

def vdupq_n_u32 (x : U32) : U32x4 := Vector.replicate 4 x

def vdupq_n_s32 (x : U32) : U32x4 := Vector.replicate 4 x

def vaddq_u32 (a b : U32x4) : U32x4 := Vector.zipWith (· + ·) a b

def veorq_u32 (a b : U32x4) : U32x4 := Vector.zipWith (· ^^^ ·) a b

def vandq_u32 (a b : U32x4) : U32x4 := Vector.zipWith (· &&& ·) a b

def vorrq_u32 (a b : U32x4) : U32x4 := Vector.zipWith (· ||| ·) a b

def vmvnq_u32 (a : U32x4) : U32x4 := a.map (~~~ ·)

def vshlq_n_u32 : U32x4 → Nat → U32x4 := shlImm

def vshrq_n_u32 : U32x4 → Nat → U32x4 := shrImm

/-- `USHL`: shift by the signed low byte of `s`, to the right when it is negative. -/
def ushl (a s : U32) : U32 :=
  let k := (s.setWidth 8).toInt
  if 0 ≤ k then a <<< k.toNat else a >>> (-k).toNat

def vshlq_u32 (a s : U32x4) : U32x4 := Vector.zipWith ushl a s

def vtrnq_u32 (a b : U32x4) : U32x4 × U32x4 :=
  uncurry4 (fun a0 a1 a2 a3 =>
    uncurry4 (fun b0 b1 b2 b3 => (#v[a0, b0, a2, b2], #v[a1, b1, a3, b3])) b) a

def vget_low_u32 (a : U32x4) : U32x2 := uncurry4 (fun a0 a1 _ _ => #v[a0, a1]) a

def vget_high_u32 (a : U32x4) : U32x2 := uncurry4 (fun _ _ a2 a3 => #v[a2, a3]) a

def vcombine_u32 (lo hi : U32x2) : U32x4 := lo ++ hi

/-! ## AVX2 -/

def mm256_set1_epi32 (x : U32) : M256 := Vector.replicate 8 x

def mm256_add_epi32 (a b : M256) : M256 := Vector.zipWith (· + ·) a b

def mm256_xor_si256 (a b : M256) : M256 := Vector.zipWith (· ^^^ ·) a b

def mm256_and_si256 (a b : M256) : M256 := Vector.zipWith (· &&& ·) a b

def mm256_or_si256 (a b : M256) : M256 := Vector.zipWith (· ||| ·) a b

def mm256_slli_epi32 : M256 → Nat → M256 := shlImm

def mm256_srli_epi32 : M256 → Nat → M256 := shrImm

/-- Each lane shifts by the lane of `s`; from 32 on it is zero. -/
def mm256_sllv_epi32 (a s : M256) : M256 := Vector.zipWith (fun x k => x <<< k.toNat) a s

def mm256_srlv_epi32 (a s : M256) : M256 := Vector.zipWith (fun x k => x >>> k.toNat) a s

def mm256_unpacklo_epi32 (a b : M256) : M256 :=
  #v[a[0], b[0], a[1], b[1], a[4], b[4], a[5], b[5]]

def mm256_unpackhi_epi32 (a b : M256) : M256 :=
  #v[a[2], b[2], a[3], b[3], a[6], b[6], a[7], b[7]]

def mm256_unpacklo_epi64 (a b : M256) : M256 :=
  #v[a[0], a[1], b[0], b[1], a[4], a[5], b[4], b[5]]

def mm256_unpackhi_epi64 (a b : M256) : M256 :=
  #v[a[2], a[3], b[2], b[3], a[6], a[7], b[6], b[7]]

/-- The 128-bit half a control nibble of `permute2x128` selects. -/
def select128 (a b : M256) (control : BitVec 4) : U32x4 :=
  if control.getLsbD 3 then Vector.replicate 4 0
  else match control.setWidth 2 with
    | 0#2 => #v[a[0], a[1], a[2], a[3]]
    | 1#2 => #v[a[4], a[5], a[6], a[7]]
    | 2#2 => #v[b[0], b[1], b[2], b[3]]
    | _ => #v[b[4], b[5], b[6], b[7]]

def mm256_permute2x128_si256 (imm : BitVec 8) (a b : M256) : M256 :=
  select128 a b (imm.extractLsb' 0 4) ++ select128 a b (imm.extractLsb' 4 4)

/-! ## AVX-512F -/

def mm512_set1_epi32 (x : U32) : M512 := Vector.replicate 16 x

def mm512_add_epi32 (a b : M512) : M512 := Vector.zipWith (· + ·) a b

def mm512_xor_si512 (a b : M512) : M512 := Vector.zipWith (· ^^^ ·) a b

def mm512_and_si512 (a b : M512) : M512 := Vector.zipWith (· &&& ·) a b

def mm512_or_si512 (a b : M512) : M512 := Vector.zipWith (· ||| ·) a b

def mm512_slli_epi32 : M512 → Nat → M512 := shlImm

def mm512_srli_epi32 : M512 → Nat → M512 := shrImm

def mm512_sllv_epi32 (a s : M512) : M512 := Vector.zipWith (fun x k => x <<< k.toNat) a s

def mm512_srlv_epi32 (a s : M512) : M512 := Vector.zipWith (fun x k => x >>> k.toNat) a s

/-- The upper half is undefined; `upper` is what it holds. -/
def mm512_castsi256_si512 (upper a : M256) : M512 := a ++ upper

/-- Replace the 256-bit half that `imm` selects. -/
def mm512_inserti64x4 (a : M512) (b : M256) (imm : BitVec 1) : M512 :=
  Vector.ofFn fun i =>
    if i.val / 8 = imm.toNat then b[i.val % 8] else a[i]

/-! ## Rotations -/

/-- The amounts that rotate by immediate shifts. -/
def immRotations : List Nat := [4, 5, 6, 7, 9, 10, 11, 12, 14, 15, 16, 17, 20, 21, 22, 23]

/-- Two shifts that rotate. -/
theorem shifts_rotate {r : Nat} (hr : r ≤ 32) (x : U32) :
    x <<< r ||| x >>> (32 - r) = x.rotateLeft r := by
  rcases Nat.lt_or_eq_of_le hr with hlt | rfl
  · rw [BitVec.rotateLeft_eq_rotateLeftAux_of_lt hlt, BitVec.rotateLeftAux]
  · have hzero : x >>> 32 = 0#32 := BitVec.ushiftRight_eq_zero (Nat.le_refl 32)
    simp [BitVec.rotateLeft, BitVec.rotateLeftAux, hzero]

/-- The left shift of the variable arm. -/
theorem ushl_left {r : Nat} (hr : r ≤ 32) (x : U32) : ushl x (BitVec.ofNat 32 r) = x <<< r := by
  have h : ∀ r : Fin 33, ((BitVec.ofNat 32 r.val).setWidth 8).toInt = r.val := by decide
  rw [ushl, h ⟨r, by omega⟩]
  exact if_pos (Int.natCast_nonneg _)

/-- The right shift of the variable arm. -/
theorem ushl_right {r : Nat} (hr : r ≤ 32) (x : U32) :
    ushl x (BitVec.ofNat 32 r - 32) = x >>> (32 - r) := by
  have h : ∀ r : Fin 33, ((BitVec.ofNat 32 r.val - 32).setWidth 8).toInt = (r.val : Int) - 32 := by
    decide
  rw [ushl, h ⟨r, by omega⟩]
  rcases Nat.lt_or_eq_of_le hr with hlt | rfl
  · rw [if_neg (by simp; omega), show (-((r : Int) - 32)).toNat = 32 - r by omega]
  · simp

/-! ## Rows of a gather -/

/-- The pointers of all `L` lanes: the first `n`, and the last of them again. -/
def rowPtrs (L : Nat) (ptrs : LanePtrs) (n : Nat) : Except Fault (Vector BytePtr L) := do
  if n = 0 then throw (.panic "attempt to subtract with overflow")
  let last ← indexVec ptrs (n - 1)
  (List.range n).foldlM (fun p i => do
    let ptr ← indexVec ptrs i
    setVec p i ptr) (Vector.replicate L last)

/-- Rows of `width` words at byte offset `off`, through the pointers from `base` on. -/
def loadRows {L : Nat} (k width : Nat) (p : Vector BytePtr L) (base off : Nat) :
    Except Fault (Vector (Vector U32 width) k) :=
  (List.range k).foldlM (fun rows i => do
    let ptr ← indexVec p (base + i)
    let row ← loadWords width ptr off
    setVec rows i row) (Vector.replicate k (Vector.replicate width 0))

/-- Sixteen word vectors, four at a time. -/
def gatherQuarters {V : Type} (zero : V) (quarter : Nat → Except Fault (Vector V 4)) :
    Except Fault (Vector V 16) :=
  (List.range 4).foldlM (fun m q => do
    let t ← quarter q
    copyInto m (4 * q) t.toList) (Vector.replicate 16 zero)

section Rows

variable {L n : Nat} {ptrs : LanePtrs} {blks : Nat → Block}

/-- Every lane has the pointer of its block, the lanes behind the last block that of the last. -/
theorem rowPtrs_run (h1 : 1 ≤ n) (hn : n ≤ L) (h16 : n ≤ MAX_LANES)
    (hread : ∀ i : Fin MAX_LANES, i.val < n → ptrs[i].read 0 64 = .ok (blks i)) :
    ∃ p, rowPtrs L ptrs n = .ok p ∧
      ∀ i (hi : i < L), p[i].read 0 64 = .ok (blks (min i (n - 1))) := by
  have hlast : n - 1 < MAX_LANES := by omega
  obtain ⟨p, hrun, hfirst, hrest⟩ := foldlM_entries hn
    (f := fun (p : Vector BytePtr L) i => do
      let ptr ← indexVec ptrs i
      setVec p i ptr)
    (v := Vector.replicate L ptrs[n - 1])
    (fun i ptr => ptr.read 0 64 = .ok (blks i)) fun p i hi _ => by
      have hi16 : i < MAX_LANES := by omega
      refine ⟨ptrs[i], ?_, hread ⟨i, hi16⟩ hi⟩
      rw [Except.bind_ok (indexVec_ok hi16), setVec_ok (by omega)]
  refine ⟨p, ?_, fun i hi => ?_⟩
  · rw [rowPtrs, if_neg (by omega)]
    exact (Except.bind_ok (indexVec_ok hlast)).trans hrun
  by_cases hin : i < n
  · rw [show min i (n - 1) = i by omega]
    exact hfirst i hin
  · rw [hrest i hi (by omega), Vector.getElem_replicate, show min i (n - 1) = n - 1 by omega]
    exact hread ⟨n - 1, hlast⟩ (show n - 1 < n by omega)

theorem loadRows_run {p : Vector BytePtr L} (k width : Nat) {base w : Nat} (hbase : base + k ≤ L)
    (hw : w + width ≤ 16) (hp : ∀ i (hi : i < L), p[i].read 0 64 = .ok (blks i)) :
    ∃ rows, loadRows k width p base (4 * w) = .ok rows ∧
      ∀ i (hi : i < k) j (hj : j < width), rows[i][j] = (loadM (blks (base + i)))[w + j] := by
  obtain ⟨rows, hrun, hrows, -⟩ := foldlM_entries (Nat.le_refl k)
    (f := fun (rows : Vector (Vector U32 width) k) i => do
      let ptr ← indexVec p (base + i)
      let row ← loadWords width ptr (4 * w)
      setVec rows i row)
    (v := Vector.replicate k (Vector.replicate width 0))
    (fun i row => ∀ j (hj : j < width), row[j] = (loadM (blks (base + i)))[w + j])
    fun rows i hi _ => by
      have hptr : base + i < L := by omega
      obtain ⟨row, hrow, hwords⟩ := loadWords_run (hp _ hptr) hw
      refine ⟨row, ?_, hwords⟩
      rw [Except.bind_ok (indexVec_ok hptr), Except.bind_ok hrow, setVec_ok hi]
  exact ⟨rows, hrun, hrows⟩

/-- Quarters with the right words make a gather with the right words. -/
theorem gatherQuarters_run {V : Type} (zero : V) {quarter : Nat → Except Fault (Vector V 4)}
    (Word : Nat → V → Prop)
    (hquarter : ∀ q, q < 4 → ∃ t, quarter q = .ok t ∧ ∀ j (hj : j < 4), Word (4 * q + j) t[j]) :
    ∃ m, gatherQuarters zero quarter = .ok m ∧ ∀ w (hw : w < 16), Word w m[w] := by
  obtain ⟨m, hrun, hm⟩ := foldlM_range
    (f := fun (m : Vector V 16) q => do
      let t ← quarter q
      copyInto m (4 * q) t.toList)
    (s := Vector.replicate 16 zero)
    (fun k m => ∀ w (hw : w < 16), w < 4 * k → Word w m[w])
    4 (fun w _ hw => absurd hw (Nat.not_lt_zero w)) fun k m hk hm => by
      obtain ⟨t, ht, hwords⟩ := hquarter k hk
      have hlen : t.toList.length = 4 := t.length_toList
      refine ⟨_, by rw [Except.bind_ok ht, copyInto_ok (by omega)], fun w hw hwk => ?_⟩
      by_cases hlt : w < 4 * k
      · rw [getElem_overwrite_of_lt hw hlt]
        exact hm w hw hlt
      · have := hwords (w - 4 * k) (by omega)
        rw [show 4 * k + (w - 4 * k) = w by omega] at this
        rw [getElem_overwrite hw (by omega) (by omega), Vector.getElem_toList]
        exact this
  exact ⟨m, hrun, fun w hw => hm w hw (by omega)⟩

end Rows

end Md5Simd
