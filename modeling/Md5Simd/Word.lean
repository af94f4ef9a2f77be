import Md5Simd.Lib.Chunks

/-!
# Machine words

Bytes and words are bit vectors. `fromLeBytes` and `toLeBytes` are `u32`'s
conversions, `u64ToLeBytes` is `u64::to_le_bytes`.
-/

namespace Md5Simd

abbrev U8 := BitVec 8
abbrev U32 := BitVec 32
abbrev U64 := BitVec 64

/-- A byte slice, `&[u8]`. -/
abbrev Bytes := List U8

/-- Four chaining words, `[u32; 4]`. -/
abbrev State := Vector U32 4

/-- A 64-byte block, `[u8; 64]`. -/
abbrev Block := Vector U8 64

/-- The sixteen message words of a block. -/
abbrev Words := Vector U32 16

/-- A 16-byte digest. -/
abbrev Digest := Vector U8 16

/-- A slice shorter than a block. -/
abbrev Tail := Lib.Tail U8 64

/-- `&[]`. -/
def emptyTail : Tail := ⟨[], by decide⟩

@[simp] theorem emptyTail_val : emptyTail.val = [] := rfl

/-- `u32::from_le_bytes`. -/
def fromLeBytes (b : Vector U8 4) : U32 :=
  Lib.uncurry4 (fun b0 b1 b2 b3 => b3 ++ b2 ++ b1 ++ b0) b

/-- `u32::to_le_bytes`. -/
def toLeBytes (w : U32) : Vector U8 4 :=
  #v[w.extractLsb' 0 8, w.extractLsb' 8 8, w.extractLsb' 16 8, w.extractLsb' 24 8]

/-- `u64::to_le_bytes`. -/
def u64ToLeBytes (x : U64) : Vector U8 8 := Vector.ofFn fun i => x.extractLsb' (8 * i) 8

theorem fromLeBytes_toLeBytes (w : U32) : fromLeBytes (toLeBytes w) = w := by
  show w.extractLsb' 24 8 ++ w.extractLsb' 16 8 ++ w.extractLsb' 8 8 ++ w.extractLsb' 0 8 = w
  rw [BitVec.extractLsb'_append_extractLsb'_eq_extractLsb' (by rfl),
    BitVec.extractLsb'_append_extractLsb'_eq_extractLsb' (by rfl),
    BitVec.extractLsb'_append_extractLsb'_eq_extractLsb' (by rfl)]
  exact BitVec.extractLsb'_eq_self

theorem toLeBytes_inj {v w : U32} (h : toLeBytes v = toLeBytes w) : v = w := by
  rw [← fromLeBytes_toLeBytes v, h, fromLeBytes_toLeBytes]

/-- The eight bytes of a `u64` determine it. -/
theorem u64ToLeBytes_inj {x y : U64} (h : u64ToLeBytes x = u64ToLeBytes y) : x = y := by
  refine BitVec.eq_of_getLsbD_eq fun i hi => ?_
  have hb : (u64ToLeBytes x)[i / 8] = (u64ToLeBytes y)[i / 8] := by rw [h]
  have hbit := congrArg (·.getLsbD (i % 8)) hb
  simp only [u64ToLeBytes, Vector.getElem_ofFn, BitVec.getLsbD_extractLsb',
    show 8 * (i / 8) + i % 8 = i by omega, show i % 8 < 8 by omega, decide_true,
    Bool.true_and] at hbit
  exact hbit

end Md5Simd
