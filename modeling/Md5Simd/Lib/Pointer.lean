import Md5Simd.Lib.Chunks
import Md5Simd.Lib.Place

/-!
# Raw pointers into byte strings

A pointer is null or an offset into an allocation, which is the byte string it
holds. Arithmetic past the end of the allocation and reads outside it are
undefined behaviour, so they fault.
-/

namespace Lib

variable {α : Type}

inductive Ptr (α : Type) where
  | null
  | addr (mem : List α) (off : Nat)

namespace Ptr

/-- `xs.as_ptr().add(off)`. -/
def ofSlice (xs : List α) (off : Nat) : Except Fault (Ptr α) :=
  if off ≤ xs.length then .ok (.addr xs off)
  else .error (.undefined "pointer arithmetic past the end of the allocation")

theorem ofSlice_ok {xs : List α} {off : Nat} (h : off ≤ xs.length) :
    ofSlice xs off = .ok (.addr xs off) := if_pos h

/-- The elements from the pointer to the end of its allocation. -/
def rest : Ptr α → List α
  | .null => []
  | .addr mem off => mem.drop off

/-- The pointer addresses `k` elements. -/
def Readable (p : Ptr α) (k : Nat) : Prop := k ≤ p.rest.length

instance (p : Ptr α) (k : Nat) : Decidable (p.Readable k) := inferInstanceAs (Decidable (_ ≤ _))

/-- Read `n` elements from offset `off` on. -/
def read (p : Ptr α) (off n : Nat) : Except Fault (Vector α n) :=
  if h : off + n ≤ p.rest.length then
    .ok (vecOf ((p.rest.drop off).take n) (by simp; omega))
  else
    .error (.undefined "read outside the allocation")

theorem read_ok {p : Ptr α} {off n : Nat} (h : off + n ≤ p.rest.length) :
    p.read off n = .ok (vecOf ((p.rest.drop off).take n) (by simp; omega)) := dif_pos h

theorem readable_of_read {p : Ptr α} {n : Nat} {v : Vector α n} (h : p.read 0 n = .ok v) :
    p.Readable n := by
  by_cases hn : 0 + n ≤ p.rest.length
  · rw [Nat.zero_add] at hn
    exact hn
  · rw [read, dif_neg hn] at h
    cases h

/-- A range of what was read can be read. -/
theorem read_of_read {p : Ptr α} {m off n : Nat} {v : Vector α m} (h : p.read 0 m = .ok v)
    (hm : off + n ≤ m) :
    ∃ u : Vector α n, p.read off n = .ok u ∧ ∀ i (hi : i < n), u[i] = v[off + i] := by
  have hread : 0 + m ≤ p.rest.length := by
    rw [Nat.zero_add]
    exact readable_of_read h
  rw [read_ok hread] at h
  cases h
  refine ⟨_, read_ok (by omega), fun i hi => ?_⟩
  rw [getElem_vecOf, getElem_vecOf, List.getElem_take, List.getElem_drop, List.getElem_take,
    List.getElem_drop]
  congr 1
  omega

end Ptr

end Lib
