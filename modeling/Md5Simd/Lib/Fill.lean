import Md5Simd.Lib.Place

/-!
# Filling an output slice from the front

`fill f xs ys k` is the slice `ys` with its first `k` slots holding the values of
`f` on the first `k` elements of `xs`. It is the loop invariant of a batch
function: a store advances it by one (`store_fill`), a batch on a sub-slice by
the size of the batch (`fill_add`), and at the end every input has its value
and the slots behind the inputs are as they were (`fill_all`).
-/

namespace Lib

variable {α β : Type} {f : α → β} {xs : List α} {ys : List β} {k n : Nat}

def fill (f : α → β) (xs : List α) (ys : List β) (k : Nat) : List β :=
  (xs.take k).map f ++ ys.drop k

@[simp] theorem fill_zero : fill f xs ys 0 = ys := rfl

theorem fill_all : fill f xs ys xs.length = xs.map f ++ ys.drop xs.length := by
  rw [fill, List.take_length]

theorem length_fill (hk : k ≤ xs.length) (h : xs.length ≤ ys.length) :
    (fill f xs ys k).length = ys.length := by
  simp [fill]; omega

/-- A run of inputs moves the boundary over a run of slots. -/
theorem fill_add (hk : k + n ≤ xs.length) :
    fill f xs ys (k + n) = putSlice k n (fill f xs ys k) (((xs.drop k).take n).map f) := by
  have hlen : ((xs.take k).map f).length = k := by simp; omega
  have htake : (fill f xs ys k).take k = (xs.take k).map f := by
    rw [fill, List.take_append_of_le_length (by omega), List.take_of_length_le (by omega)]
  have hdrop : (fill f xs ys k).drop (k + n) = ys.drop (k + n) := by
    rw [fill, List.drop_append, List.drop_of_length_le (by omega), hlen, List.nil_append,
      List.drop_drop]
    congr 1; omega
  rw [putSlice, htake, hdrop, ← List.map_append, ← List.take_add]
  rfl

theorem slot_fill (hk : k < xs.length) (h : xs.length ≤ ys.length) :
    (fill f xs ys k).set k (f xs[k]) = fill f xs ys (k + 1) := by
  have hlen : ((xs.take k).map f).length = k := by simp; omega
  have hcons : ys.drop k = ys[k] :: ys.drop (k + 1) := List.drop_eq_getElem_cons (by omega)
  rw [fill, fill, List.set_append_right _ _ (by omega), hlen, Nat.sub_self, hcons,
    List.set_cons_zero, List.take_succ_eq_append_getElem hk, List.map_append, List.append_assoc]
  rfl

/-- Storing the next value advances the boundary. -/
theorem store_fill (hk : k < xs.length) (h : xs.length ≤ ys.length) {b : β} (hb : b = f xs[k]) :
    store k b (fill f xs ys k) = .ok () (fill f xs ys (k + 1)) := by
  rw [store_ok (by rw [length_fill (by omega) h]; omega), hb, slot_fill hk h]

end Lib
