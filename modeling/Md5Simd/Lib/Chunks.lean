import Md5Simd.Lib.Index

/-!
# Cutting a list into blocks

`blocks n l` are the complete `n`-blocks of `l` in order and `tail n l` is what
remains after them (`<[T]>::as_chunks::<n>`). `join` puts blocks back in a row.

Everything about them follows from one fact: a list has only one way to be
written as `join bs ++ t` with `t` shorter than a block (`blocks_join_append`,
`tail_join_append`). `blocks_append` and `tail_append` are the streaming law:
cutting `a ++ b` is cutting `a`, then cutting the rest of `a` in front of `b`.
-/

namespace Lib

variable {α : Type*} {n : Nat}

/-- A list of known length as a vector. -/
def vecOf (l : List α) (h : l.length = n) : Vector α n := ⟨l.toArray, by simpa using h⟩

@[simp] theorem toList_vecOf (l : List α) (h : l.length = n) : (vecOf l h).toList = l := by
  simp [vecOf, Vector.toList]

@[simp] theorem getElem_vecOf (l : List α) (h : l.length = n) (i : Nat) (hi : i < n) :
    (vecOf l h)[i] = l[i] := by
  simp [vecOf]

/-- A list too short to fill a block. -/
abbrev Tail (α : Type*) (n : Nat) : Type _ := { l : List α // l.length < n }

/-- The first `k` blocks of `n` elements. -/
def takeBlocks (n : Nat) : (k : Nat) → (l : List α) → k * n ≤ l.length → List (Vector α n)
  | 0, _, _ => []
  | k + 1, l, h =>
    vecOf (l.take n) (by rw [Nat.succ_mul] at h; simp; omega) ::
      takeBlocks n k (l.drop n) (by rw [Nat.succ_mul] at h; simp; omega)

/-- The complete blocks of `l`. -/
def blocks (n : Nat) (l : List α) : List (Vector α n) :=
  takeBlocks n (l.length / n) l (Nat.div_mul_le_self _ _)

/-- What is left of `l` after its complete blocks. -/
def tail (n : Nat) [NeZero n] (l : List α) : Tail α n :=
  ⟨l.drop (l.length / n * n), by
    have h := Nat.div_add_mod' l.length n
    have hlt := Nat.mod_lt l.length (Nat.pos_of_neZero n)
    simp only [List.length_drop]; omega⟩

def join (bs : List (Vector α n)) : List α := (bs.map Vector.toList).flatten

@[simp] theorem join_nil : join ([] : List (Vector α n)) = [] := rfl

@[simp] theorem join_cons (b : Vector α n) (bs : List (Vector α n)) :
    join (b :: bs) = b.toList ++ join bs := rfl

@[simp] theorem join_append (as bs : List (Vector α n)) : join (as ++ bs) = join as ++ join bs := by
  simp [join]

@[simp] theorem length_join (bs : List (Vector α n)) : (join bs).length = bs.length * n := by
  induction bs with
  | nil => simp
  | cons b bs ih => simp [ih, Nat.succ_mul]; omega

@[simp] theorem length_takeBlocks (k : Nat) (l : List α) (h : k * n ≤ l.length) :
    (takeBlocks n k l h).length = k := by
  induction k generalizing l with
  | zero => rfl
  | succ k ih => simp [takeBlocks, ih]

@[simp] theorem length_blocks (l : List α) : (blocks n l).length = l.length / n :=
  length_takeBlocks _ _ _

theorem join_takeBlocks (k : Nat) (l : List α) (h : k * n ≤ l.length) :
    join (takeBlocks n k l h) = l.take (k * n) := by
  induction k generalizing l with
  | zero => simp [takeBlocks]
  | succ k ih =>
    rw [takeBlocks, join_cons, ih, toList_vecOf, Nat.succ_mul, Nat.add_comm, List.take_add]

theorem getElem_takeBlocks {k : Nat} {l : List α} {h : k * n ≤ l.length} {i : Nat} (hi : i < k)
    (hi' : i < (takeBlocks n k l h).length) :
    (takeBlocks n k l h)[i].toList = (l.drop (i * n)).take n := by
  induction k generalizing l i with
  | zero => cases hi
  | succ k ih =>
    rcases i with _ | i
    · simp [takeBlocks]
    · simp only [takeBlocks, List.getElem_cons_succ]
      rw [ih (by omega), List.drop_drop, Nat.succ_mul, Nat.add_comm]

theorem getElem_blocks {l : List α} {i : Nat} (hi : i < (blocks n l).length) :
    (blocks n l)[i].toList = (l.drop (i * n)).take n :=
  getElem_takeBlocks (by simpa using hi) hi

theorem join_inj {as bs : List (Vector α n)} (hlen : as.length = bs.length)
    (h : join as = join bs) : as = bs := by
  induction as generalizing bs with
  | nil => exact (List.length_eq_zero_iff.mp hlen.symm).symm
  | cons a as ih =>
    rcases bs with _ | ⟨b, bs⟩
    · cases hlen
    · obtain ⟨hab, hrest⟩ := List.append_inj h (by simp)
      rw [Vector.toList_inj.mp hab, ih (by simpa using hlen) hrest]

variable [NeZero n]

@[simp] theorem length_tail (l : List α) : (tail n l).val.length = l.length % n := by
  have h := Nat.div_add_mod' l.length n
  simp only [tail, List.length_drop]; omega

/-- The blocks and the tail are the list. -/
theorem join_blocks_append_tail (l : List α) : join (blocks n l) ++ (tail n l).val = l := by
  rw [blocks, join_takeBlocks]
  exact List.take_append_drop _ _

/-- The blocks of a list written as blocks and a short rest are those blocks. -/
theorem blocks_join_append (bs : List (Vector α n)) (t : List α) (ht : t.length < n) :
    blocks n (join bs ++ t) = bs := by
  have hq : (join bs ++ t).length / n = bs.length := by
    rw [List.length_append, length_join, Nat.mul_comm, Nat.mul_add_div (Nat.pos_of_neZero n),
      Nat.div_eq_of_lt ht, Nat.add_zero]
  refine join_inj (by rw [length_blocks, hq]) ?_
  rw [blocks, join_takeBlocks, hq, ← length_join bs, List.take_left]

/-- The tail of a list written as blocks and a short rest is that rest. -/
theorem tail_join_append (bs : List (Vector α n)) (t : List α) (ht : t.length < n) :
    (tail n (join bs ++ t)).val = t := by
  have h := join_blocks_append_tail (n := n) (join bs ++ t)
  rw [blocks_join_append bs t ht] at h
  exact List.append_cancel_left h

theorem blocks_of_join (bs : List (Vector α n)) : blocks n (join bs) = bs := by
  simpa using blocks_join_append bs [] (Nat.pos_of_neZero n)

theorem blocks_of_lt {l : List α} (h : l.length < n) : blocks n l = [] := by
  simpa using blocks_join_append (n := n) [] l h

theorem tail_of_lt {l : List α} (h : l.length < n) : (tail n l).val = l := by
  simpa using tail_join_append (n := n) [] l h

theorem tail_of_dvd {l : List α} (h : n ∣ l.length) : (tail n l).val = [] := by
  rw [← List.length_eq_zero_iff, length_tail, Nat.mod_eq_zero_of_dvd h]

theorem blocks_take_full (l : List α) : blocks n (l.take (l.length / n * n)) = blocks n l := by
  have hjoin : join (blocks n l) = l.take (l.length / n * n) := join_takeBlocks _ _ _
  rw [← hjoin, blocks_of_join]

/-- `a ++ b` as the blocks of `a`, those of the rest of `a` with `b`, and a tail. -/
theorem append_eq_join (a b : List α) :
    a ++ b = join (blocks n a ++ blocks n ((tail n a).val ++ b)) ++ (tail n ((tail n a).val ++ b)).val := by
  rw [join_append, List.append_assoc, join_blocks_append_tail, ← List.append_assoc,
    join_blocks_append_tail]

/-- **Streaming, blocks**: cut `a`, then the rest of `a` in front of `b`. -/
theorem blocks_append (a b : List α) :
    blocks n (a ++ b) = blocks n a ++ blocks n ((tail n a).val ++ b) := by
  conv_lhs => rw [append_eq_join (n := n) a b]
  exact blocks_join_append _ _ (tail n _).property

/-- **Streaming, tail**: the tail of `a ++ b` is that of the rest of `a` in front of `b`. -/
theorem tail_append (a b : List α) :
    tail n (a ++ b) = tail n ((tail n a).val ++ b) := by
  apply Subtype.ext
  conv_lhs => rw [append_eq_join (n := n) a b]
  exact tail_join_append _ _ (tail n _).property

theorem tail_append_of_dvd {a : List α} (h : n ∣ a.length) (b : List α) :
    tail n (a ++ b) = tail n b := by
  rw [tail_append, tail_of_dvd h, List.nil_append]

theorem blocks_toList_append (b : Vector α n) (l : List α) :
    blocks n (b.toList ++ l) = b :: blocks n l := by
  have h : b.toList ++ l = join (b :: blocks n l) ++ (tail n l).val := by
    rw [join_cons, List.append_assoc, join_blocks_append_tail]
  rw [h, blocks_join_append _ _ (tail n l).property]

theorem tail_toList_append (b : Vector α n) (l : List α) : tail n (b.toList ++ l) = tail n l :=
  tail_append_of_dvd (by simp) l

end Lib
