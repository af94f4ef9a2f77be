import Mathlib

/-!
# Runs of equal elements

`HasRun k a xs`: somewhere in the list `a` stands `k` times in a row. A list is
taken apart by its first run (`hasRun_append`), and in an ordered list the runs of
an element are its occurrences (`hasRun_iff_count`).
-/

namespace Lib

variable {α : Type*}

def HasRun (k : Nat) (a : α) (xs : List α) : Prop := List.replicate k a <:+: xs

variable {a x : α} {xs ys : List α} {j k r : Nat}

theorem HasRun.mono (h : HasRun k a xs) (hjk : j ≤ k) : HasRun j a xs := by
  refine List.IsInfix.trans ⟨[], List.replicate (k - j) a, ?_⟩ h
  rw [List.nil_append, ← List.replicate_add, Nat.add_sub_cancel' hjk]

theorem hasRun_front (r : Nat) (a : α) (ys : List α) : HasRun r a (List.replicate r a ++ ys) :=
  (List.prefix_append _ _).isInfix

theorem HasRun.behind (h : HasRun k x ys) (xs : List α) : HasRun k x (xs ++ ys) :=
  h.trans (List.suffix_append xs ys).isInfix

theorem replicate_append_cons (r : Nat) (a : α) (ys : List α) :
    List.replicate r a ++ a :: ys = List.replicate (r + 1) a ++ ys := by
  rw [List.replicate_succ', List.append_assoc]
  rfl

/-- A run at the front does not reach past the first other element. -/
theorem replicate_prefix_append (hk : 1 ≤ k) (hys : ys.head? ≠ some a) :
    List.replicate k x <+: List.replicate r a ++ ys →
      (x = a ∧ k ≤ r) ∨ List.replicate k x <+: ys := by
  intro h
  obtain ⟨k, rfl⟩ : ∃ j, k = j + 1 := ⟨k - 1, by omega⟩
  rcases r with _ | r
  · exact .inr h
  rw [List.replicate_succ, List.replicate_succ, List.cons_append, List.cons_prefix_cons] at h
  obtain ⟨rfl, h⟩ := h
  refine .inl ⟨rfl, ?_⟩
  -- both sides now start with `x`; the prefix ends where the other element stands
  clear hk
  induction k generalizing r with
  | zero => omega
  | succ k ih =>
    rcases r with _ | r
    · rcases ys with _ | ⟨y, ys⟩
      · simp at h
      · rw [List.replicate_succ, List.replicate_zero, List.nil_append, List.cons_prefix_cons] at h
        exact absurd (congrArg some h.1.symm) hys
    · rw [List.replicate_succ, List.replicate_succ, List.cons_append, List.cons_prefix_cons] at h
      have := ih r h.2
      omega

/-- **The runs of a list** are those inside its first run and those behind it. -/
theorem hasRun_append (hk : 1 ≤ k) (hys : ys.head? ≠ some a) :
    HasRun k x (List.replicate r a ++ ys) ↔ (x = a ∧ k ≤ r) ∨ HasRun k x ys := by
  constructor
  · intro h
    induction r with
    | zero => exact .inr h
    | succ r ih =>
      rw [HasRun, List.replicate_succ, List.cons_append, List.infix_cons_iff, ← List.cons_append,
        ← List.replicate_succ] at h
      rcases h with h | h
      · rcases replicate_prefix_append hk hys h with h | h
        · exact .inl h
        · exact .inr h.isInfix
      · rcases ih h with ⟨rfl, hle⟩ | h
        · exact .inl ⟨rfl, by omega⟩
        · exact .inr h
  · rintro (⟨rfl, hle⟩ | h)
    · exact (hasRun_front r x ys).mono hle
    · exact h.behind _

/-- **Induction run by run.** -/
theorem run_induction {P : List α → Prop} (hnil : P [])
    (hrun : ∀ r a ys, 1 ≤ r → ys.head? ≠ some a → P ys → P (List.replicate r a ++ ys))
    (xs : List α) : P xs := by
  -- with the elements before `xs` that equal its first one
  suffices h : P xs ∧ ∀ a r, 1 ≤ r → P (List.replicate r a ++ xs) from h.1
  induction xs with
  | nil => exact ⟨hnil, fun a r hr => hrun r a [] hr nofun hnil⟩
  | cons x xs ih =>
    have hx : P (x :: xs) := ih.2 x 1 (Nat.le_refl 1)
    refine ⟨hx, fun a r hr => ?_⟩
    by_cases hax : a = x
    · subst hax
      rw [replicate_append_cons]
      exact ih.2 a (r + 1) (Nat.le_add_left 1 r)
    · exact hrun r a (x :: xs) hr (fun h => hax (Option.some.inj h).symm) hx

/-! ## Ordered lists -/

section Ordered

variable [LinearOrder α]

/-- In an ordered list the least element comes first. -/
theorem prefix_replicate_count (hsorted : xs.Pairwise (· ≤ ·)) (hle : ∀ x ∈ xs, a ≤ x) :
    List.replicate (xs.count a) a <+: xs := by
  induction xs with
  | nil => exact List.prefix_rfl
  | cons x xs ih =>
    obtain ⟨hx, hsorted⟩ := List.pairwise_cons.mp hsorted
    by_cases hxa : x = a
    · subst hxa
      rw [List.count_cons_self, List.replicate_succ, List.cons_prefix_cons]
      exact ⟨rfl, ih hsorted hx⟩
    · have hlt : a < x := lt_of_le_of_ne (hle x List.mem_cons_self) (Ne.symm hxa)
      have hnone : a ∉ x :: xs := by
        intro hmem
        rcases List.mem_cons.mp hmem with rfl | hmem
        · exact hxa rfl
        · exact absurd (hx a hmem) (not_le.mpr hlt)
      rw [List.count_eq_zero_of_not_mem hnone]
      exact List.nil_prefix

/-- **In an ordered list the runs of an element are its occurrences.** -/
theorem hasRun_iff_count (hsorted : xs.Pairwise (· ≤ ·)) : HasRun k a xs ↔ k ≤ xs.count a := by
  constructor
  · intro h
    exact List.replicate_sublist_iff.mp h.sublist
  · intro hk
    suffices h : HasRun (xs.count a) a xs from h.mono hk
    clear hk
    induction xs with
    | nil => exact List.infix_rfl
    | cons x xs ih =>
      obtain ⟨hx, hsorted'⟩ := List.pairwise_cons.mp hsorted
      by_cases hxa : x = a
      · subst hxa
        refine (prefix_replicate_count hsorted fun y hy => ?_).isInfix
        rcases List.mem_cons.mp hy with rfl | hy
        · exact le_refl _
        · exact hx y hy
      · rw [List.count_cons_of_ne hxa]
        exact (ih hsorted').trans (List.suffix_cons x xs).isInfix

end Ordered

/-! ## The list of runs -/

section Groups

variable [DecidableEq α]

/-- The runs of a list, from the front. -/
def groups (xs : List α) : List (List α) := xs.splitBy (· == ·)

theorem groups_append (hr : 1 ≤ r) (hys : ys.head? ≠ some a) :
    groups (List.replicate r a ++ ys) = List.replicate r a :: groups ys := by
  have hlast : ∀ x ∈ (List.replicate r a).getLast?, ∀ y ∈ ys.head?, (x == y) = false := by
    intro x hx y hy
    have hxa := List.eq_of_mem_replicate (List.mem_of_getLast? hx)
    rw [beq_eq_false_iff_ne, hxa]
    rintro rfl
    exact hys hy
  have hne : List.replicate r a ≠ [] := List.ne_nil_of_length_pos (by rw [List.length_replicate]; exact hr)
  have hchain : (List.replicate r a).IsChain fun x y => (x == y) = true :=
    List.isChain_replicate_of_rel r (beq_self_eq_true a)
  rw [groups, List.splitBy_append hlast, List.splitBy_of_isChain hne hchain]
  rfl

/-- Some element stands `k` times in a row exactly when some run is that long. -/
theorem exists_hasRun_iff (hk : 1 ≤ k) (xs : List α) :
    (∃ a, HasRun k a xs) ↔ ∃ run ∈ groups xs, k ≤ run.length := by
  induction xs using run_induction with
  | hnil =>
    refine iff_of_false ?_ (by simp [groups])
    rintro ⟨a, hrun⟩
    have := hrun.length_le
    rw [List.length_replicate, List.length_nil] at this
    omega
  | hrun r a ys hr hys ih =>
    simp only [hasRun_append hk hys, groups_append hr hys, exists_or, exists_eq_left, ih,
      List.mem_cons, exists_eq_or_imp, List.length_replicate]

/-- `n` times `a` is a run of `xs`, with `front` before it and `back` behind it. -/
structure RunAt (front : List α) (n : Nat) (a : α) (back xs : List α) : Prop where
  eq : xs = front ++ (List.replicate n a ++ back)
  nonempty : 1 ≤ n
  before : front.getLast? ≠ some a
  behind : back.head? ≠ some a

theorem RunAt.groups_eq {front back : List α} {n : Nat} (h : RunAt front n a back xs) :
    groups xs = groups front ++ List.replicate n a :: groups back := by
  have hlast : ∀ x ∈ front.getLast?, ∀ y ∈ (List.replicate n a ++ back).head?,
      (x == y) = false := by
    intro x hx y hy
    obtain ⟨j, rfl⟩ := Nat.exists_eq_add_of_le' h.nonempty
    obtain rfl : a = y := Option.some.inj hy
    rw [beq_eq_false_iff_ne]
    rintro rfl
    exact h.before hx
  rw [h.eq, ← groups_append h.nonempty h.behind, groups, List.splitBy_append hlast]
  rfl

/-! ## Sums over the runs -/

/-- The sum of `f` over the runs, of an element and the length of its run. -/
def runSum (f : α → Nat → Nat) (xs : List α) : Nat :=
  ((groups xs).map fun run => run.head?.elim 0 (f · run.length)).sum

variable {f g : α → Nat → Nat}

theorem runSum_append (hr : 1 ≤ r) (hys : ys.head? ≠ some a) :
    runSum f (List.replicate r a ++ ys) = f a r + runSum f ys := by
  obtain ⟨j, rfl⟩ := Nat.exists_eq_add_of_le' hr
  rw [runSum, groups_append hr hys, List.map_cons, List.sum_cons, List.length_replicate]
  rfl

theorem runSum_mono (h : ∀ a n, f a n ≤ g a n) (xs : List α) : runSum f xs ≤ runSum g xs := by
  induction xs using run_induction with
  | hnil => exact Nat.le_refl 0
  | hrun r a ys hr hys ih =>
    rw [runSum_append hr hys, runSum_append hr hys]
    exact Nat.add_le_add (h a r) ih

theorem runSum_length (xs : List α) : runSum (fun _ n => n) xs = xs.length := by
  induction xs using run_induction with
  | hnil => rfl
  | hrun r a ys hr hys ih =>
    rw [runSum_append hr hys, ih, List.length_append, List.length_replicate]

theorem runSum_congr (h : ∀ run ∈ groups xs, ∀ a, f a run.length = g a run.length) :
    runSum f xs = runSum g xs := by
  rw [runSum, runSum]
  congr 1
  apply List.map_congr_left
  intro run hrun
  cases run.head? with
  | none => rfl
  | some a => exact h run hrun a

/-- **Runs are at least as much as what they add up to**, when joining runs saves. -/
theorem sum_count_le_runSum (h0 : ∀ a, f a 0 = 0) (hadd : ∀ a m n, f a (m + n) ≤ f a m + f a n)
    (S : Finset α) (xs : List α) : ∑ x ∈ S, f x (xs.count x) ≤ runSum f xs := by
  induction xs using run_induction with
  | hnil => exact Nat.le_of_eq (Finset.sum_eq_zero fun x _ => h0 x)
  | hrun r a ys hr hys ih =>
    have hsplit (x : α) : f x ((List.replicate r a ++ ys).count x) ≤
        (if x = a then f a r else 0) + f x (ys.count x) := by
      rw [List.count_append, List.count_replicate]
      by_cases hxa : x = a
      · subst hxa
        simpa using hadd x r (ys.count x)
      · simp [hxa, Ne.symm hxa]
    calc ∑ x ∈ S, f x ((List.replicate r a ++ ys).count x)
        ≤ ∑ x ∈ S, ((if x = a then f a r else 0) + f x (ys.count x)) :=
          Finset.sum_le_sum fun x _ => hsplit x
      _ = (∑ x ∈ S, if x = a then f a r else 0) + ∑ x ∈ S, f x (ys.count x) :=
          Finset.sum_add_distrib
      _ ≤ f a r + runSum f ys := by
          apply Nat.add_le_add _ ih
          rw [Finset.sum_ite_eq']
          split
          · exact Nat.le_refl _
          · exact Nat.zero_le _
      _ = runSum f (List.replicate r a ++ ys) := (runSum_append hr hys).symm

end Groups

/-- In an ordered list all occurrences of an element are one run. -/
theorem exists_runAt [LinearOrder α] (hsorted : xs.Pairwise (· ≤ ·)) (ha : a ∈ xs) :
    ∃ front back, RunAt front (xs.count a) a back xs ∧ a ∉ front ∧ a ∉ back := by
  obtain ⟨front, back, heq⟩ := (hasRun_iff_count hsorted).mpr (Nat.le_refl (xs.count a))
  have hcount := congrArg (List.count a) heq
  rw [List.count_append, List.count_append, List.count_replicate_self] at hcount
  have hfront : a ∉ front := List.count_eq_zero.mp (by omega)
  have hback : a ∉ back := List.count_eq_zero.mp (by omega)
  refine ⟨front, back, ⟨?_, List.count_pos_iff.mpr ha, ?_, ?_⟩, hfront, hback⟩
  · rw [← List.append_assoc]
    exact heq.symm
  · exact fun h => hfront (List.mem_of_getLast? h)
  · exact fun h => hback (List.mem_of_head? h)

/-- **In an ordered list every element has one run.** -/
theorem runSum_sorted [LinearOrder α] (f : α → Nat → Nat) (hsorted : xs.Pairwise (· ≤ ·)) :
    runSum f xs = ∑ x ∈ xs.toFinset, f x (xs.count x) := by
  induction xs using run_induction with
  | hnil => rfl
  | hrun r a ys hr hys ih =>
    obtain ⟨-, hsorted', hle⟩ := List.pairwise_append.mp hsorted
    have ha : a ∈ List.replicate r a := List.mem_replicate.mpr ⟨by omega, rfl⟩
    have hnone : a ∉ ys := by
      rcases ys with _ | ⟨y, ys⟩
      · exact List.not_mem_nil
      have hay : a ≠ y := fun h => hys (congrArg some h.symm)
      have hlt : a < y := lt_of_le_of_ne (hle a ha y List.mem_cons_self) hay
      intro hmem
      rcases List.mem_cons.mp hmem with h | h
      · exact hay h
      · exact absurd (List.rel_of_pairwise_cons hsorted' h) (not_le.mpr hlt)
    have hset : (List.replicate r a ++ ys).toFinset = insert a ys.toFinset := by
      ext x
      simp [List.mem_replicate, show r ≠ 0 by omega]
    have hrest : ∀ x ∈ ys.toFinset, f x ((List.replicate r a ++ ys).count x) = f x (ys.count x) := by
      intro x hx
      have hxa : a ≠ x := by
        rintro rfl
        exact hnone (List.mem_toFinset.mp hx)
      rw [List.count_append, List.count_replicate, if_neg (by simpa using hxa), Nat.zero_add]
    have hcount : (List.replicate r a ++ ys).count a = r := by
      rw [List.count_append, List.count_replicate_self, List.count_eq_zero_of_not_mem hnone]
      rfl
    rw [runSum_append hr hys, ih hsorted', hset,
      Finset.sum_insert fun h => hnone (List.mem_toFinset.mp h), hcount,
      Finset.sum_congr rfl hrest]

end Lib
