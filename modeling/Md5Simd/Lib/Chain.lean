import Mathlib

/-!
# Iterated compression

A compressor `f : σ → β → σ` is iterated over blocks by `List.foldl`. `feeds`
lists the pairs `f` is called on. `exists_collision` is the Merkle–Damgård
argument: two block sequences, neither a suffix of the other, that end in the
same state must have fed `f` two distinct pairs with one value. Walking the two
chains back from the end, either the last pairs differ, or they agree and the
states before them agree.
-/

namespace Lib

variable {σ β : Type*}

/-- The pairs `f` is called on while it absorbs `bs` from `s`. -/
def feeds (f : σ → β → σ) : σ → List β → List (σ × β)
  | _, [] => []
  | s, b :: bs => (s, b) :: feeds f (f s b) bs

theorem feeds_append (f : σ → β → σ) (s : σ) (as bs : List β) :
    feeds f s (as ++ bs) = feeds f s as ++ feeds f (as.foldl f s) bs := by
  induction as generalizing s with
  | nil => rfl
  | cons a as ih => simp [feeds, ih]

theorem length_feeds (f : σ → β → σ) (s : σ) (bs : List β) : (feeds f s bs).length = bs.length := by
  induction bs generalizing s with
  | nil => rfl
  | cons b bs ih => rw [feeds, List.length_cons, List.length_cons, ih]

theorem map_snd_feeds (f : σ → β → σ) (s : σ) (bs : List β) : (feeds f s bs).map Prod.snd = bs := by
  induction bs generalizing s with
  | nil => rfl
  | cons b bs ih => rw [feeds, List.map_cons, ih]

/-- The last call of a non-empty chain is on the state before it. -/
theorem last_mem_feeds (f : σ → β → σ) (s : σ) (bs : List β) (b : β) :
    (bs.foldl f s, b) ∈ feeds f s (bs ++ [b]) := by
  rw [feeds_append]
  exact List.mem_append_right _ (List.mem_singleton.mpr rfl)

theorem feeds_subset_append (f : σ → β → σ) (s : σ) (as bs : List β) :
    feeds f s as ⊆ feeds f s (as ++ bs) := by
  rw [feeds_append]
  exact List.subset_append_left _ _

theorem suffix_concat {as bs : List β} {b : β} (h : as <:+ bs) : as ++ [b] <:+ bs ++ [b] := by
  obtain ⟨t, rfl⟩ := h
  exact ⟨t, (List.append_assoc ..).symm⟩

/-- **Merkle–Damgård**: equal ends of two suffix-free chains come from a collision of `f`. -/
theorem exists_collision (f : σ → β → σ) (s : σ) (as bs : List β)
    (hab : ¬ as <:+ bs) (hba : ¬ bs <:+ as) (h : as.foldl f s = bs.foldl f s) :
    ∃ p ∈ feeds f s as, ∃ q ∈ feeds f s bs, p ≠ q ∧ f p.1 p.2 = f q.1 q.2 := by
  induction as using List.reverseRecOn generalizing bs with
  | nil => exact absurd List.nil_suffix hab
  | append_singleton as a ih =>
    rcases List.eq_nil_or_concat' bs with rfl | ⟨bs, b, rfl⟩
    · exact absurd List.nil_suffix hba
    rw [List.foldl_concat, List.foldl_concat] at h
    by_cases hne : (as.foldl f s, a) = (bs.foldl f s, b)
    · -- equal last calls: the chains before them end in one state
      obtain ⟨hs, rfl⟩ := Prod.mk.inj hne
      obtain ⟨p, hp, q, hq, hpq⟩ := ih bs (fun h => hab (suffix_concat h))
        (fun h => hba (suffix_concat h)) hs
      exact ⟨p, feeds_subset_append _ _ _ _ hp, q, feeds_subset_append _ _ _ _ hq, hpq⟩
    · exact ⟨_, last_mem_feeds f s as a, _, last_mem_feeds f s bs b, hne, h⟩

theorem foldl_congr_fun {f g : σ → β → σ} (h : ∀ s b, f s b = g s b) (s : σ) (bs : List β) :
    bs.foldl f s = bs.foldl g s := by
  rw [show f = g from funext fun s => funext (h s)]

end Lib
