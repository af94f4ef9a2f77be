import Md5Simd.Lib.Index

/-!
# Rings of four registers

A round function that rewrites one of four registers from all four is written
in two ways. In place, step `k` rewrites register `dst k` and the destination
walks backwards round the ring (`ringStep`). As a shift register, every step
rewrites the same position and the registers move (`shiftStep`). Seen from the
current destination (`rotateTo`) the two are the same step, so whole runs agree
(`foldl_ringStep`).

`map_ringStep` carries a run along a map of the register type: a run on vectors
projects lane by lane to runs on words.
-/

namespace Lib

variable {α β κ : Type*}

/-- Register `d` receives `g` of the four registers from `d` on. -/
def ringStep (g : α → α → α → α → α) (d : Fin 4) (v : Vector α 4) : Vector α 4 :=
  put v d (g v[d] v[d + 1] v[d + 2] v[d + 3])

/-- `(a, b, c, d)` becomes `(d, g a b c d, b, c)`. -/
def shiftStep (g : α → α → α → α → α) (v : Vector α 4) : Vector α 4 :=
  uncurry4 (fun a b c d => #v[d, g a b c d, b, c]) v

/-- The four registers from `d` on. -/
def rotateTo (d : Fin 4) (v : Vector α 4) : Vector α 4 := #v[v[d], v[d + 1], v[d + 2], v[d + 3]]

/-- The destinations of `ks` walk backwards from `d`. -/
def Descends (dst : κ → Fin 4) : Fin 4 → List κ → Prop
  | _, [] => True
  | d, k :: ks => dst k = d ∧ Descends dst (d - 1) ks

instance (dst : κ → Fin 4) : ∀ (d : Fin 4) (ks : List κ), Decidable (Descends dst d ks)
  | _, [] => .isTrue trivial
  | d, k :: ks =>
    have := instDecidableDescends dst (d - 1) ks
    inferInstanceAs (Decidable (dst k = d ∧ Descends dst (d - 1) ks))

theorem rotateTo_zero (v : Vector α 4) : rotateTo 0 v = v := (vec4_eta v).symm

/-- Seen from the destination, a step in place is a step of the shift register. -/
theorem rotateTo_ringStep (g : α → α → α → α → α) (d : Fin 4) (v : Vector α 4) :
    rotateTo (d - 1) (ringStep g d v) = shiftStep g (rotateTo d v) := by
  rw [vec4_eta v]
  fin_cases d <;> rfl

def destAfter (d : Fin 4) : Nat → Fin 4
  | 0 => d
  | n + 1 => destAfter (d - 1) n

/-- **A run in place is a run of the shift register.** -/
theorem foldl_ringStep (g : κ → α → α → α → α → α) (dst : κ → Fin 4) (ks : List κ) (d : Fin 4)
    (v : Vector α 4) (h : Descends dst d ks) :
    rotateTo (destAfter d ks.length) (ks.foldl (fun v k => ringStep (g k) (dst k) v) v) =
      ks.foldl (fun v k => shiftStep (g k) v) (rotateTo d v) := by
  induction ks generalizing d v with
  | nil => rfl
  | cons k ks ih =>
    obtain ⟨rfl, hks⟩ := h
    rw [List.foldl_cons, List.foldl_cons, ← rotateTo_ringStep]
    exact ih _ _ hks

theorem map_ringStep {φ : α → β} {g : α → α → α → α → α} {g' : β → β → β → β → β}
    (h : ∀ a b c d, φ (g a b c d) = g' (φ a) (φ b) (φ c) (φ d)) (d : Fin 4) (v : Vector α 4) :
    (ringStep g d v).map φ = ringStep g' d (v.map φ) := by
  refine Vector.ext fun i hi => ?_
  simp only [ringStep, Vector.getElem_map, getElem_fin, Vector.getElem_set]
  split
  · rw [h]
  · rfl

/-- A map of registers carries a whole run to the other side. -/
theorem map_foldl_ringStep {φ : α → β} {g : κ → α → α → α → α → α} {g' : κ → β → β → β → β → β}
    (h : ∀ k a b c d, φ (g k a b c d) = g' k (φ a) (φ b) (φ c) (φ d)) (dst : κ → Fin 4)
    (ks : List κ) (v : Vector α 4) :
    (ks.foldl (fun v k => ringStep (g k) (dst k) v) v).map φ =
      ks.foldl (fun v k => ringStep (g' k) (dst k) v) (v.map φ) := by
  induction ks generalizing v with
  | nil => rfl
  | cons k ks ih => rw [List.foldl_cons, List.foldl_cons, ih, map_ringStep (h k)]

end Lib
