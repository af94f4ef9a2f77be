import Mathlib

/-!
# Positions of arrays

A `Fin n` is a position of an array of `n` entries; reading and writing there
asks for no proof. `uncurry4` reads all entries of an array of four.
-/

namespace Lib

variable {α β : Type*} {n : Nat}

instance instGetElemVectorFin : GetElem (Vector α n) (Fin n) α fun _ _ => True where
  getElem v i _ := v.get i

@[simp] theorem getElem_fin (v : Vector α n) (i : Fin n) : v[i] = v[i.val] := rfl

/-- `v[i] = a`. -/
abbrev put (v : Vector α n) (i : Fin n) (a : α) : Vector α n := v.set i a

-- Numerals of `Fin 4`, `Fin 16`, `Fin 64` go through these instances in every module.
instance instNeZero4 : NeZero 4 := ⟨by decide⟩

instance instNeZero16 : NeZero 16 := ⟨by decide⟩

instance instNeZero64 : NeZero 64 := ⟨by decide⟩

/-- `f` on the entries of an array of four. -/
abbrev uncurry4 (f : α → α → α → α → β) (v : Vector α 4) : β := f v[0] v[1] v[2] v[3]

theorem vec4_ext {u v : Vector α 4} (h0 : u[0] = v[0]) (h1 : u[1] = v[1]) (h2 : u[2] = v[2])
    (h3 : u[3] = v[3]) : u = v := by
  refine Vector.ext fun i hi => ?_
  obtain rfl | rfl | rfl | rfl : i = 0 ∨ i = 1 ∨ i = 2 ∨ i = 3 := by omega
  · exact h0
  · exact h1
  · exact h2
  · exact h3

theorem vec4_eta (v : Vector α 4) : v = uncurry4 (fun a b c d => #v[a, b, c, d]) v :=
  vec4_ext rfl rfl rfl rfl

end Lib
