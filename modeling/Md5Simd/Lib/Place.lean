import Md5Simd.Lib.Index

/-!
# Computations on places

A function with a `&mut σ` argument is a computation `EStateM Fault σ α`: it
reads and writes the place, and when it faults the place keeps what was written
before. A function that only reads and may fault is an `Except Fault α`, lifted
with `liftE`.

`zoom` runs a computation on a part of the place, `onSlice lo k` on the slice
`lo..lo + k` of a list. `bind_ok` steps over a computation whose result is
known, `foldlM_range` is the invariant rule of a `for` loop over `0..k`, and
`foldlM_entries` that of a loop that fills an array entry by entry.
-/

namespace Lib

/-- How a computation stops short. -/
inductive Fault where
  /-- A panic, with its message. -/
  | panic (msg : String)
  /-- Undefined behaviour: an operation outside its safety contract. -/
  | undefined (what : String)
  deriving DecidableEq, Repr

/-- What `assert_eq!` prints when it fails, with the words of its caller if there are any. -/
def assertEqText (left right : Nat) (args : Option String) : String :=
  "assertion `left == right` failed" ++ args.elim "" (": " ++ ·) ++
    "\n  left: " ++ toString left ++ "\n right: " ++ toString right

variable {ε σ τ α β : Type}

/-- A read-only computation on a place. -/
def liftE (x : Except ε α) : EStateM ε σ α := fun s =>
  match x with
  | .ok a => .ok a s
  | .error e => .error e s

@[simp] theorem liftE_ok (a : α) (s : σ) : (liftE (.ok a) : EStateM ε σ α) s = .ok a s := rfl

theorem bind_ok {m : EStateM ε σ α} {f : α → EStateM ε σ β} {s s' : σ} {a : α}
    (h : m s = .ok a s') : (m >>= f) s = f a s' := by
  show EStateM.bind m f s = _
  simp [EStateM.bind, h]

theorem liftE_ok_bind (a : α) (f : α → EStateM ε σ β) : (liftE (.ok a) >>= f) = f a :=
  funext fun s => bind_ok (liftE_ok a s)

/-- A computation that returns went through a computation that returned. -/
theorem bind_eq_ok {m : EStateM ε σ α} {f : α → EStateM ε σ β} {s s' : σ} {b : β}
    (h : (m >>= f) s = .ok b s') : ∃ a t, m s = .ok a t ∧ f a t = .ok b s' := by
  change EStateM.bind m f s = _ at h
  unfold EStateM.bind at h
  split at h
  · exact ⟨_, _, by assumption, h⟩
  · cases h

theorem exists_ok_iff {m : EStateM ε σ α} {s s' : σ} {a : α} {P : σ → Prop} (h : m s = .ok a s') :
    (∃ t, m s = .ok a t ∧ P t) ↔ P s' := by
  constructor
  · rintro ⟨t, ht, hP⟩
    rw [h] at ht
    cases ht
    exact hP
  · intro hP
    exact ⟨s', h, hP⟩

theorem liftE_eq_ok {x : Except ε α} {s s' : σ} {a : α}
    (h : (liftE x : EStateM ε σ α) s = .ok a s') : x = .ok a ∧ s' = s := by
  rcases x with e | a'
  · cases h
  · cases h
    exact ⟨rfl, rfl⟩

theorem modify_run (g : σ → σ) (s : σ) :
    (modify g : EStateM ε σ PUnit) s = .ok ⟨⟩ (g s) := rfl

theorem get_run (s : σ) : (get : EStateM ε σ σ) s = .ok s s := rfl

theorem Except.bind_ok {x : Except ε α} {f : α → Except ε β} {a : α} (h : x = .ok a) :
    (x >>= f) = f a := by
  subst h; rfl

theorem Except.bind_eq_ok {x : Except ε α} {f : α → Except ε β} {b : β} :
    (x >>= f) = .ok b ↔ ∃ a, x = .ok a ∧ f a = .ok b := by
  rcases x with e | a
  · simp [bind, Except.bind]
  · simp [bind, Except.bind]

theorem Except.map_eq_ok {x : Except ε α} {f : α → β} {b : β} :
    x.map f = .ok b ↔ ∃ a, x = .ok a ∧ f a = b := by
  rcases x with e | a
  · simp [Except.map]
  · simp [Except.map]

/-- Run a computation on the part `view s` of the place. -/
def zoom (view : σ → τ) (put : σ → τ → σ) (m : EStateM ε τ α) : EStateM ε σ α := fun s =>
  match m (view s) with
  | .ok a t => .ok a (put s t)
  | .error e t => .error e (put s t)

theorem zoom_ok {view : σ → τ} {put : σ → τ → σ} {m : EStateM ε τ α} {s : σ} {t : τ} {a : α}
    (h : m (view s) = .ok a t) : zoom view put m s = .ok a (put s t) := by
  simp [zoom, h]

theorem zoom_eq_ok {view : σ → τ} {put : σ → τ → σ} {m : EStateM ε τ α} {s s' : σ} {a : α}
    (h : zoom view put m s = .ok a s') : ∃ t, m (view s) = .ok a t ∧ s' = put s t := by
  unfold zoom at h
  split at h
  · cases h
    exact ⟨_, by assumption, rfl⟩
  · cases h

/-! ## Slices -/

/-- `xs[i]`. -/
def index (xs : List α) (i : Nat) : Except Fault α :=
  match xs[i]? with
  | some a => .ok a
  | none => .error (.panic "index out of bounds")

theorem index_ok {xs : List α} {i : Nat} (h : i < xs.length) : index xs i = .ok xs[i] := by
  simp [index, h]

/-- `xs[i]` of an array. -/
def indexVec {n : Nat} (xs : Vector α n) (i : Nat) : Except Fault α :=
  if h : i < n then .ok xs[i] else .error (.panic "index out of bounds")

theorem indexVec_ok {n : Nat} {xs : Vector α n} {i : Nat} (h : i < n) :
    indexVec xs i = .ok xs[i] := dif_pos h

/-- `xs[i] = a` of an array. -/
def setVec {n : Nat} (xs : Vector α n) (i : Nat) (a : α) : Except Fault (Vector α n) :=
  if h : i < n then .ok (xs.set i a) else .error (.panic "index out of bounds")

theorem setVec_ok {n : Nat} {xs : Vector α n} {i : Nat} {a : α} (h : i < n) :
    setVec xs i a = .ok (xs.set i a) := dif_pos h

/-- `&xs[lo..lo + k]`. -/
def slice (xs : List α) (lo k : Nat) : Except Fault (List α) :=
  if lo + k ≤ xs.length then .ok ((xs.drop lo).take k)
  else .error (.panic "range end index out of range")

theorem slice_ok {xs : List α} {lo k : Nat} (h : lo + k ≤ xs.length) :
    slice xs lo k = .ok ((xs.drop lo).take k) := if_pos h

/-- `xs[i] = a` on the place `xs`. -/
def store (i : Nat) (a : α) : EStateM Fault (List α) Unit := fun xs =>
  if i < xs.length then .ok () (xs.set i a) else .error (.panic "index out of bounds") xs

theorem store_ok {xs : List α} {i : Nat} {a : α} (h : i < xs.length) :
    store i a xs = .ok () (xs.set i a) := if_pos h

/-- Run a computation on `xs[i]`, a place inside the place `xs`. -/
def onElem (i : Nat) (m : EStateM Fault α β) : EStateM Fault (List α) β := fun xs =>
  match xs[i]? with
  | some a => zoom (fun _ => a) (fun xs a => xs.set i a) m xs
  | none => .error (.panic "index out of bounds") xs

theorem onElem_ok {i : Nat} {m : EStateM Fault α β} {xs : List α} {a : α} {b : β}
    (h : i < xs.length) (hm : m xs[i] = .ok b a) : onElem i m xs = .ok b (xs.set i a) := by
  simp only [onElem, List.getElem?_eq_getElem h]
  exact zoom_ok hm

/-- Replace the slice `lo..lo + k` by `mid`. -/
def putSlice (lo k : Nat) (xs mid : List α) : List α := xs.take lo ++ mid ++ xs.drop (lo + k)

theorem length_putSlice {lo k : Nat} {xs mid : List α} (hmid : mid.length = k)
    (h : lo + k ≤ xs.length) : (putSlice lo k xs mid).length = xs.length := by
  simp [putSlice, hmid]; omega

/-- Run a computation on the slice `lo..lo + k` of the place. -/
def onSlice (lo k : Nat) (m : EStateM Fault (List α) β) : EStateM Fault (List α) β := fun xs =>
  if lo + k ≤ xs.length then zoom (fun xs => (xs.drop lo).take k) (putSlice lo k) m xs
  else .error (.panic "range end index out of range") xs

theorem onSlice_ok {lo k : Nat} {m : EStateM Fault (List α) β} {xs mid : List α} {b : β}
    (h : lo + k ≤ xs.length) (hm : m ((xs.drop lo).take k) = .ok b mid) :
    onSlice lo k m xs = .ok b (putSlice lo k xs mid) := by
  rw [onSlice, if_pos h]
  exact zoom_ok hm

/-! ## Copies into an array -/

/-- `v[off..off + src.len()].copy_from_slice(src)`, the range being inside `v`. -/
def overwrite {n : Nat} (v : Vector α n) (off : Nat) (src : List α) : Vector α n :=
  Vector.ofFn fun i =>
    if h : off ≤ i.val ∧ i.val < off + src.length then src[i.val - off] else v[i]

theorem toList_overwrite {n : Nat} {v : Vector α n} {off : Nat} {src : List α}
    (h : off + src.length ≤ n) : (overwrite v off src).toList = putSlice off src.length v.toList src := by
  refine List.ext_getElem (by simp [putSlice]; omega) fun i hi hi' => ?_
  simp only [Vector.length_toList] at hi
  simp only [overwrite, putSlice, Vector.getElem_toList, Vector.getElem_ofFn, List.append_assoc]
  by_cases h1 : i < off
  · rw [dif_neg (by omega), List.getElem_append_left (by simp; omega)]
    simp
  by_cases h2 : i < off + src.length
  · rw [dif_pos ⟨by omega, h2⟩, List.getElem_append_right (by simp; omega),
      List.getElem_append_left (by simp; omega)]
    simp only [List.length_take, Vector.length_toList, Nat.min_eq_left (show off ≤ n by omega)]
  · rw [dif_neg (by omega), List.getElem_append_right (by simp; omega),
      List.getElem_append_right (by simp; omega)]
    simp only [List.length_take, Vector.length_toList, Nat.min_eq_left (show off ≤ n by omega),
      List.getElem_drop, Vector.getElem_toList, getElem_fin]
    congr 1; omega

theorem take_overwrite {n : Nat} {v : Vector α n} {off : Nat} {src : List α}
    (h : off + src.length ≤ n) :
    (overwrite v off src).toList.take (off + src.length) = v.toList.take off ++ src := by
  have hlen : (v.toList.take off ++ src).length = off + src.length := by
    rw [List.length_append, List.length_take, Vector.length_toList]; omega
  rw [toList_overwrite h, putSlice, ← hlen]
  exact List.take_left

theorem getElem_overwrite {n : Nat} {v : Vector α n} {off : Nat} {src : List α} {i : Nat} (hi : i < n)
    (hlo : off ≤ i) (hhi : i < off + src.length) : (overwrite v off src)[i] = src[i - off] := by
  rw [overwrite, Vector.getElem_ofFn, dif_pos ⟨hlo, hhi⟩]

theorem getElem_overwrite_of_lt {n : Nat} {v : Vector α n} {off : Nat} {src : List α} {i : Nat}
    (hi : i < n) (hlo : i < off) : (overwrite v off src)[i] = v[i] := by
  rw [overwrite, Vector.getElem_ofFn, dif_neg fun h => Nat.not_le.mpr hlo h.1]
  rfl

/-- The same copy where the range is checked. -/
def copyInto {n : Nat} (v : Vector α n) (off : Nat) (src : List α) : Except Fault (Vector α n) :=
  if off + src.length ≤ n then .ok (overwrite v off src)
  else .error (.panic "range end index out of range")

theorem copyInto_ok {n : Nat} {v : Vector α n} {off : Nat} {src : List α}
    (h : off + src.length ≤ n) : copyInto v off src = .ok (overwrite v off src) := if_pos h

/-! ## Loops -/

/-- The state of a `for` loop over `0..k` satisfies at the end what its start satisfies and every
iteration keeps. -/
theorem foldlM_range {f : σ → Nat → Except ε σ} (P : Nat → σ → Prop) {s : σ} (k : Nat)
    (h0 : P 0 s) (hstep : ∀ i s, i < k → P i s → ∃ s', f s i = .ok s' ∧ P (i + 1) s') :
    ∃ s', (List.range k).foldlM f s = .ok s' ∧ P k s' := by
  induction k with
  | zero => exact ⟨s, rfl, h0⟩
  | succ k ih =>
    obtain ⟨t, ht, hPt⟩ := ih fun i s hi => hstep i s (by omega)
    obtain ⟨t', ht', hPt'⟩ := hstep k t (by omega) hPt
    refine ⟨t', ?_, hPt'⟩
    rw [List.range_succ, List.foldlM_append]
    simp only [ht, List.foldlM_cons, List.foldlM_nil]
    show (f t k >>= pure) = _
    rw [ht']; rfl

/-- A `for` loop over `0..k` whose iteration `i` writes entry `i` of an array and reads no other
entry: every entry written has what its iteration gives it, the others are as they were. -/
theorem foldlM_entries {n k : Nat} (hk : k ≤ n) {f : Vector α n → Nat → Except ε (Vector α n)}
    {v : Vector α n} (P : Nat → α → Prop)
    (hstep : ∀ (w : Vector α n) i (hi : i < k), w[i] = v[i] →
      ∃ a, f w i = .ok (w.set i a) ∧ P i a) :
    ∃ w, (List.range k).foldlM f v = .ok w ∧ (∀ i (hi : i < k), P i w[i]) ∧
      ∀ i (hi : i < n), k ≤ i → w[i] = v[i] := by
  let Q (j : Nat) (w : Vector α n) : Prop :=
    ∀ i (hi : i < n), (i < j → P i w[i]) ∧ (j ≤ i → w[i] = v[i])
  have hstart : Q 0 v := fun i _ => ⟨fun h => absurd h (Nat.not_lt_zero i), fun _ => rfl⟩
  obtain ⟨w, hrun, hw⟩ := foldlM_range Q k hstart fun j w hj hQ => by
    have hjn : j < n := by omega
    obtain ⟨a, ha, hP⟩ := hstep w j hj ((hQ j hjn).2 (Nat.le_refl j))
    refine ⟨_, ha, fun i hi => ?_⟩
    rw [Vector.getElem_set]
    by_cases hji : j = i
    · subst hji
      rw [if_pos rfl]
      exact ⟨fun _ => hP, fun h => absurd h (by omega)⟩
    · rw [if_neg hji]
      exact ⟨fun h => (hQ i hi).1 (by omega), fun h => (hQ i hi).2 (by omega)⟩
  exact ⟨w, hrun, fun i hi => (hw i (by omega)).1 hi, fun i hi => (hw i hi).2⟩

/-- `for i in 0..k { v[i] = f(i, v[i]) }`. -/
def updateUpTo {n : Nat} (k : Nat) (f : Fin n → α → α) (v : Vector α n) :
    Except Fault (Vector α n) :=
  (List.range k).foldlM (fun v i =>
    if h : i < n then .ok (v.set i (f ⟨i, h⟩ v[i])) else .error (.panic "index out of bounds")) v

theorem updateUpTo_ok {n k : Nat} {f : Fin n → α → α} {v : Vector α n} (hk : k ≤ n) :
    updateUpTo k f v = .ok (Vector.ofFn fun i => if i.val < k then f i v[i] else v[i]) := by
  obtain ⟨w, hrun, hnew, hold⟩ := foldlM_entries hk (v := v)
    (f := fun w i => if h : i < n then .ok (w.set i (f ⟨i, h⟩ w[i]))
      else .error (Fault.panic "index out of bounds"))
    (fun i a => ∀ h : i < n, a = f ⟨i, h⟩ v[i]) fun w i hi hw =>
      ⟨_, dif_pos (show i < n by omega), fun _ => by rw [hw]⟩
  rw [updateUpTo, hrun]
  refine congrArg _ (Vector.ext fun i hi => ?_)
  rw [Vector.getElem_ofFn]
  by_cases hik : i < k
  · rw [if_pos hik]
    exact hnew i hik hi
  · rw [if_neg hik]
    exact hold i hi (by omega)

/-- The invariant rule for a loop that writes a place. -/
theorem forM_range {m : Nat → EStateM ε σ Unit} (P : Nat → σ → Prop) {s : σ} (k : Nat)
    (h0 : P 0 s) (hstep : ∀ i s, i < k → P i s → ∃ s', m i s = .ok () s' ∧ P (i + 1) s') :
    ∃ s', (forM (List.range k) m : EStateM ε σ Unit) s = .ok () s' ∧ P k s' := by
  induction k with
  | zero => exact ⟨s, rfl, h0⟩
  | succ k ih =>
    obtain ⟨t, ht, hPt⟩ := ih fun i s hi => hstep i s (by omega)
    obtain ⟨t', ht', hPt'⟩ := hstep k t (by omega) hPt
    refine ⟨t', ?_, hPt'⟩
    rw [List.range_succ, List.forM_append, bind_ok ht, List.forM_cons, bind_ok ht']
    rfl

theorem forM_range_eq {m : Nat → EStateM ε σ Unit} (g : Nat → σ) (k : Nat)
    (hstep : ∀ i, i < k → m i (g i) = .ok () (g (i + 1))) :
    (forM (List.range k) m : EStateM ε σ Unit) (g 0) = .ok () (g k) := by
  obtain ⟨s', hrun, rfl⟩ := forM_range (fun i s => s = g i) k rfl
    fun i s hi hs => ⟨g (i + 1), hs ▸ hstep i hi, rfl⟩
  exact hrun

/-- The same for a loop over a list, the invariant being about the elements already done. -/
theorem forM_done {m : β → EStateM ε σ Unit} (P : List β → σ → Prop) {s : σ} (xs : List β)
    (h0 : P [] s)
    (hstep : ∀ done x s, P done s → ∃ s', m x s = .ok () s' ∧ P (done ++ [x]) s') :
    ∃ s', (forM xs m : EStateM ε σ Unit) s = .ok () s' ∧ P xs s' := by
  induction xs using List.reverseRecOn with
  | nil => exact ⟨s, rfl, h0⟩
  | append_singleton xs x ih =>
    obtain ⟨t, ht, hPt⟩ := ih
    obtain ⟨t', ht', hPt'⟩ := hstep xs x t hPt
    refine ⟨t', ?_, hPt'⟩
    rw [List.forM_append, bind_ok ht, List.forM_cons, bind_ok ht']
    rfl

/-- The same for a loop over the elements of a list with their positions. -/
theorem forM_zipIdx {m : β × Nat → EStateM ε σ Unit} (P : Nat → σ → Prop) {s : σ} (xs : List β)
    (h0 : P 0 s)
    (hstep : ∀ i (hi : i < xs.length) s, P i s → ∃ s', m (xs[i], i) s = .ok () s' ∧ P (i + 1) s') :
    ∃ s', (forM xs.zipIdx m : EStateM ε σ Unit) s = .ok () s' ∧ P xs.length s' := by
  induction xs using List.reverseRecOn with
  | nil => exact ⟨s, rfl, h0⟩
  | append_singleton xs x ih =>
    obtain ⟨t, ht, hPt⟩ := ih fun i hi s hP => by
      have := hstep i (by simp; omega) s hP
      rwa [List.getElem_append_left hi] at this
    obtain ⟨t', ht', hPt'⟩ := hstep xs.length (by simp) t hPt
    rw [List.getElem_concat_length rfl] at ht'
    refine ⟨t', ?_, by simpa using hPt'⟩
    rw [List.zipIdx_append, List.forM_append, bind_ok ht, Nat.zero_add]
    show (forM [(x, xs.length)] m : EStateM ε σ Unit) t = _
    rw [List.forM_cons, bind_ok ht']
    rfl

end Lib
