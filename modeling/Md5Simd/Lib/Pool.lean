import Md5Simd.Lib.Place

/-!
# Programs over cloneable objects

A program calls operations on objects of a pool and copies objects; a copy goes
to the end of the pool. `run` executes a program against an object type given by
its `step` and collects the calls with their results.

`run_sim` lifts a forward simulation of one operation to whole programs: where
the specification allows a program, the implementation runs it without error,
gives the same results, and stays related object by object. `run_erase` removes
operations that leave their object alone: every other result stays what it was.
`Implements` is the two together.
-/

namespace Lib.Pool

variable {Op Out σ α ε ε' : Type}

inductive Act (Op : Type) where
  /-- Call an operation on object `i`. -/
  | call (i : Nat) (op : Op)
  /-- Copy object `i`. -/
  | clone (i : Nat)

structure Event (Op Out : Type) where
  object : Nat
  op : Op
  out : Out
  deriving DecidableEq

/-- One line of a program on a pool; `absent` is the error of naming no object. -/
def act (absent : ε) (step : σ → Op → Except ε (σ × Out)) (pool : List σ) :
    Act Op → Except ε (List σ × List (Event Op Out))
  | .call i op =>
    match pool[i]? with
    | none => .error absent
    | some s => (step s op).map fun r => (pool.set i r.1, [⟨i, op, r.2⟩])
  | .clone i =>
    match pool[i]? with
    | none => .error absent
    | some s => .ok (pool ++ [s], [])

/-- A program on a pool. -/
def run (absent : ε) (step : σ → Op → Except ε (σ × Out)) :
    List σ → List (Act Op) → Except ε (List σ × List (Event Op Out))
  | pool, [] => .ok (pool, [])
  | pool, a :: as => do
    let (pool, evs) ← act absent step pool a
    let (pool, rest) ← run absent step pool as
    return (pool, evs ++ rest)

theorem run_cons_ok {absent : ε} {step : σ → Op → Except ε (σ × Out)} {pool pool' : List σ}
    {a : Act Op} {as : List (Act Op)} {evs : List (Event Op Out)} :
    run absent step pool (a :: as) = .ok (pool', evs) ↔
      ∃ mid e es, act absent step pool a = .ok (mid, e) ∧
        run absent step mid as = .ok (pool', es) ∧ evs = e ++ es := by
  simp only [run, Except.bind_eq_ok, Prod.exists, pure, Except.pure, Except.ok.injEq,
    Prod.mk.injEq]
  constructor
  · rintro ⟨mid, e, hact, _, es, hrun, rfl, rfl⟩
    exact ⟨mid, e, es, hact, hrun, rfl⟩
  · rintro ⟨mid, e, es, hact, hrun, rfl⟩
    exact ⟨mid, e, hact, pool', es, hrun, rfl, rfl⟩

theorem act_call_ok {absent : ε} {step : σ → Op → Except ε (σ × Out)} {pool pool' : List σ}
    {i : Nat} {op : Op} {evs : List (Event Op Out)} :
    act absent step pool (.call i op) = .ok (pool', evs) ↔
      ∃ hi : i < pool.length, ∃ s' out, step pool[i] op = .ok (s', out) ∧
        pool' = pool.set i s' ∧ evs = [⟨i, op, out⟩] := by
  by_cases hi : i < pool.length
  · simp only [act, List.getElem?_eq_getElem hi, Except.map_eq_ok, Prod.exists, Prod.mk.injEq, hi,
      exists_true_left]
    constructor <;> rintro ⟨s', out, h, rfl, rfl⟩ <;> exact ⟨s', out, h, rfl, rfl⟩
  · simp [act, hi]

theorem act_clone_ok {absent : ε} {step : σ → Op → Except ε (σ × Out)} {pool pool' : List σ}
    {i : Nat} {evs : List (Event Op Out)} :
    act absent step pool (.clone i) = .ok (pool', evs) ↔
      ∃ hi : i < pool.length, pool' = pool ++ [pool[i]] ∧ evs = [] := by
  by_cases hi : i < pool.length
  · simp [act, hi, eq_comm]
  · simp [act, hi]

/-! ## Simulation -/

/-- Whatever the specification allows, the implementation does, with the same result. -/
def Simulates (R : σ → α → Prop) (step : σ → Op → Except ε (σ × Out))
    (spec : α → Op → Except ε' (α × Out)) : Prop :=
  ∀ s a op a' out, R s a → spec a op = .ok (a', out) → ∃ s', step s op = .ok (s', out) ∧ R s' a'

variable {R : σ → α → Prop} {step : σ → Op → Except ε (σ × Out)}
  {spec : α → Op → Except ε' (α × Out)} {absent : ε} {absent' : ε'}

theorem forall₂_set {pool : List σ} {apool : List α} (h : List.Forall₂ R pool apool) (i : Nat)
    {s : σ} {a : α} (hR : R s a) : List.Forall₂ R (pool.set i s) (apool.set i a) := by
  induction h generalizing i with
  | nil => exact .nil
  | cons hd tl ih =>
    rcases i with _ | i
    · exact .cons hR tl
    · exact .cons hd (ih i)

theorem act_sim (absent : ε) (hsim : Simulates R step spec) {pool : List σ} {apool apool' : List α} {a : Act Op}
    {evs : List (Event Op Out)} (hR : List.Forall₂ R pool apool)
    (h : act absent' spec apool a = .ok (apool', evs)) :
    ∃ pool', act absent step pool a = .ok (pool', evs) ∧ List.Forall₂ R pool' apool' := by
  have hlen := hR.length_eq
  cases a with
  | call i op =>
    obtain ⟨hi, a', out, hspec, rfl, rfl⟩ := act_call_ok.mp h
    obtain ⟨s', hstep, hR'⟩ := hsim _ _ _ _ _ (hR.get (hlen ▸ hi) hi) hspec
    exact ⟨_, act_call_ok.mpr ⟨hlen ▸ hi, s', out, hstep, rfl, rfl⟩, forall₂_set hR i hR'⟩
  | clone i =>
    obtain ⟨hi, rfl, rfl⟩ := act_clone_ok.mp h
    exact ⟨_, act_clone_ok.mpr ⟨hlen ▸ hi, rfl, rfl⟩,
      List.rel_append hR (.cons (hR.get (hlen ▸ hi) hi) .nil)⟩

/-- **A simulation of one operation is a simulation of every program.** -/
theorem run_sim (absent : ε) (hsim : Simulates R step spec) {as : List (Act Op)} {pool : List σ}
    {apool apool' : List α} {evs : List (Event Op Out)} (hR : List.Forall₂ R pool apool)
    (h : run absent' spec apool as = .ok (apool', evs)) :
    ∃ pool', run absent step pool as = .ok (pool', evs) ∧ List.Forall₂ R pool' apool' := by
  induction as generalizing pool apool evs with
  | nil =>
    cases h
    exact ⟨pool, rfl, hR⟩
  | cons a as ih =>
    obtain ⟨amid, e, es, ha, has, rfl⟩ := run_cons_ok.mp h
    obtain ⟨mid, hc, hmid⟩ := act_sim absent hsim hR ha
    obtain ⟨pool', hcs, hR'⟩ := ih hmid has
    exact ⟨pool', run_cons_ok.mpr ⟨mid, e, es, hc, hcs, rfl⟩, hR'⟩

/-! ## Renamed operations -/

variable {Op' : Type}

/-- A line over other operations. -/
def Act.map (f : Op → Op') : Act Op → Act Op'
  | .call i op => .call i (f op)
  | .clone i => .clone i

def Event.map (f : Op → Op') (e : Event Op Out) : Event Op' Out := ⟨e.object, f e.op, e.out⟩

/-- A program over objects that answer through another interface is a program of that interface. -/
theorem run_map {f : Op → Op'} {step : σ → Op' → Except ε (σ × Out)} {as : List (Act Op)}
    {pool pool' : List σ} {evs : List (Event Op Out)}
    (h : run absent (fun s op => step s (f op)) pool as = .ok (pool', evs)) :
    run absent step pool (as.map (Act.map f)) = .ok (pool', evs.map (Event.map f)) := by
  induction as generalizing pool evs with
  | nil =>
    cases h
    rfl
  | cons a as ih =>
    obtain ⟨mid, e, es, ha, has, rfl⟩ := run_cons_ok.mp h
    refine run_cons_ok.mpr ⟨mid, e.map (Event.map f), _, ?_, ih has, List.map_append⟩
    cases a with
    | call i op =>
      obtain ⟨hi, s', out, hstep, rfl, rfl⟩ := act_call_ok.mp ha
      exact act_call_ok.mpr ⟨hi, s', out, hstep, rfl, rfl⟩
    | clone i =>
      obtain ⟨hi, rfl, rfl⟩ := act_clone_ok.mp ha
      exact act_clone_ok.mpr ⟨hi, rfl, rfl⟩

/-! ## Operations that leave their object alone -/

/-- A line that is not a call of a quiet operation. -/
def Act.loud (quiet : Op → Bool) : Act Op → Bool
  | .call _ op => !quiet op
  | .clone _ => true

/-- **Quiet operations can be erased**: the program without them ends in the same pool, with the
same results for every call it still makes. -/
theorem run_erase {quiet : Op → Bool}
    (hquiet : ∀ {s op s' out}, quiet op = true → step s op = .ok (s', out) → s' = s)
    {as : List (Act Op)} {pool pool' : List σ} {evs : List (Event Op Out)}
    (h : run absent step pool as = .ok (pool', evs)) :
    run absent step pool (as.filter (Act.loud quiet)) =
      .ok (pool', evs.filter fun e => !quiet e.op) := by
  induction as generalizing pool evs with
  | nil =>
    cases h
    rfl
  | cons a as ih =>
    obtain ⟨mid, e, es, ha, has, rfl⟩ := run_cons_ok.mp h
    have hrest := ih has
    cases a with
    | clone i =>
      obtain ⟨-, -, rfl⟩ := act_clone_ok.mp ha
      rw [List.filter_cons_of_pos rfl]
      exact run_cons_ok.mpr ⟨mid, [], _, ha, hrest, rfl⟩
    | call i op =>
      obtain ⟨hi, s', out, hstep, rfl, rfl⟩ := act_call_ok.mp ha
      by_cases hq : quiet op = true
      · -- the object is put back as it was
        rw [hquiet hq hstep, List.set_getElem_self] at hrest
        rw [List.filter_cons_of_neg (by simpa [Act.loud] using hq)]
        simpa [hq] using hrest
      · rw [List.filter_cons_of_pos (by simpa [Act.loud] using hq)]
        exact run_cons_ok.mpr ⟨_, _, _, ha, hrest, by simp [hq]⟩

/-- Every program the specification allows from one fresh object runs without error, with the
results of the specification and objects that follow its objects; erasing its quiet calls changes
nothing else. -/
def Implements (absent : ε) (absent' : ε') (step : σ → Op → Except ε (σ × Out))
    (spec : α → Op → Except ε' (α × Out)) (R : σ → α → Prop) (quiet : Op → Bool) (s : σ) (a : α) :
    Prop :=
  ∀ acts as evs, run absent' spec [a] acts = .ok (as, evs) →
    ∃ ss, run absent step [s] acts = .ok (ss, evs) ∧ List.Forall₂ R ss as ∧
      run absent step [s] (acts.filter (Act.loud quiet)) =
        .ok (ss, evs.filter fun e => !quiet e.op)

/-- **A simulation with quiet operations implements its specification.** -/
theorem implements_of_simulates (hsim : Simulates R step spec) {quiet : Op → Bool}
    (hquiet : ∀ {s op s' out}, quiet op = true → step s op = .ok (s', out) → s' = s)
    {s : σ} {a : α} (hR : R s a) : Implements absent absent' step spec R quiet s a := by
  intro acts as evs h
  obtain ⟨ss, hrun, hRs⟩ := run_sim absent hsim (.cons hR .nil) h
  exact ⟨ss, hrun, hRs, run_erase hquiet hrun⟩

end Lib.Pool
