import Md5Simd.Lib.Pool

/-!
# Sessions of a service

A service makes objects, does operations on them and answers requests that are
about no object. A session is a list of lines on a pool of objects, and what it
shows is its replies.

`Refines` asks for a simulation of each kind of line by itself. `session_refines`
makes of it a simulation of every session, whatever objects live side by side in
it and however their calls are interleaved. `Keeps` and `session_keeps` do the same
for a contract: an invariant of the objects, the lines that are refused, and what
the others show.
-/

namespace Lib

/-- Objects of state `σ`, made by kind, worked on by operations, and requests. -/
structure Service (ε Kind Op Ask Out σ : Type) where
  create : Kind → Except ε σ
  step : σ → Op → Except ε (σ × Out)
  answer : Ask → Except ε Out

namespace Service

/-- One line of a session. -/
inductive Line (Kind Op Ask : Type) where
  /-- Put a new object at the end of the pool. -/
  | create (kind : Kind)
  /-- Do an operation on object `i`. -/
  | call (i : Nat) (op : Op)
  /-- Put a copy of object `i` at the end of the pool. -/
  | clone (i : Nat)
  | ask (request : Ask)

variable {ε ε' Kind Op Ask Out σ α : Type}

def onPool (absent : ε) (S : Service ε Kind Op Ask Out σ) (pool : List σ) (a : Pool.Act Op) :
    Except ε (List σ × List Out) :=
  (Pool.act absent S.step pool a).map fun r => (r.1, r.2.map Pool.Event.out)

/-- One line: the pool after it, and what it shows. -/
def line (absent : ε) (S : Service ε Kind Op Ask Out σ) (pool : List σ) :
    Line Kind Op Ask → Except ε (List σ × List Out)
  | .create kind => (S.create kind).map fun s => (pool ++ [s], [])
  | .call i op => onPool absent S pool (.call i op)
  | .clone i => onPool absent S pool (.clone i)
  | .ask request => (S.answer request).map fun out => (pool, [out])

def session (absent : ε) (S : Service ε Kind Op Ask Out σ) :
    List σ → List (Line Kind Op Ask) → Except ε (List σ × List Out)
  | pool, [] => .ok (pool, [])
  | pool, l :: ls => do
    let (pool, now) ← line absent S pool l
    let (pool, later) ← session absent S pool ls
    return (pool, now ++ later)

theorem session_cons_ok {absent : ε} {S : Service ε Kind Op Ask Out σ} {pool pool' : List σ}
    {l : Line Kind Op Ask} {ls : List (Line Kind Op Ask)} {outs : List Out} :
    session absent S pool (l :: ls) = .ok (pool', outs) ↔
      ∃ mid now later, line absent S pool l = .ok (mid, now) ∧
        session absent S mid ls = .ok (pool', later) ∧ outs = now ++ later := by
  simp only [session, Except.bind_eq_ok, Prod.exists, pure, Except.pure, Except.ok.injEq,
    Prod.mk.injEq]
  constructor
  · rintro ⟨mid, now, hline, _, later, hrest, rfl, rfl⟩
    exact ⟨mid, now, later, hline, hrest, rfl⟩
  · rintro ⟨mid, now, later, hline, hrest, rfl⟩
    exact ⟨mid, now, hline, pool', later, hrest, rfl, rfl⟩

/-! ## Refinement -/

/-- Whatever the specification does, the implementation does, with the same replies and with
objects that stay related. -/
structure Refines (I : Service ε Kind Op Ask Out σ) (S : Service ε' Kind Op Ask Out α)
    (R : σ → α → Prop) : Prop where
  create : ∀ kind a, S.create kind = .ok a → ∃ s, I.create kind = .ok s ∧ R s a
  step : Pool.Simulates R I.step S.step
  answer : ∀ request out, S.answer request = .ok out → I.answer request = .ok out

variable {I : Service ε Kind Op Ask Out σ} {S : Service ε' Kind Op Ask Out α} {R : σ → α → Prop}
  {absent' : ε'} {pool : List σ} {apool apool' : List α} {outs : List Out}

theorem onPool_refines (absent : ε) (h : Refines I S R) (hR : List.Forall₂ R pool apool)
    {a : Pool.Act Op} (hline : onPool absent' S apool a = .ok (apool', outs)) :
    ∃ pool', onPool absent I pool a = .ok (pool', outs) ∧ List.Forall₂ R pool' apool' := by
  obtain ⟨⟨mid, evs⟩, hact, heq⟩ := Except.map_eq_ok.mp hline
  obtain ⟨rfl, rfl⟩ := Prod.mk.inj heq
  obtain ⟨pool', hrun, hR'⟩ := Pool.act_sim absent h.step hR hact
  exact ⟨pool', Except.map_eq_ok.mpr ⟨_, hrun, rfl⟩, hR'⟩

theorem line_refines (absent : ε) (h : Refines I S R) (hR : List.Forall₂ R pool apool)
    {l : Line Kind Op Ask} (hline : line absent' S apool l = .ok (apool', outs)) :
    ∃ pool', line absent I pool l = .ok (pool', outs) ∧ List.Forall₂ R pool' apool' := by
  cases l with
  | create kind =>
    obtain ⟨a, ha, heq⟩ := Except.map_eq_ok.mp hline
    obtain ⟨rfl, rfl⟩ := Prod.mk.inj heq
    obtain ⟨s, hs, hsa⟩ := h.create kind a ha
    exact ⟨_, Except.map_eq_ok.mpr ⟨s, hs, rfl⟩, List.rel_append hR (.cons hsa .nil)⟩
  | call i op => exact onPool_refines absent h hR hline
  | clone i => exact onPool_refines absent h hR hline
  | ask request =>
    obtain ⟨out, hout, heq⟩ := Except.map_eq_ok.mp hline
    obtain ⟨rfl, rfl⟩ := Prod.mk.inj heq
    exact ⟨pool, Except.map_eq_ok.mpr ⟨out, h.answer request out hout, rfl⟩, hR⟩

/-- **A refinement of each kind of line is a refinement of every session.** -/
theorem session_refines (absent : ε) (h : Refines I S R) {ls : List (Line Kind Op Ask)}
    (hR : List.Forall₂ R pool apool) (hrun : session absent' S apool ls = .ok (apool', outs)) :
    ∃ pool', session absent I pool ls = .ok (pool', outs) ∧ List.Forall₂ R pool' apool' := by
  induction ls generalizing pool apool outs with
  | nil =>
    cases hrun
    exact ⟨pool, rfl, hR⟩
  | cons l ls ih =>
    obtain ⟨amid, now, later, hline, hrest, rfl⟩ := session_cons_ok.mp hrun
    obtain ⟨mid, hnow, hmid⟩ := line_refines absent h hR hline
    obtain ⟨pool', hlater, hR'⟩ := ih hmid hrest
    exact ⟨pool', session_cons_ok.mpr ⟨mid, now, later, hnow, hlater, rfl⟩, hR'⟩

/-! ## Safety -/

/-- A result whose value meets `Q`, or whose error meets `P`. -/
def Meets {β : Type} (P : ε → Prop) (Q : β → Prop) : Except ε β → Prop
  | .ok a => Q a
  | .error e => P e

/-- A result that fails exactly where `P` says so. -/
def Decides {β : Type} (P : ε → Prop) (Q : β → Prop) (x : Except ε β) : Prop :=
  Meets P (fun a => Q a ∧ ∀ e, ¬P e) x

theorem Decides.map {β γ : Type} {P : ε → Prop} {Q : β → Prop} {Q' : γ → Prop} {f : β → γ}
    {x : Except ε β} (h : Decides P Q x) (hQ : ∀ a, Q a → Q' (f a)) : Decides P Q' (x.map f) := by
  cases x with
  | ok a => exact ⟨hQ a h.1, h.2⟩
  | error e => exact h

theorem Decides.imp {β : Type} {P P' : ε → Prop} {Q : β → Prop} {x : Except ε β}
    (h : Decides P Q x) (hP : ∀ e, P' e ↔ P e) : Decides P' Q x := by
  obtain rfl : P' = P := funext fun e => propext (hP e)
  exact h

/-- What is said of a service: what its objects keep, what it refuses with which error, and how it
replies to the rest. -/
structure Contract (ε Kind Op Ask Out σ : Type) where
  Inv : σ → Prop
  refusesKind : Kind → ε → Prop
  refusesOp : σ → Op → ε → Prop
  refusesAsk : Ask → ε → Prop
  tells : σ → Op → Out → Prop
  answers : Ask → Out → Prop

variable {C : Contract ε Kind Op Ask Out σ} {absent : ε}

/-- The lines that a pool refuses. -/
inductive Contract.Denied (C : Contract ε Kind Op Ask Out σ) (absent : ε) (pool : List σ) :
    Line Kind Op Ask → ε → Prop
  | kind {kind : Kind} {e : ε} (h : C.refusesKind kind e) : Denied C absent pool (.create kind) e
  | noObject {i : Nat} (op : Op) (h : pool.length ≤ i) : Denied C absent pool (.call i op) absent
  | noOriginal {i : Nat} (h : pool.length ≤ i) : Denied C absent pool (.clone i) absent
  | op {i : Nat} {op : Op} {e : ε} (hi : i < pool.length) (h : C.refusesOp pool[i] op e) :
    Denied C absent pool (.call i op) e
  | ask {request : Ask} {e : ε} (h : C.refusesAsk request e) : Denied C absent pool (.ask request) e

/-- What a line shows that is not refused. -/
inductive Contract.Shown (C : Contract ε Kind Op Ask Out σ) (pool : List σ) :
    Line Kind Op Ask → List Out → Prop
  | create (kind : Kind) : Shown C pool (.create kind) []
  | clone (i : Nat) : Shown C pool (.clone i) []
  | call {i : Nat} {op : Op} {out : Out} (hi : i < pool.length) (h : C.tells pool[i] op out) :
    Shown C pool (.call i op) [out]
  | ask {request : Ask} {out : Out} (h : C.answers request out) : Shown C pool (.ask request) [out]

/-- A service keeps a contract when each kind of line does. -/
structure Keeps (T : Service ε Kind Op Ask Out σ) (C : Contract ε Kind Op Ask Out σ) : Prop where
  create : ∀ kind, Decides (C.refusesKind kind) C.Inv (T.create kind)
  step : ∀ s op, C.Inv s →
    Decides (C.refusesOp s op) (fun r => C.Inv r.1 ∧ C.tells s op r.2) (T.step s op)
  answer : ∀ request, Decides (C.refusesAsk request) (C.answers request) (T.answer request)

variable {T : Service ε Kind Op Ask Out σ}

theorem inv_append (hpool : ∀ s ∈ pool, C.Inv s) {s : σ} (hs : C.Inv s) :
    ∀ t ∈ pool ++ [s], C.Inv t := by
  intro t ht
  rcases List.mem_append.mp ht with ht | ht
  · exact hpool t ht
  · rw [List.mem_singleton.mp ht]
    exact hs

theorem call_keeps (h : T.Keeps C) (hpool : ∀ s ∈ pool, C.Inv s) (i : Nat) (op : Op) :
    Decides (C.Denied absent pool (.call i op))
      (fun r => (∀ s ∈ r.1, C.Inv s) ∧ C.Shown pool (.call i op) (r.2.map Pool.Event.out))
      (Pool.act absent T.step pool (.call i op)) := by
  by_cases hi : i < pool.length
  · have hdenied (e : ε) : C.Denied absent pool (.call i op) e ↔ C.refusesOp pool[i] op e := by
      refine ⟨fun hd => ?_, .op hi⟩
      cases hd with
      | noObject _ hle => omega
      | op _ hop => exact hop
    simp only [Pool.act, List.getElem?_eq_getElem hi]
    apply Decides.imp _ hdenied
    apply (h.step pool[i] op (hpool _ (List.getElem_mem hi))).map
    rintro ⟨s', out⟩ ⟨hs', hout⟩
    refine ⟨fun t ht => ?_, .call hi hout⟩
    rcases List.mem_or_eq_of_mem_set ht with ht | rfl
    · exact hpool t ht
    · exact hs'
  · simp only [Pool.act, List.getElem?_eq_none (Nat.le_of_not_lt hi)]
    exact Contract.Denied.noObject op (Nat.le_of_not_lt hi)

theorem clone_keeps (hpool : ∀ s ∈ pool, C.Inv s) (i : Nat) :
    Decides (C.Denied absent pool (.clone i))
      (fun r => (∀ s ∈ r.1, C.Inv s) ∧ C.Shown pool (.clone i) (r.2.map Pool.Event.out))
      (Pool.act absent T.step pool (.clone i)) := by
  by_cases hi : i < pool.length
  · simp only [Pool.act, List.getElem?_eq_getElem hi]
    refine ⟨⟨inv_append hpool (hpool _ (List.getElem_mem hi)), .clone i⟩, fun e hd => ?_⟩
    cases hd with
    | noOriginal hle => omega
  · simp only [Pool.act, List.getElem?_eq_none (Nat.le_of_not_lt hi)]
    exact Contract.Denied.noOriginal (Nat.le_of_not_lt hi)

theorem line_keeps (h : T.Keeps C) (hpool : ∀ s ∈ pool, C.Inv s) (l : Line Kind Op Ask) :
    Decides (C.Denied absent pool l) (fun r => (∀ s ∈ r.1, C.Inv s) ∧ C.Shown pool l r.2)
      (line absent T pool l) := by
  cases l with
  | create kind =>
    have hdenied (e : ε) : C.Denied absent pool (.create kind) e ↔ C.refusesKind kind e :=
      ⟨fun | .kind hk => hk, .kind⟩
    apply Decides.imp _ hdenied
    apply (h.create kind).map
    exact fun s hs => ⟨inv_append hpool hs, .create kind⟩
  | call i op => exact (call_keeps h hpool i op).map fun r hr => hr
  | clone i => exact (clone_keeps hpool i).map fun r hr => hr
  | ask request =>
    have hdenied (e : ε) : C.Denied absent pool (.ask request) e ↔ C.refusesAsk request e :=
      ⟨fun | .ask hr => hr, .ask⟩
    apply Decides.imp _ hdenied
    apply (h.answer request).map
    exact fun out hout => ⟨hpool, .ask hout⟩

/-- **Every session keeps the contract of its lines.** It runs to its end with objects that keep
the invariant, or it stops at the first line that the pool before it refuses. -/
theorem session_keeps (h : T.Keeps C) (ls : List (Line Kind Op Ask))
    (hpool : ∀ s ∈ pool, C.Inv s) :
    Meets
      (fun e => ∃ before l behind mid outs, ls = before ++ l :: behind ∧
        session absent T pool before = .ok (mid, outs) ∧ (∀ s ∈ mid, C.Inv s) ∧
        C.Denied absent mid l e)
      (fun r => ∀ s ∈ r.1, C.Inv s) (session absent T pool ls) := by
  induction ls generalizing pool with
  | nil => exact hpool
  | cons l ls ih =>
    have hl : Decides _ _ (line absent T pool l) := line_keeps h hpool l
    cases hline : line absent T pool l with
    | error e =>
      rw [hline] at hl
      rw [session, hline]
      exact ⟨[], l, ls, pool, [], rfl, rfl, hpool, hl⟩
    | ok r =>
      obtain ⟨mid, now⟩ := r
      rw [hline] at hl
      have hmid := ih hl.1.1
      cases hrest : session absent T mid ls with
      | error e =>
        rw [hrest] at hmid
        obtain ⟨before, l', behind, mid', outs, rfl, hrun, hkeep, hdenied⟩ := hmid
        rw [session, Except.bind_ok hline]
        dsimp only
        rw [hrest]
        exact ⟨l :: before, l', behind, mid', now ++ outs, rfl,
          session_cons_ok.mpr ⟨mid, now, outs, hline, hrun, rfl⟩, hkeep, hdenied⟩
      | ok r =>
        rw [hrest] at hmid
        rw [session, Except.bind_ok hline]
        dsimp only
        rw [hrest]
        exact hmid

end Service

end Lib
