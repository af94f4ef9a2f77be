import Md5Simd.Lib.Place

/-!
# Straight-line x86-64 code

The 32-bit register instructions of x86-64 without jumps and stores, over any
type of register names. A register holds 64 bits; an instruction reads the low
halves of its operands and writes a zero-extended result, so a write of a low half
clears the high one. Memory is only read, and an address that may not be read is
a fault. The flags are left out: none of these instructions reads one.

`Triple` is total correctness of a piece of code, with the rules `Triple.append`
and `Triple.iterate` for code that is put together from pieces. `run_rename` lets
code be verified under the names of its operands and run in any registers, and
`run_safe` says from its text alone that it reads nothing it may not and what it
leaves alone.
-/

namespace Lib.X86

variable {ρ σ κ γ : Type}

/-- What every register holds. -/
abbrev File (ρ : Type) := ρ → BitVec 64

/-- Byte memory; an address that may not be read has no byte. -/
abbrev Memory := BitVec 64 → Option (BitVec 8)

/-- A 32-bit source operand. -/
inductive Src (ρ : Type) where
  | reg (r : ρ)
  | imm (x : BitVec 32)
  /-- `dword ptr [base + off]` -/
  | dword (base : ρ) (off : Nat)

instance : Coe ρ (Src ρ) := ⟨.reg⟩

inductive Instr (ρ : Type) where
  | mov (d : ρ) (s : Src ρ)
  | add (d : ρ) (s : Src ρ)
  | and (d : ρ) (s : Src ρ)
  | or (d : ρ) (s : Src ρ)
  | xor (d : ρ) (s : Src ρ)
  | not (d : ρ)
  | rol (d : ρ) (n : Nat)

/-- The low half of a register. -/
def low (g : File ρ) (r : ρ) : BitVec 32 := (g r).setWidth 32

/-- Four readable bytes, little-endian. -/
def load (mem : Memory) (a : BitVec 64) : Except Fault (BitVec 32) :=
  match mem a, mem (a + 1), mem (a + 2), mem (a + 3) with
  | some b0, some b1, some b2, some b3 => .ok (b3 ++ b2 ++ b1 ++ b0)
  | _, _, _, _ => .error (.undefined "read of memory that is not readable")

variable (mem : Memory)

@[simp] def Src.eval (g : File ρ) : Src ρ → Except Fault (BitVec 32)
  | .reg r => .ok (low g r)
  | .imm x => .ok x
  | .dword base off => load mem (g base + BitVec.ofNat 64 off)

def Src.reads : Src ρ → List (ρ × Nat)
  | .dword base off => [(base, off)]
  | _ => []

namespace Instr

/-- The register an instruction writes. -/
@[simp] def dst : Instr ρ → ρ
  | .mov d _ | .add d _ | .and d _ | .or d _ | .xor d _ | .not d | .rol d _ => d

/-- The memory it reads: base registers and offsets. -/
def reads : Instr ρ → List (ρ × Nat)
  | .mov _ s | .add _ s | .and _ s | .or _ s | .xor _ s => s.reads
  | .not _ | .rol _ _ => []

/-- The value it writes. -/
@[simp] def eval (g : File ρ) : Instr ρ → Except Fault (BitVec 32)
  | .mov _ s => s.eval mem g
  | .add d s => (s.eval mem g).map (low g d + ·)
  | .and d s => (s.eval mem g).map (low g d &&& ·)
  | .or d s => (s.eval mem g).map (low g d ||| ·)
  | .xor d s => (s.eval mem g).map (low g d ^^^ ·)
  | .not d => .ok (~~~low g d)
  | .rol d n => .ok ((low g d).rotateLeft n)

end Instr

variable [DecidableEq ρ] [DecidableEq σ]

/-- Write the low half of a register. -/
def write (g : File ρ) (r : ρ) (x : BitVec 32) : File ρ := Function.update g r (x.setWidth 64)

/-- Put a value in the low half of a register, the high half being left as it was: how a 32-bit
variable gets into a 64-bit register. -/
def setLow (g : File ρ) (r : ρ) (x : BitVec 32) : File ρ :=
  Function.update g r ((g r).extractLsb' 32 32 ++ x)

def exec (g : File ρ) (i : Instr ρ) : Except Fault (File ρ) := (i.eval mem g).map (write g i.dst)

def run (code : List (Instr ρ)) (g : File ρ) : Except Fault (File ρ) := code.foldlM (exec mem) g

/-! ## Registers -/

@[simp] theorem low_write_same (g : File ρ) (r : ρ) (x : BitVec 32) : low (write g r x) r = x := by
  rw [low, write, Function.update_self, BitVec.setWidth_setWidth_of_le _ (by decide),
    BitVec.setWidth_eq]

@[simp] theorem write_of_ne {g : File ρ} {r q : ρ} {x : BitVec 32} (h : q ≠ r) : write g r x q = g q :=
  Function.update_of_ne h _ _

omit [DecidableEq ρ] [DecidableEq σ] in
@[simp] theorem low_comp (g : File ρ) (f : σ → ρ) (r : σ) : low (g ∘ f) r = low g (f r) := rfl

@[simp] theorem low_write_of_ne {g : File ρ} {r q : ρ} {x : BitVec 32} (h : q ≠ r) :
    low (write g r x) q = low g q := by
  rw [low, low, write_of_ne h]

@[simp] theorem low_setLow_same (g : File ρ) (r : ρ) (x : BitVec 32) : low (setLow g r x) r = x := by
  rw [low, setLow, Function.update_self]
  exact BitVec.setWidth_append_eq_right

@[simp] theorem setLow_of_ne {g : File ρ} {r q : ρ} {x : BitVec 32} (h : q ≠ r) : setLow g r x q = g q :=
  Function.update_of_ne h _ _

@[simp] theorem low_setLow_of_ne {g : File ρ} {r q : ρ} {x : BitVec 32} (h : q ≠ r) :
    low (setLow g r x) q = low g q := by
  rw [low, low, setLow_of_ne h]

/-! ## Runs -/

variable {mem}

@[simp] theorem run_nil (g : File ρ) : run mem [] g = .ok g := rfl

@[simp] theorem run_cons (i : Instr ρ) (code : List (Instr ρ)) (g : File ρ) :
    run mem (i :: code) g = (i.eval mem g).bind fun x => run mem code (write g i.dst x) := by
  rw [run, List.foldlM_cons, exec]
  cases i.eval mem g <;> rfl

theorem run_append {g h : File ρ} {p : List (Instr ρ)} (hp : run mem p g = .ok h)
    (q : List (Instr ρ)) : run mem (p ++ q) g = run mem q h := by
  rw [run, List.foldlM_append, ← run, hp]
  rfl

omit [DecidableEq ρ] in
theorem Src.eval_safe {g : File ρ} {s : Src ρ}
    (h : ∀ p ∈ s.reads, ∃ x, load mem (g p.1 + BitVec.ofNat 64 p.2) = .ok x) :
    ∃ x, s.eval mem g = .ok x := by
  cases s with
  | reg r => exact ⟨_, rfl⟩
  | imm x => exact ⟨_, rfl⟩
  | dword base off => exact h (base, off) (List.mem_singleton_self _)

omit [DecidableEq ρ] in
theorem Instr.eval_safe {g : File ρ} {i : Instr ρ}
    (h : ∀ p ∈ i.reads, ∃ x, load mem (g p.1 + BitVec.ofNat 64 p.2) = .ok x) :
    ∃ x, i.eval mem g = .ok x := by
  cases i with
  | not d => exact ⟨_, rfl⟩
  | rol d n => exact ⟨_, rfl⟩
  | mov d s => exact Src.eval_safe h
  | _ d s =>
    obtain ⟨x, hx⟩ := Src.eval_safe (s := s) h
    rw [Instr.eval, hx]
    exact ⟨_, rfl⟩

/-- **Safety**: code whose loads go through registers it does not write, to addresses that may be
read, runs to its end and leaves every register but its destinations as it was. -/
theorem run_safe {code : List (Instr ρ)} {g : File ρ} {outs : List ρ}
    (hdst : ∀ i ∈ code, i.dst ∈ outs)
    (hreads : ∀ i ∈ code, ∀ p ∈ i.reads, p.1 ∉ outs ∧
      ∃ x, load mem (g p.1 + BitVec.ofNat 64 p.2) = .ok x) :
    ∃ h, run mem code g = .ok h ∧ ∀ r, r ∉ outs → h r = g r := by
  induction code generalizing g with
  | nil => exact ⟨g, rfl, fun _ _ => rfl⟩
  | cons i code ih =>
    obtain ⟨hi, hcode⟩ := List.forall_mem_cons.mp hdst
    obtain ⟨hri, hrcode⟩ := List.forall_mem_cons.mp hreads
    obtain ⟨x, hx⟩ := Instr.eval_safe fun p hp => (hri p hp).2
    have hkeep (r : ρ) (hr : r ∉ outs) : write g i.dst x r = g r :=
      write_of_ne fun h => hr (h ▸ hi)
    obtain ⟨h, hrun, hframe⟩ := ih (g := write g i.dst x) hcode fun j hj p hp => by
      obtain ⟨hout, hload⟩ := hrcode j hj p hp
      rw [hkeep p.1 hout]
      exact ⟨hout, hload⟩
    refine ⟨h, ?_, fun r hr => (hframe r hr).trans (hkeep r hr)⟩
    rw [run_cons, hx]
    exact hrun

/-! ## Total correctness -/

/-- From every register file in `P` the code runs to one in `Q`. -/
def Triple (mem : Memory) (P : File ρ → Prop) (code : List (Instr ρ)) (Q : File ρ → Prop) : Prop :=
  ∀ g, P g → ∃ h, run mem code g = .ok h ∧ Q h

section Triple

variable {P P' Q Q' R : File ρ → Prop} {p q : List (Instr ρ)}

theorem Triple.nil : Triple mem P [] P := fun g hg => ⟨g, rfl, hg⟩

theorem Triple.mono (h : Triple mem P p Q) (hP : ∀ g, P' g → P g) (hQ : ∀ g, Q g → Q' g) :
    Triple mem P' p Q' := fun g hg =>
  (h g (hP g hg)).imp fun g' ⟨hrun, hg'⟩ => ⟨hrun, hQ g' hg'⟩

theorem Triple.append (hp : Triple mem P p Q) (hq : Triple mem Q q R) :
    Triple mem P (p ++ q) R := by
  intro g hg
  obtain ⟨mid, hrun, hmid⟩ := hp g hg
  obtain ⟨h, hrun', hh⟩ := hq mid hmid
  exact ⟨h, (run_append hrun q).trans hrun', hh⟩

/-- An unrolled loop whose counter runs through `k`, `next k`, ...: what one iteration does to the
ghost state `x` of the invariant, the loop does one iteration after the other. -/
theorem Triple.iterate {I : κ → γ → File ρ → Prop} {code : κ → List (Instr ρ)} {next : κ → κ}
    {f : κ → γ → γ} (h : ∀ k x, Triple mem (I k x) (code k) (I (next k) (f k x))) (n : Nat) (k : κ)
    (x : γ) : Triple mem (I k x) ((List.iterate next k n).flatMap code)
      (I (next^[n] k) ((List.iterate next k n).foldl (fun x k => f k x) x)) := by
  induction n generalizing k x with
  | zero => exact Triple.nil
  | succ n ih => exact (h k x).append (ih (next k) (f k x))

end Triple

/-! ## Renamed registers -/

/-- The operand in other registers. -/
def Src.rename (f : ρ → σ) : Src ρ → Src σ
  | .reg r => .reg (f r)
  | .imm x => .imm x
  | .dword base off => .dword (f base) off

/-- The instruction in other registers. -/
def Instr.rename (f : ρ → σ) : Instr ρ → Instr σ
  | .mov d s => .mov (f d) (s.rename f)
  | .add d s => .add (f d) (s.rename f)
  | .and d s => .and (f d) (s.rename f)
  | .or d s => .or (f d) (s.rename f)
  | .xor d s => .xor (f d) (s.rename f)
  | .not d => .not (f d)
  | .rol d n => .rol (f d) n

section Rename

omit [DecidableEq ρ] [DecidableEq σ]

theorem dst_rename (f : ρ → σ) (i : Instr ρ) : (i.rename f).dst = f i.dst := by
  cases i <;> rfl

theorem reads_rename (f : ρ → σ) (i : Instr ρ) :
    (i.rename f).reads = i.reads.map (Prod.map f id) := by
  rcases i with ⟨d, s⟩ | ⟨d, s⟩ | ⟨d, s⟩ | ⟨d, s⟩ | ⟨d, s⟩ | d | ⟨d, n⟩ <;>
    first | rfl | cases s <;> rfl

theorem Src.eval_rename (f : ρ → σ) (g : File σ) (s : Src ρ) :
    (s.rename f).eval mem g = s.eval mem (g ∘ f) := by
  cases s <;> rfl

theorem Instr.eval_rename (f : ρ → σ) (g : File σ) (i : Instr ρ) :
    (i.rename f).eval mem g = i.eval mem (g ∘ f) := by
  cases i <;> first | rfl | simp only [rename, eval, Src.eval_rename] <;> rfl

end Rename

theorem write_comp {f : ρ → σ} (hf : Function.Injective f) (g : File σ) (r : ρ) (x : BitVec 32) :
    write g (f r) x ∘ f = write (g ∘ f) r x :=
  Function.update_comp_eq_of_injective g hf r _

/-- **Code means the same in all registers**: what it does to the registers its operands are in is
what it does to the operands. -/
theorem run_rename {f : ρ → σ} (hf : Function.Injective f) (code : List (Instr ρ)) (g : File σ) :
    (run mem (code.map (Instr.rename f)) g).map (· ∘ f) = run mem code (g ∘ f) := by
  induction code generalizing g with
  | nil => rfl
  | cons i code ih =>
    rw [List.map_cons, run_cons, run_cons, Instr.eval_rename]
    cases i.eval mem (g ∘ f) with
    | error e => rfl
    | ok x =>
      simp only [Except.bind, ih, dst_rename, write_comp hf]

theorem Triple.rename {f : ρ → σ} (hf : Function.Injective f) {P Q : File ρ → Prop}
    {code : List (Instr ρ)} (h : Triple mem P code Q) :
    Triple mem (fun g => P (g ∘ f)) (code.map (Instr.rename f)) (fun g => Q (g ∘ f)) := by
  intro g hg
  obtain ⟨t, hrun, ht⟩ := h (g ∘ f) hg
  rw [← run_rename hf] at hrun
  obtain ⟨g', hrun', rfl⟩ := Except.map_eq_ok.mp hrun
  exact ⟨g', hrun', ht⟩

end Lib.X86
