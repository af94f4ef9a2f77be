import Md5Simd.Core
import Md5Simd.Hex
import Md5Simd.Lib.Pool

/-!
# The native hashers

`Md5` of `md5.rs` and `Md5State` of `state.rs`, both a `Raw`. A program calls
their operations in any order and clones them as it likes (`Lib.Pool`); a moved
object is `none`.

What a hasher is for is said over messages: an object stands for the bytes
absorbed since its last reset, and every digest is the one-shot hash of them
(`Md5.spec`, `Md5State.spec`). `Absorbed` is the invariant that ties the fields to
the message, and `hashers_implement` that every program the specification allows
runs as it says.
-/

namespace Md5Simd

open Lib

/-- What an operation returns. -/
inductive Out where
  | unit
  | len (n : Nat)
  | digest (d : Digest)
  | text (t : Bytes)
  | count (c : U64)
  | flag (f : Bool)
  deriving DecidableEq

/-- A method with a `&mut self` argument, as a line of a program. -/
def callMut {σ α : Type} (m : EStateM Fault σ α) (out : α → Out) (h : σ) :
    Except Fault (Option σ × Out) :=
  match m h with
  | .ok a h' => .ok (some h', out a)
  | .error e _ => .error e

/-- A method with a `&self` argument. -/
def callRef {σ α : Type} (x : Except Fault α) (out : α → Out) (h : σ) :
    Except Fault (Option σ × Out) := x.map fun a => (some h, out a)

/-- A method with a `self` argument that does not give the object back. -/
def callMove {σ α : Type} (x : Except Fault α) (out : α → Out) : Except Fault (Option σ × Out) :=
  x.map fun a => (none, out a)

theorem callMut_ok {σ α : Type} {m : EStateM Fault σ α} {out : α → Out} {h h' : σ} {a : α}
    (hm : m h = .ok a h') : callMut m out h = .ok (some h', out a) := by
  simp [callMut, hm]

theorem callRef_ok {σ α : Type} {x : Except Fault α} {out : α → Out} {h : σ} {a : α}
    (hx : x = .ok a) : callRef x out h = .ok (some h, out a) := by
  subst hx; rfl

theorem callMove_ok {σ α : Type} {x : Except Fault α} {out : α → Out} {a : α} (hx : x = .ok a) :
    callMove x out = .ok ((none : Option σ), out a) := by
  subst hx; rfl

theorem callRef_same {σ α : Type} {x : Except Fault α} {out : α → Out} {h : σ} {r : Option σ × Out}
    (hx : callRef x out h = .ok r) : r.1 = some h := by
  obtain ⟨a, -, rfl⟩ := Except.map_eq_ok.mp hx
  rfl

/-- Rust has no access to a moved value. -/
def movedValue : Fault := .undefined "use of a moved value"

/-- Naming an object the program does not have. -/
def noObject : Fault := .undefined "no such object"

/-! ## The streaming hasher -/

/-- Streaming MD5 hasher. -/
structure Md5 where
  raw : Raw
  deriving DecidableEq

namespace Md5

def new : Md5 := ⟨Raw.new⟩

def fromParts (state : State) (countBytes : U64) : Md5 := ⟨Raw.fromParts state countBytes⟩

def onRaw {α : Type} (m : EStateM Fault Raw α) : EStateM Fault Md5 α :=
  zoom Md5.raw (fun _ r => ⟨r⟩) m

theorem onRaw_ok {α : Type} {m : EStateM Fault Raw α} {h : Md5} {r : Raw} {a : α}
    (hm : m h.raw = .ok a r) : onRaw m h = .ok a ⟨r⟩ := zoom_ok hm

variable (b : Build)

def update (data : Bytes) : EStateM Fault Md5 Unit := onRaw (Raw.updateOpt b data)

/-- Builder-style update. -/
def chainUpdate (data : Bytes) : EStateM Fault Md5 Unit := update b data

def finalize (h : Md5) : Except Fault Digest := h.raw.digestSnapshot (compressBlock b)

def finalizeSnapshot (h : Md5) : Except Fault Digest := h.raw.digestSnapshot (compressBlock b)

def finalizeReset : EStateM Fault Md5 Digest := do
  let h ← get
  let d ← liftE (h.raw.digestSnapshot (compressBlock b))
  onRaw Raw.reset
  return d

def reset : EStateM Fault Md5 Unit := onRaw Raw.reset

def bytesHashed (h : Md5) : U64 := h.raw.count

def zeroize : EStateM Fault Md5 Unit := onRaw Raw.zeroize

def finalizeHex (h : Md5) : Except Fault Bytes := do
  let d ← h.raw.digestSnapshot (compressBlock b)
  hexEncode d.toList

def digestSoFar (h : Md5) : Except Fault Digest := finalizeSnapshot b h

def write (buf : Bytes) : EStateM Fault Md5 Nat := do
  update b buf
  return buf.length

def flush : EStateM Fault Md5 Unit := pure ()

inductive Op where
  | update (data : Bytes)
  | chainUpdate (data : Bytes)
  | write (buf : Bytes)
  | flush
  | finalize
  | finalizeSnapshot
  | digestSoFar
  | finalizeHex
  | finalizeReset
  | reset
  | bytesHashed
  | zeroize
  deriving DecidableEq

/-- One call of a program. -/
def step : Option Md5 → Op → Except Fault (Option Md5 × Out)
  | none, _ => .error movedValue
  | some h, .update data => callMut (update b data) (fun _ => .unit) h
  | some h, .chainUpdate data => callMut (chainUpdate b data) (fun _ => .unit) h
  | some h, .write buf => callMut (write b buf) .len h
  | some h, .flush => callMut flush (fun _ => .unit) h
  | some h, .finalize => callMove (finalize b h) .digest
  | some h, .finalizeSnapshot => callRef (finalizeSnapshot b h) .digest h
  | some h, .digestSoFar => callRef (digestSoFar b h) .digest h
  | some h, .finalizeHex => callRef (finalizeHex b h) .text h
  | some h, .finalizeReset => callMut (finalizeReset b) .digest h
  | some h, .reset => callMut reset (fun _ => .unit) h
  | some h, .bytesHashed => callRef (.ok (bytesHashed h)) .count h
  | some h, .zeroize => callMut zeroize (fun _ => .unit) h

/-- The operations that only look. -/
def Op.quiet : Op → Bool
  | .finalizeSnapshot | .digestSoFar | .finalizeHex | .bytesHashed => true
  | _ => false

end Md5

/-! ## The lane state -/

/-- Incremental state for one message of a multi-stream workload. -/
structure Md5State where
  raw : Raw
  deriving DecidableEq

namespace Md5State

def new : Md5State := ⟨Raw.new⟩

def onRaw {α : Type} (m : EStateM Fault Raw α) : EStateM Fault Md5State α :=
  zoom Md5State.raw (fun _ r => ⟨r⟩) m

theorem onRaw_ok {α : Type} {m : EStateM Fault Raw α} {h : Md5State} {r : Raw} {a : α}
    (hm : m h.raw = .ok a r) : onRaw m h = .ok a ⟨r⟩ := zoom_ok hm

variable (b : Build)

def update (input : Bytes) : EStateM Fault Md5State Unit := onRaw (Raw.updateOpt b input)

/-- A snapshot: the state is left unchanged. -/
def finalize (h : Md5State) : Except Fault Digest := h.raw.digestSnapshot (compressBlock b)

def reset : EStateM Fault Md5State Unit := onRaw Raw.reset

def bytesHashed (h : Md5State) : U64 := h.raw.count

def isEmpty (h : Md5State) : Bool := h.raw.count = 0

inductive Op where
  | update (input : Bytes)
  | finalize
  | reset
  | bytesHashed
  | isEmpty
  deriving DecidableEq

def step : Option Md5State → Op → Except Fault (Option Md5State × Out)
  | none, _ => .error movedValue
  | some h, .update input => callMut (update b input) (fun _ => .unit) h
  | some h, .finalize => callRef (finalize b h) .digest h
  | some h, .reset => callMut reset (fun _ => .unit) h
  | some h, .bytesHashed => callRef (.ok (bytesHashed h)) .count h
  | some h, .isEmpty => callRef (.ok (isEmpty h)) .flag h

def Op.quiet : Op → Bool
  | .finalize | .bytesHashed | .isEmpty => true
  | _ => false

end Md5State

/-! ## What a hasher is for -/

/-- What an object stands for. -/
inductive Meaning where
  /-- The bytes absorbed since the last reset. -/
  | message (M : Bytes)
  /-- Zeroized, and not reset since. -/
  | scrubbed
  /-- Consumed. -/
  | moved
  deriving DecidableEq

/-- Why a program is not allowed. -/
inductive Misuse where
  | scrubbed
  | moved
  | noObject
  deriving DecidableEq

variable (b : Build)

/-- The streaming hasher over messages. -/
def Md5.spec : Meaning → Md5.Op → Except Misuse (Meaning × Out)
  | .moved, _ => .error .moved
  | .scrubbed, .reset => .ok (.message [], .unit)
  | .scrubbed, .zeroize => .ok (.scrubbed, .unit)
  | .scrubbed, _ => .error .scrubbed
  | .message M, .update data => .ok (.message (M ++ data), .unit)
  | .message M, .chainUpdate data => .ok (.message (M ++ data), .unit)
  | .message M, .write buf => .ok (.message (M ++ buf), .len buf.length)
  | .message M, .flush => .ok (.message M, .unit)
  | .message M, .finalize => .ok (.moved, .digest (hash b M))
  | .message M, .finalizeSnapshot => .ok (.message M, .digest (hash b M))
  | .message M, .digestSoFar => .ok (.message M, .digest (hash b M))
  | .message M, .finalizeHex => .ok (.message M, .text (hexText (hash b M).toList))
  | .message M, .finalizeReset => .ok (.message [], .digest (hash b M))
  | .message _, .reset => .ok (.message [], .unit)
  | .message M, .bytesHashed => .ok (.message M, .count (BitVec.ofNat 64 M.length))
  | .message _, .zeroize => .ok (.scrubbed, .unit)

/-- The lane state over messages. -/
def Md5State.spec : Meaning → Md5State.Op → Except Misuse (Meaning × Out)
  | .moved, _ => .error .moved
  | .scrubbed, _ => .error .scrubbed
  | .message M, .update input => .ok (.message (M ++ input), .unit)
  | .message M, .finalize => .ok (.message M, .digest (hash b M))
  | .message _, .reset => .ok (.message [], .unit)
  | .message M, .bytesHashed => .ok (.message M, .count (BitVec.ofNat 64 M.length))
  | .message M, .isEmpty => .ok (.message M, .flag (M.length % 2 ^ 64 == 0))

/-- **The invariant**: what the fields are after the message `M`. -/
structure Absorbed (r : Raw) (M : Bytes) : Prop where
  bufLen_lt : r.bufLen < 64
  /-- The live bytes are the last `|M| mod 64` bytes of `M`. -/
  live : r.buf.toList.take r.bufLen = M.drop (M.length - M.length % 64)
  state : r.state = (blocks 64 M).foldl (compressBlock b) stateInit
  count : r.count = BitVec.ofNat 64 M.length

/-- A `Raw` that may be missing against what it stands for. -/
def Follows : Option Raw → Meaning → Prop
  | some r, .message M => Absorbed b r M
  | some _, .scrubbed => True
  | none, .moved => True
  | _, _ => False

variable {b : Build}

theorem absorbed_iff {r : Raw} {M : Bytes} :
    Absorbed b r M ↔ r.Holds (Stream.fresh.absorb (compressBlock b) M) := by
  have hdrop : M.length - M.length % 64 = M.length / 64 * 64 := by omega
  rw [Stream.absorb_fresh]
  constructor
  · rintro ⟨h1, h2, h3, h4⟩
    exact ⟨h1, h3, h2.trans (by rw [hdrop]; rfl), h4⟩
  · rintro ⟨h1, h2, h3, h4⟩
    exact ⟨h1, h3.trans (by rw [hdrop]; rfl), h2, h4⟩

/-! ## One operation -/

theorem absorbed_new : Absorbed b Raw.new [] := by
  rw [absorbed_iff, Stream.absorb_nil]
  exact Raw.holds_new

theorem absorbed_update {r : Raw} {M : Bytes} (hr : Absorbed b r M) (data : Bytes) :
    ∃ r', Raw.updateOpt b data r = .ok () r' ∧ Absorbed b r' (M ++ data) := by
  simp only [absorbed_iff, Stream.absorb_append] at hr ⊢
  exact Raw.updateOpt_run b hr data

theorem absorbed_digest (hk : b.OptKernelOk) {r : Raw} {M : Bytes} (hr : Absorbed b r M) :
    r.digestSnapshot (compressBlock b) = .ok (hash b M) := by
  rw [Raw.digestSnapshot_run (absorbed_iff.mp hr), Stream.digest_absorb_fresh, hashWith_eq,
    hash_eq_padded hk]

theorem hexEncode_digest (d : Digest) : hexEncode d.toList = .ok (hexText d.toList) :=
  hexEncode_run (by simp)

theorem Md5.update_run {h : Md5} {M : Bytes} (hr : Absorbed b h.raw M) (data : Bytes) :
    ∃ r, Md5.update b data h = .ok () ⟨r⟩ ∧ Absorbed b r (M ++ data) := by
  obtain ⟨r, hrun, hr'⟩ := absorbed_update hr data
  exact ⟨r, onRaw_ok hrun, hr'⟩

theorem Md5.finalizeReset_run (hk : b.OptKernelOk) {h : Md5} {M : Bytes} (hr : Absorbed b h.raw M) :
    Md5.finalizeReset b h = .ok (hash b M) Md5.new := by
  unfold Md5.finalizeReset
  rw [bind_ok (get_run h), absorbed_digest hk hr]
  rfl

theorem Md5.finalizeHex_run (hk : b.OptKernelOk) {h : Md5} {M : Bytes} (hr : Absorbed b h.raw M) :
    Md5.finalizeHex b h = .ok (hexText (hash b M).toList) := by
  rw [Md5.finalizeHex, Except.bind_ok (absorbed_digest hk hr), hexEncode_digest]

/-- One call of the streaming hasher does what the specification says. -/
theorem Md5.simulates (hk : b.OptKernelOk) :
    Pool.Simulates (fun h g => Follows b (h.map Md5.raw) g) (Md5.step b) (Md5.spec b) := by
  intro h g op g' out hR hspec
  rcases h with _ | h
  · cases g with
    | moved => cases hspec
    | message | scrubbed => exact hR.elim
  · cases g with
    | moved => exact hR.elim
    | scrubbed =>
      cases op with
      | reset =>
        cases hspec
        exact ⟨some Md5.new, rfl, absorbed_new⟩
      | zeroize =>
        cases hspec
        exact ⟨_, rfl, trivial⟩
      | _ => cases hspec
    | message M =>
      have hr : Absorbed b h.raw M := hR
      cases op with
      | update data =>
        cases hspec
        obtain ⟨r, hrun, hr'⟩ := Md5.update_run hr data
        exact ⟨some ⟨r⟩, callMut_ok hrun, hr'⟩
      | chainUpdate data =>
        cases hspec
        obtain ⟨r, hrun, hr'⟩ := Md5.update_run hr data
        exact ⟨some ⟨r⟩, callMut_ok hrun, hr'⟩
      | write buf =>
        cases hspec
        obtain ⟨r, hrun, hr'⟩ := Md5.update_run hr buf
        exact ⟨some ⟨r⟩, callMut_ok (bind_ok hrun), hr'⟩
      | flush =>
        cases hspec
        exact ⟨some h, rfl, hr⟩
      | finalize =>
        cases hspec
        exact ⟨none, callMove_ok (absorbed_digest hk hr), trivial⟩
      | finalizeSnapshot =>
        cases hspec
        exact ⟨some h, callRef_ok (absorbed_digest hk hr), hr⟩
      | digestSoFar =>
        cases hspec
        exact ⟨some h, callRef_ok (absorbed_digest hk hr), hr⟩
      | finalizeHex =>
        cases hspec
        exact ⟨some h, callRef_ok (Md5.finalizeHex_run hk hr), hr⟩
      | finalizeReset =>
        cases hspec
        exact ⟨some Md5.new, callMut_ok (Md5.finalizeReset_run hk hr), absorbed_new⟩
      | reset =>
        cases hspec
        exact ⟨some Md5.new, rfl, absorbed_new⟩
      | bytesHashed =>
        cases hspec
        exact ⟨some h, by rw [← hr.count]; rfl, hr⟩
      | zeroize =>
        cases hspec
        exact ⟨_, rfl, trivial⟩

/-- One call of the lane state does what the specification says. -/
theorem Md5State.simulates (hk : b.OptKernelOk) :
    Pool.Simulates (fun h g => Follows b (h.map Md5State.raw) g) (Md5State.step b)
      (Md5State.spec b) := by
  intro h g op g' out hR hspec
  rcases h with _ | h
  · cases g with
    | moved => cases hspec
    | message | scrubbed => exact hR.elim
  · cases g with
    | moved => exact hR.elim
    | scrubbed => cases hspec
    | message M =>
      have hr : Absorbed b h.raw M := hR
      cases op with
      | update input =>
        cases hspec
        obtain ⟨r, hrun, hr'⟩ := absorbed_update hr input
        exact ⟨some ⟨r⟩, callMut_ok (Md5State.onRaw_ok hrun), hr'⟩
      | finalize =>
        cases hspec
        exact ⟨some h, callRef_ok (absorbed_digest hk hr), hr⟩
      | reset =>
        cases hspec
        exact ⟨some Md5State.new, rfl, absorbed_new⟩
      | bytesHashed =>
        cases hspec
        exact ⟨some h, by rw [← hr.count]; rfl, hr⟩
      | isEmpty =>
        cases hspec
        have hflag : Md5State.isEmpty h = (M.length % 2 ^ 64 == 0) := by
          rw [Md5State.isEmpty, hr.count, Bool.eq_iff_iff]
          simp [← BitVec.toNat_inj]
        exact ⟨some h, by rw [← hflag]; rfl, hr⟩

/-! ## Operations that only look -/

theorem Md5.quiet_same {h h' : Option Md5} {op : Md5.Op} {out : Out} (hq : op.quiet = true)
    (hstep : Md5.step b h op = .ok (h', out)) : h' = h := by
  rcases h with _ | h
  · cases hstep
  · cases op <;> first | exact callRef_same hstep | cases hq

theorem Md5State.quiet_same {h h' : Option Md5State} {op : Md5State.Op} {out : Out}
    (hq : op.quiet = true) (hstep : Md5State.step b h op = .ok (h', out)) : h' = h := by
  rcases h with _ | h
  · cases hstep
  · cases op <;> first | exact callRef_same hstep | cases hq

/-! ## Every program -/

/-- **The hashers do what they are for.** Every program over `Md5` objects, or over `Md5State`
objects, that the specification allows runs without fault from one new object: every result is
the specified one, each object's fields follow its message, and snapshots can be left out without
changing any other result. -/
theorem hashers_implement (hk : b.OptKernelOk) :
    Pool.Implements noObject Misuse.noObject (Md5.step b) (Md5.spec b)
        (fun h g => Follows b (h.map Md5.raw) g) Md5.Op.quiet (some Md5.new) (.message []) ∧
      Pool.Implements noObject Misuse.noObject (Md5State.step b) (Md5State.spec b)
        (fun h g => Follows b (h.map Md5State.raw) g) Md5State.Op.quiet (some Md5State.new)
        (.message []) :=
  ⟨Pool.implements_of_simulates (Md5.simulates hk) Md5.quiet_same absorbed_new,
    Pool.implements_of_simulates (Md5State.simulates hk) Md5State.quiet_same absorbed_new⟩

/-- A snapshot of one hasher while a clone of it goes on. -/
theorem hashers_implement_clone :
    ∃ hs, Pool.run noObject (Md5.step optBuild) [some Md5.new]
        [.call 0 (.update [1]), .clone 0, .call 1 (.update [2]), .call 0 .finalizeSnapshot,
          .call 1 .finalize] =
        .ok (hs, [⟨0, .update [1], .unit⟩, ⟨1, .update [2], .unit⟩,
          ⟨0, .finalizeSnapshot, .digest (hash optBuild [1])⟩,
          ⟨1, .finalize, .digest (hash optBuild [1, 2])⟩]) ∧
      List.Forall₂ (fun h g => Follows optBuild (h.map Md5.raw) g) hs [.message [1], .moved] := by
  obtain ⟨hs, hrun, hfollows, -⟩ := (hashers_implement optKernelOk_optBuild).1
    [.call 0 (.update [1]), .clone 0, .call 1 (.update [2]), .call 0 .finalizeSnapshot,
      .call 1 .finalize] [.message [1], .moved] _ rfl
  exact ⟨hs, hrun, hfollows⟩

end Md5Simd
