import Md5Simd.Lib.Service
import Md5Simd.DigestCompat
import Md5Simd.HexText
import Md5Simd.Reader
import Md5Simd.Resume
import Md5Simd.Rfc1321.Refine
import Md5Simd.Simd.SingleStream
import Md5Simd.Streams

/-!
# The whole crate

All that the crate hashes with in one service: streaming hashers, new or resumed,
lane states with their rounds and snapshots, wrapped hashers, the functions that
hash at once, raw compression and the hex encoders. A session uses all of them in
any order.

What the crate is for is a service over messages (`ideal`): an object is the bytes
it has absorbed, an operation changes them and tells something of them (`Sense`),
and every digest is that of RFC 1321. It has no build, no kernel, no buffer and no
schedule. `sessions_rfc1321` says that the crate refines it on every build.
-/

namespace Md5Simd

open Lib Engine

/-! ## The functions that hash at once -/

section Functions

variable (b : Build)

def digest (data : Bytes) : Digest := hash b data

def digestHex (data : Bytes) : Except Fault Bytes := hexEncode (digest b data).toList

/-- Alias of `digest_hex`. -/
def etagHex (data : Bytes) : Except Fault Bytes := digestHex b data

def digestPortable (data : Bytes) : Digest := hashTextbook data

def digestOptScalar (data : Bytes) : Digest := hashInTree data

def Engine.hashOne (input : Bytes) : Digest := hash b input

/-- `hash_many` of the process-default engine. -/
def md5Many (inputs : List Bytes) : EStateM Fault Ledger Unit := hashMany b inputs

end Functions

/-! ## The service of the crate -/

/-- A reader for a buffer of `m` bytes: answers that go on, then one that does not, and whatever
would come behind it. -/
structure Reader (π : Type) (m : Nat) where
  body : List (ReadCall π)
  last : ReadCall π
  rest : List (ReadCall π)
  goesOn : ∀ c ∈ body, c.GoesOn
  fits : ∀ c ∈ body, c.Fits m
  stops : ¬last.GoesOn

def Reader.calls {π : Type} {m : Nat} (r : Reader π m) : List (ReadCall π) :=
  r.body ++ r.last :: r.rest

/-- How a session makes an object. -/
inductive Kind where
  /-- `Md5::new`, as `Md5Engine::hasher` has it. -/
  | hasher
  /-- `Md5::from_parts` on the raw compression of these bytes. -/
  | resumed (whole : Bytes)
  /-- `Md5::from_parts` on anything. -/
  | fromParts (state : State) (countBytes : U64)
  /-- As many new lane states. -/
  | lanes (n : Nat)
  /-- A new wrapped hasher. -/
  | wrapped

/-- An object of a session. -/
inductive Obj (E : EagerBuffer) where
  | hasher (h : Option Md5)
  | lanes (states : List Md5State)
  | wrapped (d : Option (DigestMd5 E))

/-- An operation on an object. -/
inductive ObjOp where
  | hasher (op : Md5.Op)
  /-- `update_many` and `finalize_many` on all lane states. -/
  | lanes (op : StreamOp)
  /-- A method of lane state `k`. -/
  | lane (k : Nat) (op : Md5State.Op)
  | wrapped (op : DigestMd5.Op)

/-- A call that is about no object. -/
inductive Ask (π : Type) where
  | digest (data : Bytes)
  | digestHex (data : Bytes)
  | etagHex (data : Bytes)
  | digestPortable (data : Bytes)
  | digestOptScalar (data : Bytes)
  | hexEncodeDigest (digest : Digest)
  | hashOne (input : Bytes)
  | hashPair (x y : Bytes)
  | hashMany (inputs : List Bytes) (outputs : List Digest)
  | md5Many (inputs : List Bytes) (outputs : List Digest)
  | hashManyGrouped (inputs : List Bytes) (outputs : List Digest)
  | hashManyHex (inputs outputs : List Bytes)
  | hexEncode (bytes : Bytes)
  | hexEncodeInto (bytes out : Bytes)
  | compressBlock (state : State) (block : Block)
  | compressBlocks (state : State) (data : Bytes)
  | digestReader (reader : Reader π 65536)
  | etagHexStreaming (chunk : Nat) (reader : Reader π (clamp chunk 4096 (1024 * 1024)))

/-- What a line of a session shows. -/
inductive Reply (π : Type) where
  | out (o : Out)
  /-- How a call on an output slice of digests ended, and the slice after it. -/
  | outcome (o : Outcome)
  /-- The same of a slice of texts. -/
  | texts (result : Except Fault Unit) (outputs : List Bytes)
  | pair (x y : Digest)
  | text (result : Except Fault Bytes)
  /-- The bytes written to a slice, and the slice. -/
  | written (result : Except Fault Nat) (out : Bytes)
  /-- A compression, and the caller's state after it. -/
  | state (result : Except Fault Unit) (s : State)
  | read (result : Except (IoError π) Out)

section Crate

variable (b : Build) (sorter : UnstableSort) {π : Type} {E : EagerBuffer}

/-- A call whose panic the caller catches. -/
def caught {σ α : Type} (m : EStateM Fault σ α) (s : σ) : Except Fault α × σ :=
  match m s with
  | .ok a s => (.ok a, s)
  | .error e s => (.error e, s)

/-- A call of a dispatcher on an output slice. -/
def onSlots (m : EStateM Fault Ledger Unit) (outputs : List Digest) : Reply π :=
  let r := caught m ⟨outputs, []⟩
  .outcome ⟨r.1, r.2.outputs⟩

/-- A reader's result, the log of its buffers being dropped. -/
def readResult {α : Type} (m : EStateM Fault (List Nat) (Except (IoError π) α)) (out : α → Out) :
    Except Fault (Reply π) :=
  (runOn [] m).map fun r => .read (r.1.map out)

def create : Kind → Except Fault (Obj E)
  | .hasher => .ok (.hasher (some Md5.new))
  | .resumed whole =>
    (runOn iv (compressBlocks b whole)).map fun r =>
      .hasher (some (Md5.fromParts r.2 (lenU64 whole)))
  | .fromParts state countBytes => .ok (.hasher (some (Md5.fromParts state countBytes)))
  | .lanes n => .ok (.lanes (List.replicate n Md5State.new))
  | .wrapped => .ok (.wrapped (some DigestMd5.new))

def laneStep (states : List Md5State) (k : Nat) (op : Md5State.Op) :
    Except Fault (List Md5State × Out) :=
  match states[k]? with
  | none => .error noObject
  | some state => (Md5State.step b (some state) op).map fun r =>
      (r.1.elim states (states.set k), r.2)

def objStep : Obj E → ObjOp → Except Fault (Obj E × Reply π)
  | .hasher h, .hasher op => (Md5.step b h op).map fun r => (.hasher r.1, .out r.2)
  | .lanes states, .lanes op => .ok (.lanes (call b states op).1, .outcome (call b states op).2)
  | .lanes states, .lane k op => (laneStep b states k op).map fun r => (.lanes r.1, .out r.2)
  | .wrapped d, .wrapped op => (DigestMd5.step b d op).map fun r => (.wrapped r.1, .out r.2)
  | _, _ => .error noObject

def answer : Ask π → Except Fault (Reply π)
  | .digest data => .ok (.out (.digest (digest b data)))
  | .digestHex data => (digestHex b data).map (.out ∘ .text)
  | .etagHex data => (etagHex b data).map (.out ∘ .text)
  | .digestPortable data => .ok (.out (.digest (digestPortable data)))
  | .digestOptScalar data => .ok (.out (.digest (digestOptScalar data)))
  | .hexEncodeDigest digest => (hexEncodeDigest digest).map (.out ∘ .text)
  | .hashOne input => .ok (.out (.digest (hashOne b input)))
  | .hashPair x y => (hashPair b x y).map fun d => .pair d.1 d.2
  | .hashMany inputs outputs => .ok (onSlots (hashMany b inputs) outputs)
  | .md5Many inputs outputs => .ok (onSlots (md5Many b inputs) outputs)
  | .hashManyGrouped inputs outputs => .ok (onSlots (hashManyGrouped b sorter inputs) outputs)
  | .hashManyHex inputs outputs =>
    let r := caught (hashManyHex b inputs) outputs
    .ok (.texts r.1 r.2)
  | .hexEncode bytes => .ok (.text (hexEncode bytes))
  | .hexEncodeInto bytes out =>
    let r := caught (hexEncodeInto bytes) out
    .ok (.written r.1 r.2)
  | .compressBlock state block => .ok (.state (.ok ()) (compressBlock b state block))
  | .compressBlocks state data =>
    let r := caught (compressBlocks b data) state
    .ok (.state r.1 r.2)
  | .digestReader reader => readResult (digestReader b reader.calls) .digest
  | .etagHexStreaming chunk reader => readResult (etagHexStreaming b reader.calls chunk) .text

/-- The crate on a build, with a buffer of the `digest` crate and a sort of the library. -/
def crate (E : EagerBuffer) (π : Type) : Service Fault Kind ObjOp (Ask π) (Reply π) (Obj E) where
  create := create b
  step := objStep b
  answer := answer b sorter

end Crate

/-! ## What the crate is for -/

/-- What an operation makes of a message. -/
inductive Effect where
  | append (data : Bytes)
  | clear
  | keep
  | scrub
  | consume

/-- What it tells of the message it finds. -/
inductive Told where
  | unit
  | len (n : Nat)
  | digest
  | text
  | count
  | isEmpty

/-- The sense of an operation. -/
structure Sense where
  effect : Effect
  told : Told

def Effect.apply (M : Bytes) : Effect → Meaning
  | .append data => .message (M ++ data)
  | .clear => .message []
  | .keep => .message M
  | .scrub => .scrubbed
  | .consume => .moved

/-- The digest of RFC 1321. -/
noncomputable def rfcDigest (M : Bytes) : Digest :=
  Vector.ofFn fun i : Fin 16 => (Rfc1321.md5 M).getD i 0

noncomputable def rfcText (M : Bytes) : Bytes := hexText (rfcDigest M).toList

noncomputable def rfcBlock (state : State) (block : Block) : State :=
  let r := Rfc1321.process (blockWords block) (toBuffer state)
  Regs.toState ⟨r.A, r.B, r.C, r.D⟩

noncomputable def Told.of (M : Bytes) : Told → Out
  | .unit => .unit
  | .len n => .len n
  | .digest => .digest (rfcDigest M)
  | .text => .text (rfcText M)
  | .count => .count (BitVec.ofNat 64 M.length)
  | .isEmpty => .flag (M.length % 2 ^ 64 == 0)

def Md5.Op.sense : Md5.Op → Sense
  | .update data => ⟨.append data, .unit⟩
  | .chainUpdate data => ⟨.append data, .unit⟩
  | .write buf => ⟨.append buf, .len buf.length⟩
  | .flush => ⟨.keep, .unit⟩
  | .finalize => ⟨.consume, .digest⟩
  | .finalizeSnapshot => ⟨.keep, .digest⟩
  | .digestSoFar => ⟨.keep, .digest⟩
  | .finalizeHex => ⟨.keep, .text⟩
  | .finalizeReset => ⟨.clear, .digest⟩
  | .reset => ⟨.clear, .unit⟩
  | .bytesHashed => ⟨.keep, .count⟩
  | .zeroize => ⟨.scrub, .unit⟩

def Md5State.Op.next (M : Bytes) : Md5State.Op → Bytes
  | .update input => M ++ input
  | .reset => []
  | _ => M

def Md5State.Op.told : Md5State.Op → Told
  | .update _ => .unit
  | .finalize => .digest
  | .reset => .unit
  | .bytesHashed => .count
  | .isEmpty => .isEmpty

/-- Why a session stands for nothing: the compiler refuses it, the documentation does, the words
given to `from_parts` are those of no message it can tell, or raw compression panics on a partial
block. -/
inductive Refusal where
  | moved
  | noObject
  | otherKind
  | scrubbed
  | unknownChain
  | partialBlock

/-- An operation on a message; a scrubbed hasher may only be reset, or scrubbed again. -/
noncomputable def Meaning.act : Meaning → Sense → Except Refusal (Meaning × Out)
  | .message M, op => .ok (op.effect.apply M, op.told.of M)
  | .scrubbed, ⟨.clear, .unit⟩ => .ok (.message [], .unit)
  | .scrubbed, ⟨.scrub, .unit⟩ => .ok (.scrubbed, .unit)
  | .scrubbed, _ => .error .scrubbed
  | .moved, _ => .error .moved

/-- What an object stands for. -/
inductive Ideal where
  | hasher (g : Meaning)
  | lanes (messages : List Bytes)
  | wrapped (g : Meaning)

section Ideal

variable {π : Type}

def idealCreate : Kind → Except Refusal Ideal
  | .hasher => .ok (.hasher (.message []))
  | .resumed whole =>
    if 64 ∣ whole.length then .ok (.hasher (.message whole)) else .error .partialBlock
  | .fromParts _ _ => .error .unknownChain
  | .lanes n => .ok (.lanes (List.replicate n []))
  | .wrapped => .ok (.wrapped (.message []))

/-- A slice of outputs, one in the slot of every input. -/
def inSlots {α β : Type} (f : α → β) (inputs : List α) (outputs : List β) :
    Except Fault Unit × List β :=
  if outputs.length < inputs.length then
    (.error (Ledger.tooShort outputs.length inputs.length), outputs)
  else
    (.ok (), inputs.map f ++ outputs.drop inputs.length)

/-- A round or a snapshot of all lanes. -/
noncomputable def idealCall (messages : List Bytes) : StreamOp → List Bytes × Outcome
  | .updateMany inputs =>
    if messages.length = inputs.length then
      (messages.zipWith (· ++ ·) inputs, ⟨.ok (), []⟩)
    else
      (messages, ⟨.error (lengthsDiffer messages.length inputs.length), []⟩)
  | .finalizeMany outputs =>
    if outputs.length < messages.length then
      (messages, ⟨.error (fewOutputs outputs.length messages.length), outputs⟩)
    else
      (messages, ⟨.ok (), messages.map rfcDigest ++ outputs.drop messages.length⟩)

noncomputable def idealStep : Ideal → ObjOp → Except Refusal (Ideal × Reply π)
  | .hasher g, .hasher op => (g.act op.sense).map fun r => (.hasher r.1, .out r.2)
  | .lanes messages, .lanes op =>
    .ok (.lanes (idealCall messages op).1, .outcome (idealCall messages op).2)
  | .lanes messages, .lane k op =>
    match messages[k]? with
    | some M => .ok (.lanes (messages.set k (op.next M)), .out (op.told.of M))
    | none => .error .noObject
  | .wrapped g, .wrapped op => (g.act op.native.sense).map fun r => (.wrapped r.1, .out r.2)
  | _, _ => .error .otherKind

noncomputable def idealSlots (inputs : List Bytes) (outputs : List Digest) : Reply π :=
  .outcome ⟨(inSlots rfcDigest inputs outputs).1, (inSlots rfcDigest inputs outputs).2⟩

noncomputable def idealAnswer : Ask π → Reply π
  | .digest data | .digestPortable data | .digestOptScalar data | .hashOne data =>
    .out (.digest (rfcDigest data))
  | .digestHex data | .etagHex data => .out (.text (rfcText data))
  | .hexEncodeDigest digest => .out (.text (hexText digest.toList))
  | .hashPair x y => .pair (rfcDigest x) (rfcDigest y)
  | .hashMany inputs outputs | .md5Many inputs outputs | .hashManyGrouped inputs outputs =>
    idealSlots inputs outputs
  | .hashManyHex inputs outputs =>
    .texts (inSlots rfcText inputs outputs).1 (inSlots rfcText inputs outputs).2
  | .hexEncode bytes =>
    .text (if bytes.length * 2 < 2 ^ 64 then .ok (hexText bytes)
      else .error (.panic "hex length overflow"))
  | .hexEncodeInto bytes out =>
    if out.length < 2 * bytes.length then
      .written (.error (.panic "hex output is too short")) out
    else
      .written (.ok (2 * bytes.length)) (hexText bytes ++ out.drop (2 * bytes.length))
  | .compressBlock state block => .state (.ok ()) (rfcBlock state block)
  | .compressBlocks state data =>
    if 64 ∣ data.length then .state (.ok ()) ((blocks 64 data).foldl rfcBlock state)
    else .state (.error (partialBlock data.length)) state
  | .digestReader reader =>
    .read ((reader.last.conclude (rfcDigest (delivered reader.body))).map .digest)
  | .etagHexStreaming _ reader =>
    .read ((reader.last.conclude (rfcText (delivered reader.body))).map .text)

end Ideal

/-- The crate without a build. -/
noncomputable def ideal (π : Type) : Service Refusal Kind ObjOp (Ask π) (Reply π) Ideal where
  create := idealCreate
  step := idealStep
  answer request := .ok (idealAnswer request)

/-! ## Digests and texts -/

variable {b : Build} {E : EagerBuffer} {π : Type}

theorem hash_eq_rfcDigest (hk : b.OptKernelOk) (M : Bytes) : hash b M = rfcDigest M := by
  have hlist : (hash b M).toList = Rfc1321.md5 M := by
    rw [hash_eq_textbook hk, hashWith_rfc1321]
  have hlen : (Rfc1321.md5 M).length = 16 := by rw [← hlist, Vector.length_toList]
  apply Vector.toList_inj.mp
  rw [hlist]
  apply List.ext_getElem
  · rw [hlen, Vector.length_toList]
  · intro i hi hi'
    simp [rfcDigest, hi]

theorem compressBlock_eq_rfcBlock (hk : b.OptKernelOk) (s : State) (blk : Block) :
    compressBlock b s blk = rfcBlock s blk := by
  have hprocess := process_toBuffer (blockWords_eq blk) s
  rw [compressBlock_eq_textbook hk, rfcBlock, hprocess]
  exact (Regs.toState_ofState _).symm

theorem digestHex_run (hk : b.OptKernelOk) (M : Bytes) : digestHex b M = .ok (rfcText M) := by
  rw [digestHex, digest, hexEncode_digest, hash_eq_rfcDigest hk, rfcText]

/-! ## One operation -/

/-- The operations of the streaming hasher have the sense the specification gives them. -/
theorem Md5.spec_of_act (hk : b.OptKernelOk) {g : Meaning} {op : Md5.Op} {r : Meaning × Out}
    (h : g.act op.sense = .ok r) : Md5.spec b g op = .ok r := by
  cases g with
  | moved => cases h
  | scrubbed => cases op <;> cases h <;> rfl
  | message M =>
    have hH := hash_eq_rfcDigest hk M
    cases op <;> cases h <;> simp only [Md5.spec, hH] <;> rfl

theorem Md5State.spec_message (hk : b.OptKernelOk) (M : Bytes) (op : Md5State.Op) :
    Md5State.spec b (.message M) op = .ok (.message (op.next M), op.told.of M) := by
  have hH := hash_eq_rfcDigest hk M
  cases op <;> simp only [Md5State.spec, hH] <;> rfl

/-- The lane states against their messages. -/
def FollowLanes (b : Build) (states : List Md5State) (messages : List Bytes) : Prop :=
  List.Forall₂ (fun s M => Absorbed b s.raw M) states messages

theorem FollowLanes.lanes {states : List Md5State} {messages : List Bytes}
    (h : FollowLanes b states messages) :
    Lanes b messages.length (fun k => messages.getD k []) states := by
  refine ⟨h.length_eq, fun k hk => ?_⟩
  have hk' : k < messages.length := h.length_eq ▸ hk
  rw [List.getD_eq_getElem _ _ hk']
  exact h.get hk hk'

theorem followLanes_of_lanes {states : List Md5State} {messages : List Bytes} {msg : Nat → Bytes}
    (h : Lanes b messages.length msg states) (hmsg : ∀ k (hk : k < messages.length),
      msg k = messages[k]) : FollowLanes b states messages := by
  apply List.forall₂_iff_get.mpr
  refine ⟨h.count, fun k hk hk' => ?_⟩
  rw [List.get_eq_getElem, List.get_eq_getElem, ← hmsg k hk']
  exact h.lane k hk

theorem followLanes_new (b : Build) (n : Nat) :
    FollowLanes b (List.replicate n Md5State.new) (List.replicate n []) := by
  apply List.forall₂_iff_get.mpr
  refine ⟨by simp, fun k hk hk' => ?_⟩
  simp only [List.get_eq_getElem, List.getElem_replicate]
  exact absorbed_new

theorem followLanes_call (hk : b.OptKernelOk) {states : List Md5State} {messages : List Bytes}
    (h : FollowLanes b states messages) (op : StreamOp) :
    (call b states op).2 = (idealCall messages op).2 ∧
      FollowLanes b (call b states op).1 (idealCall messages op).1 := by
  have hlen : states.length = messages.length := h.length_eq
  cases op with
  | updateMany inputs =>
    by_cases hn : messages.length = inputs.length
    · obtain ⟨states', hrun, hstates⟩ := updateMany_run h.lanes hn
      simp only [call, hrun, idealCall, if_pos hn]
      have hsize : (messages.zipWith (· ++ ·) inputs).length = messages.length := by
        rw [List.length_zipWith, hn, Nat.min_self]
      refine ⟨trivial, followLanes_of_lanes (hsize ▸ hstates) fun k hlt => ?_⟩
      rw [hsize] at hlt
      rw [List.getElem_zipWith, List.getD_eq_getElem _ _ hlt, List.getD_eq_getElem _ _ (hn ▸ hlt)]
    · have hrun := updateMany_differ (b := b) (hlen ▸ hn)
      simp only [call, hrun, idealCall, if_neg hn, hlen]
      exact ⟨trivial, h⟩
  | finalizeMany outputs =>
    by_cases hn : outputs.length < messages.length
    · have hrun := finalizeMany_short (b := b) (hlen ▸ hn)
      simp only [call, hrun, idealCall, if_pos hn, hlen]
      exact ⟨trivial, h⟩
    · have hdigests : (List.range messages.length).map (fun k => hash b (messages.getD k [])) =
          messages.map rfcDigest := by
        apply List.ext_getElem (by simp)
        intro k hk1 hk2
        rw [List.length_map, List.length_range] at hk1
        rw [List.getElem_map, List.getElem_map, List.getElem_range, List.getD_eq_getElem _ _ hk1,
          hash_eq_rfcDigest hk]
      have hrun := finalizeMany_run hk h.lanes (Nat.le_of_not_lt hn)
      simp only [call, hrun, idealCall, if_neg hn, hdigests]
      exact ⟨trivial, h⟩

theorem followLanes_lane (hk : b.OptKernelOk) {states : List Md5State} {messages : List Bytes}
    (h : FollowLanes b states messages) {k : Nat} (hlt : k < messages.length)
    (op : Md5State.Op) :
    ∃ states', laneStep b states k op = .ok (states', op.told.of messages[k]) ∧
      FollowLanes b states' (messages.set k (op.next messages[k])) := by
  have hlt' : k < states.length := by rw [h.length_eq]; exact hlt
  obtain ⟨s', hstep, hfollows⟩ := Md5State.simulates hk (some states[k]) (.message messages[k]) op
    _ _ (h.get hlt' hlt) (Md5State.spec_message hk messages[k] op)
  obtain ⟨s, rfl⟩ : ∃ s, s' = some s := by
    cases s' with
    | none => exact hfollows.elim
    | some s => exact ⟨s, rfl⟩
  refine ⟨states.set k s, ?_, Pool.forall₂_set h k hfollows⟩
  rw [laneStep, List.getElem?_eq_getElem hlt']
  exact Except.map_eq_ok.mpr ⟨_, hstep, rfl⟩

/-- An object against what it stands for. -/
def Obj.Follows (b : Build) : Obj E → Ideal → Prop
  | .hasher h, .hasher g => Md5Simd.Follows b (h.map Md5.raw) g
  | .lanes states, .lanes messages => FollowLanes b states messages
  | .wrapped d, .wrapped g => DigestMd5.Follows b d g
  | _, _ => False

theorem objStep_simulates (hk : b.OptKernelOk) :
    Pool.Simulates (Obj.Follows (E := E) b) (objStep (π := π) b) idealStep := by
  intro s a op a' out hR h
  cases s with
  | hasher st =>
    cases a with
    | lanes | wrapped => exact hR.elim
    | hasher g =>
      cases op with
      | lanes | lane | wrapped => cases h
      | hasher op =>
        obtain ⟨r, hact, heq⟩ := Except.map_eq_ok.mp h
        obtain ⟨rfl, rfl⟩ := Prod.mk.inj heq
        obtain ⟨st', hstep, hfollows⟩ := Md5.simulates hk _ _ _ _ _ hR (Md5.spec_of_act hk hact)
        exact ⟨.hasher st', Except.map_eq_ok.mpr ⟨_, hstep, rfl⟩, hfollows⟩
  | lanes states =>
    cases a with
    | hasher | wrapped => exact hR.elim
    | lanes messages =>
      cases op with
      | hasher | wrapped => cases h
      | lanes op =>
        cases h
        obtain ⟨hout, hfollows⟩ := followLanes_call hk hR op
        exact ⟨.lanes (call b states op).1, by rw [objStep, hout], hfollows⟩
      | lane k op =>
        by_cases hlt : k < messages.length
        swap
        · simp [idealStep, hlt] at h
        rw [idealStep, List.getElem?_eq_getElem hlt] at h
        cases h
        obtain ⟨states', hstep, hfollows⟩ := followLanes_lane hk hR hlt op
        exact ⟨.lanes states', Except.map_eq_ok.mpr ⟨_, hstep, rfl⟩, hfollows⟩
  | wrapped d =>
    cases a with
    | hasher | lanes => exact hR.elim
    | wrapped g =>
      cases op with
      | hasher | lanes | lane => cases h
      | wrapped op =>
        obtain ⟨r, hact, heq⟩ := Except.map_eq_ok.mp h
        obtain ⟨rfl, rfl⟩ := Prod.mk.inj heq
        obtain ⟨d', hstep, hfollows⟩ := DigestMd5.simulates hk _ _ _ _ _ hR
          (Md5.spec_of_act hk hact)
        exact ⟨.wrapped d', Except.map_eq_ok.mpr ⟨_, hstep, rfl⟩, hfollows⟩

/-! ## New objects -/

theorem absorbed_resumed {whole : Bytes} (h : 64 ∣ whole.length) :
    Absorbed b (Md5.fromParts ((blocks 64 whole).foldl (compressBlock b) iv) (lenU64 whole)).raw
      whole := by
  have htail : emptyTail = tail 64 whole := Subtype.ext (tail_of_dvd h).symm
  rw [absorbed_iff, Stream.absorb_fresh, ← htail]
  exact holds_fromParts _ _

theorem create_refines (kind : Kind) (a : Ideal) (h : idealCreate kind = .ok a) :
    ∃ o : Obj E, create b kind = .ok o ∧ o.Follows b a := by
  cases kind with
  | hasher =>
    cases h
    exact ⟨_, rfl, absorbed_new⟩
  | resumed whole =>
    by_cases hdvd : 64 ∣ whole.length
    · rw [idealCreate, if_pos hdvd] at h
      cases h
      refine ⟨.hasher (some (Md5.fromParts _ _)), ?_, absorbed_resumed hdvd⟩
      rw [create, runOn, compressBlocks_run hdvd]
      rfl
    · rw [idealCreate, if_neg hdvd] at h
      cases h
  | fromParts state countBytes => cases h
  | lanes n =>
    cases h
    exact ⟨_, rfl, followLanes_new b n⟩
  | wrapped =>
    cases h
    exact ⟨_, rfl, mirrors_new⟩

/-! ## Requests -/

/-- A dispatcher that leaves the one-shot digests in their slots, and panics when they do not fit. -/
theorem onSlots_eq (hk : b.OptKernelOk) {m : EStateM Fault Ledger Unit} {inputs : List Bytes}
    {outputs : List Digest}
    (hfits : inputs.length ≤ outputs.length → ∃ calls, m ⟨outputs, []⟩ =
      .ok () ⟨inputs.map (hash b) ++ outputs.drop inputs.length, calls⟩)
    (hshort : outputs.length < inputs.length →
      m ⟨outputs, []⟩ = .error (Ledger.tooShort outputs.length inputs.length) ⟨outputs, []⟩) :
    (onSlots m outputs : Reply π) = idealSlots inputs outputs := by
  have hH : hash b = rfcDigest := funext (hash_eq_rfcDigest hk)
  by_cases h : outputs.length < inputs.length
  · rw [onSlots, caught, hshort h, idealSlots, inSlots, if_pos h]
  · obtain ⟨calls, hrun⟩ := hfits (Nat.le_of_not_lt h)
    rw [onSlots, caught, hrun, idealSlots, inSlots, if_neg h, hH]

theorem hashMany_slots (hk : b.OptKernelOk) (inputs : List Bytes) (outputs : List Digest) :
    (onSlots (hashMany b inputs) outputs : Reply π) = idealSlots inputs outputs :=
  onSlots_eq hk (hashManyDispatch_eq hk) fun h => hashManyDispatch_short (l := ⟨outputs, []⟩) h

theorem hashManyGrouped_slots (hk : b.OptKernelOk) (sorter : UnstableSort) (inputs : List Bytes)
    (outputs : List Digest) :
    (onSlots (hashManyGrouped b sorter inputs) outputs : Reply π) = idealSlots inputs outputs := by
  apply onSlots_eq hk _ fun h => hashManyGrouped_short sorter h
  intro hlen
  rw [hashManyGrouped_eq sorter hlen]
  split
  · exact hashSorted_run (groupOrder_perm sorter inputs) hk hlen
  · exact hashManyDispatch_eq hk hlen

theorem hashManyHex_slots (hk : b.OptKernelOk) (inputs outputs : List Bytes) :
    caught (hashManyHex b inputs) outputs = inSlots rfcText inputs outputs := by
  have hH : (fun m => hexText (hash b m).toList) = rfcText := by
    funext M
    rw [hash_eq_rfcDigest hk, rfcText]
  by_cases h : outputs.length < inputs.length
  · rw [caught, hashManyHex_short h, inSlots, if_pos h]
  · rw [caught, hashManyHex_run hk (Nat.le_of_not_lt h), inSlots, if_neg h, hH]

section Readers

variable {m : Nat}

theorem digestReader_result (hk : b.OptKernelOk) (reader : Reader π m) {buf : Bytes}
    (hbuf : buf.length = m) :
    digestReaderWithBuffer b reader.calls buf [] =
      .ok (reader.last.conclude (rfcDigest (delivered reader.body)))
        (List.replicate (reader.body.length + 1) m) := by
  subst hbuf
  rw [Reader.calls, digestReaderWithBuffer_run hk reader.goesOn reader.fits reader.stops,
    hash_eq_rfcDigest hk]

theorem etagHexStreaming_result (hk : b.OptKernelOk) {chunk : Nat}
    (reader : Reader π (clamp chunk 4096 (1024 * 1024))) :
    etagHexStreaming b reader.calls chunk [] =
      .ok (reader.last.conclude (rfcText (delivered reader.body)))
        (List.replicate (reader.body.length + 1) (clamp chunk 4096 (1024 * 1024))) := by
  have hrun := digestReader_result hk reader (List.length_replicate (a := (0 : U8)))
  unfold etagHexStreaming
  rw [bind_ok hrun]
  unfold ReadCall.conclude
  rcases reader.last.result with err | n
  · rfl
  · show (liftE (hexEncode _) >>= _) _ = _
    rw [hexEncode_digest, bind_ok (liftE_ok _ _)]
    rfl

end Readers

theorem answer_eq (hk : b.OptKernelOk) (sorter : UnstableSort) (request : Ask π) :
    answer b sorter request = .ok (idealAnswer request) := by
  have hH := hash_eq_rfcDigest hk
  cases request with
  | digest data => rw [answer, digest, hH, idealAnswer]
  | hashOne data => rw [answer, hashOne, hH, idealAnswer]
  | digestPortable data =>
    rw [answer, digestPortable, hashTextbook_eq, ← hash_eq_textbook hk, hH, idealAnswer]
  | digestOptScalar data =>
    rw [answer, digestOptScalar, hashInTree_eq, hashTextbook_eq, ← hash_eq_textbook hk, hH,
      idealAnswer]
  | digestHex data =>
    rw [answer, digestHex_run hk]
    rfl
  | etagHex data =>
    rw [answer, etagHex, digestHex_run hk]
    rfl
  | hexEncodeDigest digest =>
    rw [answer, hexEncodeDigest_run]
    rfl
  | hashPair x y =>
    rw [answer, hashPair_run, hH, hH]
    rfl
  | hashMany inputs outputs => rw [answer, hashMany_slots hk, idealAnswer]
  | md5Many inputs outputs => rw [answer, md5Many, hashMany_slots hk, idealAnswer]
  | hashManyGrouped inputs outputs => rw [answer, hashManyGrouped_slots hk, idealAnswer]
  | hashManyHex inputs outputs =>
    rw [answer, hashManyHex_slots hk]
    rfl
  | hexEncode bytes =>
    rw [answer, idealAnswer]
    by_cases h : bytes.length * 2 < 2 ^ 64
    · rw [if_pos h, hexEncode_run h]
    · rw [if_neg h, hexEncode, if_neg h]
  | hexEncodeInto bytes out =>
    rw [answer, idealAnswer]
    by_cases h : out.length < 2 * bytes.length
    · rw [if_pos h, caught, hexEncodeInto_short h]
    · rw [if_neg h, caught, hexEncodeInto_run (by omega), Nat.mul_comm]
  | compressBlock state block => rw [answer, compressBlock_eq_rfcBlock hk, idealAnswer]
  | compressBlocks state data =>
    have hf : compressBlock b = rfcBlock := funext₂ (compressBlock_eq_rfcBlock hk)
    rw [answer, idealAnswer]
    by_cases h : 64 ∣ data.length
    · rw [if_pos h, caught, compressBlocks_run h, hf]
    · rw [if_neg h, caught, compressBlocks_panics h]
  | digestReader reader =>
    have hrun := digestReader_result hk reader (List.length_replicate (a := (0 : U8)))
    rw [answer, readResult, runOn, digestReader, hrun]
    rfl
  | etagHexStreaming chunk reader =>
    rw [answer, readResult, runOn, etagHexStreaming_result hk reader]
    rfl

/-! ## Every session -/

theorem crate_refines (hk : b.OptKernelOk) (sorter : UnstableSort) (E : EagerBuffer) (π : Type) :
    (crate b sorter E π).Refines (ideal π) (Obj.Follows b) where
  create := create_refines
  step := objStep_simulates hk
  answer := by
    intro request out h
    cases h
    exact answer_eq hk sorter request

/-- **The crate is RFC 1321 behind every interface.** Every session that the ideal crate runs, so one
without a `Refusal`, runs without fault on every build, with the vendored kernel on whatever hosts,
with any buffer of the `digest` crate and any unstable sort, and every reply is that of the ideal
crate, in which digests are those of the RFC and objects are messages: so it is the same on all of
them. -/
theorem sessions_rfc1321 (b : Build) (hv : b.Vendored) (sorter : UnstableSort) (E : EagerBuffer)
    (π : Type) (lines : List (Service.Line Kind ObjOp (Ask π))) (ideals : List Ideal)
    (replies : List (Reply π))
    (h : (ideal π).session Refusal.noObject [] lines = .ok (ideals, replies)) :
    ∃ objs, (crate b sorter E π).session noObject [] lines = .ok (objs, replies) ∧
      List.Forall₂ (Obj.Follows b) objs ideals :=
  Service.session_refines noObject (crate_refines (optKernelOk_of_vendored hv) sorter E π) .nil h

/-- A hasher and its copy, two lanes, a wrapped hasher and a batch side by side. -/
theorem sessions_rfc1321_mixed :
    ∃ objs, (crate optBuild .merge oneByOne Unit).session noObject []
        [.create .hasher, .call 0 (.hasher (.update [1])), .clone 0, .create (.lanes 2),
          .call 2 (.lanes (.updateMany [[2], [3]])), .call 1 (.hasher (.update [4])),
          .ask (.hashMany [[1], [1, 4]] [emptyDigest, emptyDigest, emptyDigest]),
          .create .wrapped, .call 3 (.wrapped (.update [1])), .call 3 (.wrapped .finalize),
          .call 2 (.lane 1 .finalize), .call 1 (.hasher .finalize),
          .call 0 (.hasher .finalizeSnapshot)] =
        .ok (objs, [.out .unit, .outcome ⟨.ok (), []⟩, .out .unit,
          .outcome ⟨.ok (), [rfcDigest [1], rfcDigest [1, 4], emptyDigest]⟩, .out .unit,
          .out (.digest (rfcDigest [1])), .out (.digest (rfcDigest [3])),
          .out (.digest (rfcDigest [1, 4])), .out (.digest (rfcDigest [1]))]) ∧
      List.Forall₂ (Obj.Follows optBuild) objs
        [.hasher (.message [1]), .hasher .moved, .lanes [[2], [3]], .wrapped .moved] :=
  sessions_rfc1321 optBuild vendored_optBuild .merge oneByOne Unit _ _ _ rfl

end Md5Simd
