import Md5Simd.Session
import Md5Simd.Workload

/-!
# Safety of every session

`sessions_rfc1321` speaks of the sessions that stand for something. The crate
allows more: a hasher can be used after `zeroize`, and `from_parts` takes any words
and any count. What all of them keep is that no buffer is full (`Obj.Sound`), and
that is enough for every call to return. What is refused and which replies show
which panic is said of each line (`contract`) and so of every session. Nothing here
depends on what the vendored kernel computes.
-/

namespace Md5Simd

open Lib Engine Service

/-- No buffer is full, and that of a wrapped core is not used. -/
def Obj.Sound {E : EagerBuffer} : Obj E → Prop
  | .hasher h => ∀ x ∈ h, x.raw.bufLen < 64
  | .lanes states => ∀ s ∈ states, s.raw.bufLen < 64
  | .wrapped d => ∀ x ∈ d, x.core.raw.bufLen = 0

/-- A kind of object that cannot be made: a hasher resumed behind a partial block. -/
def Kind.Refused : Kind → Fault → Prop
  | .resumed whole, e => ¬64 ∣ whole.length ∧ e = partialBlock whole.length
  | _, _ => False

/-- An operation that the compiler refuses: on a moved object, on a lane state that is not there, or
of another kind of object. -/
def ObjOp.Refused {E : EagerBuffer} : Obj E → ObjOp → Fault → Prop
  | .hasher h, .hasher _, e => h = none ∧ e = movedValue
  | .lanes _, .lanes _, _ => False
  | .lanes states, .lane k _, e => states.length ≤ k ∧ e = noObject
  | .wrapped d, .wrapped _, e => d = none ∧ e = movedValue
  | _, _, e => e = noObject

variable {π : Type}

/-- The panic that a reply shows. -/
def Reply.fault? : Reply π → Option Fault
  | .outcome ⟨.error e, _⟩ => some e
  | .texts (.error e) _ => some e
  | .text (.error e) => some e
  | .written (.error e) _ => some e
  | .state (.error e) _ => some e
  | _ => none

/-- The panics of an operation that the crate documents. -/
def ObjOp.Documented {E : EagerBuffer} : Obj E → ObjOp → Fault → Prop
  | .lanes states, .lanes (.updateMany inputs), e =>
    states.length ≠ inputs.length ∧ e = lengthsDiffer states.length inputs.length
  | .lanes states, .lanes (.finalizeMany outputs), e =>
    outputs.length < states.length ∧ e = fewOutputs outputs.length states.length
  | _, _, _ => False

/-- The panics of a function that the crate documents. -/
def Ask.Documented : Ask π → Fault → Prop
  | .hashMany inputs outputs, e | .md5Many inputs outputs, e | .hashManyGrouped inputs outputs, e =>
    outputs.length < inputs.length ∧ e = Ledger.tooShort outputs.length inputs.length
  | .hashManyHex inputs outputs, e =>
    outputs.length < inputs.length ∧ e = Ledger.tooShort outputs.length inputs.length
  | .hexEncode bytes, e => 2 ^ 64 ≤ bytes.length * 2 ∧ e = .panic "hex length overflow"
  | .hexEncodeInto bytes out, e =>
    out.length < 2 * bytes.length ∧ e = .panic "hex output is too short"
  | .compressBlocks _ data, e => ¬64 ∣ data.length ∧ e = partialBlock data.length
  | _, _ => False

/-- A reply shows a panic exactly when `P` has it. -/
def Reply.Shows (P : Fault → Prop) (reply : Reply π) : Prop := ∀ e, reply.fault? = some e ↔ P e

theorem Reply.shows_none {P : Fault → Prop} {reply : Reply π} (h : reply.fault? = none)
    (hP : ∀ e, ¬P e) : reply.Shows P := by
  intro e
  rw [h]
  exact ⟨nofun, fun he => absurd he (hP e)⟩

theorem Reply.shows_never {reply : Reply π} (h : reply.fault? = none) :
    reply.Shows fun _ => False := Reply.shows_none h fun _ he => he

theorem Reply.shows_some {c : Prop} {reply : Reply π} {e : Fault} (h : reply.fault? = some e)
    (hc : c) : reply.Shows fun e' => c ∧ e' = e := by
  intro e'
  rw [h]
  exact ⟨fun he => ⟨hc, (Option.some.inj he).symm⟩, fun he => congrArg some he.2.symm⟩

variable {b : Build} {E : EagerBuffer}

/-! ## One operation -/

theorem sound_update (b : Build) {r : Raw} (hr : r.bufLen < 64) (data : Bytes) :
    ∃ r', Raw.updateOpt b data r = .ok () r' ∧ r'.bufLen < 64 :=
  (Raw.Absorbs.acts (Raw.updateOpt_run b)).keeps r data hr

theorem sound_digest (f : State → Block → State) {r : Raw} (hr : r.bufLen < 64) :
    ∃ d, r.digestSnapshot f = .ok d := by
  obtain ⟨t, ht⟩ := Raw.exists_holds hr
  exact ⟨_, Raw.digestSnapshot_run ht⟩

theorem Md5.sound_update {h : Md5} (hr : h.raw.bufLen < 64) (data : Bytes) :
    ∃ h', Md5.update b data h = .ok () h' ∧ h'.raw.bufLen < 64 := by
  obtain ⟨r, hrun, hr'⟩ := Md5Simd.sound_update b hr data
  exact ⟨⟨r⟩, Md5.onRaw_ok hrun, hr'⟩

theorem Md5.step_sound {h : Md5} (hr : h.raw.bufLen < 64) (op : Md5.Op) :
    ∃ h' out, Md5.step b (some h) op = .ok (h', out) ∧ ∀ x ∈ h', x.raw.bufLen < 64 := by
  have hkeep : ∀ x ∈ some h, x.raw.bufLen < 64 := by
    rintro x ⟨⟩
    exact hr
  have hnew : ∀ x ∈ some Md5.new, x.raw.bufLen < 64 := by
    rintro x ⟨⟩
    exact Nat.zero_lt_succ 63
  obtain ⟨d, hd⟩ := sound_digest (compressBlock b) hr
  have hupdate (data : Bytes) : ∃ h', Md5.update b data h = .ok () h' ∧
      ∀ x ∈ some h', x.raw.bufLen < 64 := by
    obtain ⟨h', hrun, hr'⟩ := Md5.sound_update (b := b) hr data
    refine ⟨h', hrun, ?_⟩
    rintro x ⟨⟩
    exact hr'
  cases op with
  | update data =>
    obtain ⟨h', hrun, hr'⟩ := hupdate data
    exact ⟨_, _, callMut_ok hrun, hr'⟩
  | chainUpdate data =>
    obtain ⟨h', hrun, hr'⟩ := hupdate data
    exact ⟨_, _, callMut_ok hrun, hr'⟩
  | write buf =>
    obtain ⟨h', hrun, hr'⟩ := hupdate buf
    exact ⟨_, _, callMut_ok (bind_ok hrun), hr'⟩
  | flush => exact ⟨_, _, rfl, hkeep⟩
  | finalize => exact ⟨_, _, callMove_ok hd, nofun⟩
  | finalizeSnapshot => exact ⟨_, _, callRef_ok hd, hkeep⟩
  | digestSoFar => exact ⟨_, _, callRef_ok hd, hkeep⟩
  | finalizeHex =>
    have hhex : Md5.finalizeHex b h = .ok (hexText d.toList) := by
      rw [Md5.finalizeHex, Except.bind_ok hd, hexEncode_digest]
    exact ⟨_, _, callRef_ok hhex, hkeep⟩
  | finalizeReset =>
    have hreset : Md5.finalizeReset b h = .ok d Md5.new := by
      unfold Md5.finalizeReset
      rw [bind_ok (get_run h), hd]
      rfl
    exact ⟨_, _, callMut_ok hreset, hnew⟩
  | reset => exact ⟨_, _, rfl, hnew⟩
  | bytesHashed => exact ⟨_, _, rfl, hkeep⟩
  | zeroize =>
    refine ⟨_, _, rfl, ?_⟩
    rintro x ⟨⟩
    exact Nat.zero_lt_succ 63

theorem Md5State.step_sound {s : Md5State} (hr : s.raw.bufLen < 64) (op : Md5State.Op) :
    ∃ s' out, Md5State.step b (some s) op = .ok (some s', out) ∧ s'.raw.bufLen < 64 := by
  cases op with
  | update input =>
    obtain ⟨r, hrun, hr'⟩ := sound_update b hr input
    exact ⟨_, _, callMut_ok (Md5State.onRaw_ok hrun), hr'⟩
  | finalize =>
    obtain ⟨d, hd⟩ := sound_digest (compressBlock b) hr
    exact ⟨_, _, callRef_ok hd, hr⟩
  | reset => exact ⟨_, _, rfl, Nat.zero_lt_succ 63⟩
  | bytesHashed => exact ⟨_, _, rfl, hr⟩
  | isEmpty => exact ⟨_, _, rfl, hr⟩

theorem DigestMd5.step_sound {d : DigestMd5 E} (hd : d.core.raw.bufLen = 0) (op : DigestMd5.Op) :
    ∃ d' out, DigestMd5.step b (some d) op = .ok (d', out) ∧
      ∀ x ∈ d', x.core.raw.bufLen = 0 := by
  cases op with
  | update input =>
    have hupdate : ∃ d', DigestMd5.update b input d = .ok () d' ∧ d'.core.raw.bufLen = 0 := by
      unfold DigestMd5.update
      rw [bind_ok (get_run d), bind_ok (forM_updateBlocks _ hd)]
      exact ⟨_, rfl, hd⟩
    obtain ⟨d', hrun, hd'⟩ := hupdate
    refine ⟨_, _, callMut_ok hrun, ?_⟩
    rintro x ⟨⟩
    exact hd'
  | finalize => exact ⟨_, _, rfl, nofun⟩
  | finalizeReset =>
    refine ⟨_, _, rfl, ?_⟩
    rintro x ⟨⟩
    rfl
  | reset =>
    refine ⟨_, _, rfl, ?_⟩
    rintro x ⟨⟩
    rfl

/-! ## Rounds and snapshots -/

section Lanes

variable {states : List Md5State}

theorem updateMany_sound (hs : ∀ s ∈ states, s.raw.bufLen < 64) {inputs : List Bytes}
    (hn : states.length = inputs.length) :
    ∃ states', updateMany b inputs states = .ok () states' ∧ ∀ s ∈ states', s.raw.bufLen < 64 := by
  obtain ⟨states', hrun, -, hs'⟩ := forM_zipIdx
    (m := fun e : Bytes × Nat => onElem e.2 (Md5State.update b e.1))
    (fun _ states => states.length = inputs.length ∧ ∀ s ∈ states, s.raw.bufLen < 64) inputs
    ⟨hn, hs⟩ fun i hi states ⟨hlen, hs⟩ => by
      have hlt : i < states.length := by rw [hlen]; exact hi
      obtain ⟨r, hr, hr'⟩ := sound_update b (hs _ (List.getElem_mem hlt)) inputs[i]
      refine ⟨_, onElem_ok hlt (Md5State.onRaw_ok hr), by rw [List.length_set, hlen], ?_⟩
      intro s hmem
      rcases List.mem_or_eq_of_mem_set hmem with hmem | rfl
      · exact hs s hmem
      · exact hr'
  refine ⟨states', ?_, hs'⟩
  unfold updateMany
  rw [bind_ok (get_run _), if_pos hn]
  exact hrun

theorem finalizeMany_sound (hs : ∀ s ∈ states, s.raw.bufLen < 64) {outputs : List Digest}
    (hn : states.length ≤ outputs.length) :
    ∃ outs, finalizeMany b states outputs = .ok () outs := by
  obtain ⟨outs, hrun, -⟩ := forM_zipIdx
    (m := fun e : Md5State × Nat => do
      let d ← liftE (Md5State.finalize b e.1)
      store e.2 d)
    (fun _ outs => outs.length = outputs.length) states (s := outputs) rfl
    fun i hi outs hlen => by
      obtain ⟨d, hd⟩ := sound_digest (compressBlock b) (hs _ (List.getElem_mem hi))
      have hd : Md5State.finalize b states[i] = .ok d := hd
      refine ⟨outs.set i d, ?_, by rw [List.length_set, hlen]⟩
      rw [hd, bind_ok (liftE_ok _ _)]
      exact store_ok (by omega)
  refine ⟨outs, ?_⟩
  unfold finalizeMany
  rw [bind_ok (get_run _), if_neg (by omega)]
  exact hrun

/-- A round or a snapshot shows its own panic when it is due, and keeps the lanes sound. -/
theorem call_sound (hs : ∀ s ∈ states, s.raw.bufLen < 64) (op : StreamOp) :
    (∀ s ∈ (call b states op).1, s.raw.bufLen < 64) ∧
      (Reply.outcome (call b states op).2 : Reply π).Shows
        (ObjOp.Documented (E := E) (.lanes states) (.lanes op)) := by
  cases op with
  | updateMany inputs =>
    by_cases hn : states.length = inputs.length
    · obtain ⟨states', hrun, hs'⟩ := updateMany_sound (b := b) hs hn
      simp only [call, hrun]
      exact ⟨hs', Reply.shows_none rfl fun _ h => h.1 hn⟩
    · simp only [call, updateMany_differ (b := b) hn]
      exact ⟨hs, Reply.shows_some rfl hn⟩
  | finalizeMany outputs =>
    by_cases hn : outputs.length < states.length
    · simp only [call, finalizeMany_short (b := b) hn]
      exact ⟨hs, Reply.shows_some rfl hn⟩
    · obtain ⟨outs, hrun⟩ := finalizeMany_sound (b := b) hs (Nat.le_of_not_lt hn)
      simp only [call, hrun]
      exact ⟨hs, Reply.shows_none rfl fun _ h => hn h.1⟩

end Lanes

/-! ## Readers -/

theorem readLoop_sound {m : Nat} {last : ReadCall π} (hlast : ¬last.GoesOn)
    (rest : List (ReadCall π)) (body : List (ReadCall π)) (hgo : ∀ c ∈ body, c.GoesOn)
    (hfit : ∀ c ∈ body, c.Fits m) {h : Md5} {M : Bytes} (hr : Absorbed b h.raw M) (buf : Bytes)
    (given : List Nat) :
    ∃ r log, readLoop b (body ++ last :: rest) h buf given = .ok r log := by
  induction body generalizing h M buf given with
  | nil =>
    obtain ⟨result, after⟩ := last
    rw [List.nil_append, readLoop, bind_ok (modify_run _ given)]
    rcases result with err | n
    · have hkind : ¬err.kind = .interrupted := hlast
      dsimp only
      rw [if_neg hkind]
      exact ⟨_, _, rfl⟩
    · obtain rfl : n = 0 := by have : ¬1 ≤ n := hlast; omega
      obtain ⟨d, hd⟩ := sound_digest (compressBlock b) hr.bufLen_lt
      have hd : Md5.finalize b h = .ok d := hd
      refine ⟨.ok d, given ++ [buf.length], ?_⟩
      show (liftE (Md5.finalize b h) >>= _) _ = _
      rw [hd, bind_ok (liftE_ok _ _)]
      rfl
  | cons c body ih =>
    obtain ⟨h', hr', hstep⟩ := readLoop_goesOn hr (hgo c List.mem_cons_self)
      (hfit c List.mem_cons_self) (body ++ last :: rest) buf given
    rw [List.cons_append, hstep]
    exact ih (fun d hd => hgo d (List.mem_cons_of_mem c hd))
      (fun d hd => hfit d (List.mem_cons_of_mem c hd)) hr' _ _

theorem digestReader_sound {m : Nat} (reader : Reader π m) (buf : Bytes) :
    ∃ r log, digestReaderWithBuffer b reader.calls buf [] = .ok r log :=
  readLoop_sound reader.stops reader.rest reader.body reader.goesOn reader.fits absorbed_new buf []

/-! ## Dispatchers and encoders -/

/-- A dispatcher that returns when the inputs fit, and else panics. -/
theorem onSlots_shows {m : EStateM Fault Ledger Unit} {inputs : List Bytes} {outputs : List Digest}
    (hfits : inputs.length ≤ outputs.length → ∃ l, m ⟨outputs, []⟩ = .ok () l)
    (hshort : outputs.length < inputs.length →
      m ⟨outputs, []⟩ = .error (Ledger.tooShort outputs.length inputs.length) ⟨outputs, []⟩) :
    (onSlots m outputs : Reply π).Shows fun e =>
      outputs.length < inputs.length ∧ e = Ledger.tooShort outputs.length inputs.length := by
  by_cases h : outputs.length < inputs.length
  · rw [onSlots, caught, hshort h]
    exact Reply.shows_some rfl h
  · obtain ⟨l, hrun⟩ := hfits (Nat.le_of_not_lt h)
    rw [onSlots, caught, hrun]
    exact Reply.shows_none rfl fun _ he => h he.1

theorem hashMany_shows (inputs : List Bytes) (outputs : List Digest) :
    (onSlots (hashMany b inputs) outputs : Reply π).Shows (Ask.Documented
      (.hashMany inputs outputs : Ask π)) := by
  apply onSlots_shows _ fun h => hashManyDispatch_short (l := ⟨outputs, []⟩) h
  intro hlen
  obtain ⟨outs, hrun⟩ := hashMany_plan b hlen
  exact ⟨_, hrun⟩

theorem hashManyGrouped_shows (sorter : UnstableSort) (inputs : List Bytes)
    (outputs : List Digest) :
    (onSlots (hashManyGrouped b sorter inputs) outputs : Reply π).Shows (Ask.Documented
      (.hashManyGrouped inputs outputs : Ask π)) := by
  apply onSlots_shows _ fun h => hashManyGrouped_short sorter h
  intro hlen
  obtain ⟨outs, hrun⟩ := hashManyGrouped_plan b sorter hlen
  exact ⟨_, hrun⟩

theorem hashManyHex_sound {inputs outputs : List Bytes} (h : inputs.length ≤ outputs.length) :
    ∃ texts, hashManyHex b inputs outputs = .ok () texts := by
  have hslots : inputs.length ≤
      (List.replicate inputs.length (Vector.replicate 16 0 : Digest)).length := by
    rw [List.length_replicate]
  obtain ⟨l, hrun, hl, -⟩ := dispatch_plan b hslots
  rw [List.length_replicate] at hl
  unfold hashManyHex
  rw [bind_ok (get_run outputs), if_neg (by omega)]
  simp only [runOn, hashMany, hrun]
  rw [bind_ok (liftE_ok _ _)]
  exact ⟨_, forM_writeHex l.outputs (hl ▸ h)⟩

/-! ## The three kinds of line -/

/-- What the crate promises of its objects, lines and replies. -/
def contract (E : EagerBuffer) (π : Type) :
    Service.Contract Fault Kind ObjOp (Ask π) (Reply π) (Obj E) where
  Inv := Obj.Sound
  refusesKind := Kind.Refused
  refusesOp := ObjOp.Refused
  refusesAsk _ _ := False
  tells o op reply := reply.Shows (ObjOp.Documented o op)
  answers request reply := reply.Shows request.Documented

theorem create_keeps (kind : Kind) :
    Decides kind.Refused Obj.Sound (create b kind : Except Fault (Obj E)) := by
  cases kind with
  | hasher =>
    refine ⟨?_, fun _ h => h⟩
    rintro x ⟨⟩
    exact Nat.zero_lt_succ 63
  | resumed whole =>
    by_cases hdvd : 64 ∣ whole.length
    · rw [create, runOn, compressBlocks_run hdvd]
      refine ⟨?_, fun _ h => h.1 hdvd⟩
      rintro x ⟨⟩
      exact Nat.zero_lt_succ 63
    · rw [create, runOn, compressBlocks_panics hdvd]
      exact ⟨hdvd, rfl⟩
  | fromParts state countBytes =>
    refine ⟨?_, fun _ h => h⟩
    rintro x ⟨⟩
    exact Nat.zero_lt_succ 63
  | lanes n =>
    refine ⟨fun s hs => ?_, fun _ h => h⟩
    rw [List.eq_of_mem_replicate hs]
    exact Nat.zero_lt_succ 63
  | wrapped =>
    refine ⟨?_, fun _ h => h⟩
    rintro x ⟨⟩
    rfl

theorem objStep_keeps (o : Obj E) (op : ObjOp) (ho : o.Sound) :
    Decides (ObjOp.Refused o op)
      (fun r => r.1.Sound ∧ (r.2 : Reply π).Shows (ObjOp.Documented o op)) (objStep b o op) := by
  cases o with
  | hasher h =>
    cases op with
    | lanes | lane | wrapped => exact rfl
    | hasher op =>
      cases h with
      | none => exact ⟨rfl, rfl⟩
      | some h =>
        obtain ⟨h', out, hstep, hh'⟩ := Md5.step_sound (b := b) (ho h rfl) op
        rw [objStep, hstep]
        exact ⟨⟨hh', Reply.shows_never rfl⟩, fun _ hr => Option.some_ne_none _ hr.1⟩
  | lanes states =>
    cases op with
    | hasher | wrapped => exact rfl
    | lanes op => exact ⟨call_sound ho op, fun _ h => h⟩
    | lane k op =>
      by_cases hk : k < states.length
      · obtain ⟨s', out, hstep, hs'⟩ :=
          Md5State.step_sound (b := b) (ho _ (List.getElem_mem hk)) op
        rw [objStep, laneStep, List.getElem?_eq_getElem hk]
        simp only [hstep]
        refine ⟨⟨fun s hs => ?_, Reply.shows_never rfl⟩,
          fun _ hr => Nat.not_le_of_lt hk hr.1⟩
        rcases List.mem_or_eq_of_mem_set hs with hs | rfl
        · exact ho s hs
        · exact hs'
      · rw [objStep, laneStep, List.getElem?_eq_none (Nat.le_of_not_lt hk)]
        exact ⟨Nat.le_of_not_lt hk, rfl⟩
  | wrapped d =>
    cases op with
    | hasher | lanes | lane => exact rfl
    | wrapped op =>
      cases d with
      | none => exact ⟨rfl, rfl⟩
      | some d =>
        obtain ⟨d', out, hstep, hd'⟩ := DigestMd5.step_sound (b := b) (ho d rfl) op
        rw [objStep, hstep]
        exact ⟨⟨hd', Reply.shows_never rfl⟩, fun _ hr => Option.some_ne_none _ hr.1⟩

theorem answer_shows (sorter : UnstableSort) (request : Ask π) :
    ∃ reply, answer b sorter request = .ok reply ∧ reply.Shows request.Documented := by
  cases request with
  | digest | digestPortable | digestOptScalar | hashOne | compressBlock =>
    exact ⟨_, rfl, Reply.shows_never rfl⟩
  | digestHex data =>
    rw [answer, digestHex, hexEncode_digest]
    exact ⟨_, rfl, Reply.shows_never rfl⟩
  | etagHex data =>
    rw [answer, etagHex, digestHex, hexEncode_digest]
    exact ⟨_, rfl, Reply.shows_never rfl⟩
  | hexEncodeDigest digest =>
    rw [answer, hexEncodeDigest_run]
    exact ⟨_, rfl, Reply.shows_never rfl⟩
  | hashPair x y =>
    rw [answer, hashPair_run]
    exact ⟨_, rfl, Reply.shows_never rfl⟩
  | hashMany inputs outputs | md5Many inputs outputs =>
    exact ⟨_, rfl, hashMany_shows inputs outputs⟩
  | hashManyGrouped inputs outputs => exact ⟨_, rfl, hashManyGrouped_shows sorter inputs outputs⟩
  | hashManyHex inputs outputs =>
    by_cases h : outputs.length < inputs.length
    · rw [answer, caught, hashManyHex_short h]
      exact ⟨_, rfl, Reply.shows_some rfl h⟩
    · obtain ⟨texts, hrun⟩ := hashManyHex_sound (b := b) (Nat.le_of_not_lt h)
      rw [answer, caught, hrun]
      exact ⟨_, rfl, Reply.shows_none rfl fun _ he => h he.1⟩
  | hexEncode bytes =>
    by_cases h : bytes.length * 2 < 2 ^ 64
    · rw [answer, hexEncode_run h]
      exact ⟨_, rfl, Reply.shows_none rfl fun _ he => Nat.not_le_of_lt h he.1⟩
    · rw [answer, hexEncode, if_neg h]
      exact ⟨_, rfl, Reply.shows_some rfl (Nat.le_of_not_lt h)⟩
  | hexEncodeInto bytes out =>
    by_cases h : out.length < 2 * bytes.length
    · rw [answer, caught, hexEncodeInto_short h]
      exact ⟨_, rfl, Reply.shows_some rfl h⟩
    · rw [answer, caught, hexEncodeInto_run (by omega)]
      exact ⟨_, rfl, Reply.shows_none rfl fun _ he => h he.1⟩
  | compressBlocks state data =>
    by_cases h : 64 ∣ data.length
    · rw [answer, caught, compressBlocks_run h]
      exact ⟨_, rfl, Reply.shows_none rfl fun _ he => he.1 h⟩
    · rw [answer, caught, compressBlocks_panics h]
      exact ⟨_, rfl, Reply.shows_some rfl h⟩
  | digestReader reader =>
    obtain ⟨r, log, hrun⟩ := digestReader_sound (b := b) reader (List.replicate 65536 0)
    rw [answer, readResult, runOn, digestReader, hrun]
    exact ⟨_, rfl, Reply.shows_never rfl⟩
  | etagHexStreaming chunk reader =>
    obtain ⟨r, log, hrun⟩ := digestReader_sound (b := b) reader (List.replicate _ 0)
    rw [answer, readResult, runOn, etagHexStreaming, bind_ok hrun]
    cases r with
    | ok d =>
      dsimp only
      rw [hexEncode_digest, bind_ok (liftE_ok _ _)]
      exact ⟨_, rfl, Reply.shows_never rfl⟩
    | error err => exact ⟨_, rfl, Reply.shows_never rfl⟩

/-! ## Every session -/

theorem crate_keeps (b : Build) (sorter : UnstableSort) (E : EagerBuffer) (π : Type) :
    (crate b sorter E π).Keeps (contract E π) where
  create := create_keeps
  step := objStep_keeps
  answer := by
    intro request
    obtain ⟨reply, hreply, hshows⟩ := answer_shows (b := b) sorter request
    show Decides _ _ (answer b sorter request)
    rw [hreply]
    exact ⟨hshows, fun _ h => h⟩

end Md5Simd
