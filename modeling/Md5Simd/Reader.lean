import Md5Simd.Engine
import Md5Simd.Hasher

/-!
# Hashing a reader

`digest_reader` and `etag_hex_streaming` of `md5.rs`: one buffer is handed to
`read` again and again, and what a call reports as read is appended to a
streaming hasher. A reader is the list of its answers, each with the buffer as it
leaves it; behind the bytes read a buffer holds anything.

The place of the loop is a log of the lengths of the buffers handed out.
`readLoop_goesOn` is one answer that keeps the loop going, `readLoop_run` a whole
reader.
-/

namespace Md5Simd

open Lib Engine

/-! ## Readers -/

/-- `std::io::ErrorKind`; only `Interrupted` is told from the others. -/
inductive ErrorKind where
  | interrupted
  | other (code : Nat)
  deriving DecidableEq

structure IoError (π : Type) where
  kind : ErrorKind
  payload : π

/-- One answer of `read`, and the buffer as the call leaves it. -/
structure ReadCall (π : Type) where
  result : Except (IoError π) Nat
  buf : Bytes

variable {π : Type}

def ReadCall.bytes (c : ReadCall π) : Bytes :=
  match c.result with
  | .ok n => c.buf.take n
  | .error _ => []

def delivered (calls : List (ReadCall π)) : Bytes := calls.flatMap ReadCall.bytes

/-- An answer after which there is more to come: some bytes, or an interruption. -/
def ReadCall.GoesOn (c : ReadCall π) : Prop :=
  match c.result with
  | .ok n => 1 ≤ n
  | .error err => err.kind = .interrupted

/-- An answer to a buffer of `m` bytes. -/
structure ReadCall.Fits (m : Nat) (c : ReadCall π) : Prop where
  length_buf : c.buf.length = m
  read_le : ∀ n, c.result = .ok n → n ≤ m

/-- What the last answer makes of a value: the value at the end of the input, else its error. -/
def ReadCall.conclude {α : Type} (c : ReadCall π) (a : α) : Except (IoError π) α :=
  match c.result with
  | .ok _ => .ok a
  | .error err => .error err

/-! ## The loop -/

section Loop

variable (b : Build)

/-- A reader is asked for more answers than it has. -/
def noAnswer : Fault := .undefined "the reader has no further answer"

/-- The loop of `digest_reader_with_buffer`. -/
def readLoop : List (ReadCall π) → Md5 → Bytes →
    EStateM Fault (List Nat) (Except (IoError π) Digest)
  | [], _, _ => throw noAnswer
  | c :: calls, h, buf => do
    modify fun given => given ++ [buf.length]
    match c.result with
    | .ok 0 => do
      let d ← liftE (Md5.finalize b h)
      return .ok d
    | .ok n => do
      let data ← liftE (slice c.buf 0 n)
      let r ← liftE (runOn h (Md5.update b data))
      readLoop calls r.2 c.buf
    | .error err =>
      if err.kind = .interrupted then readLoop calls h c.buf else return .error err

def digestReaderWithBuffer (reader : List (ReadCall π)) (buf : Bytes) :
    EStateM Fault (List Nat) (Except (IoError π) Digest) :=
  readLoop b reader Md5.new buf

def digestReader (reader : List (ReadCall π)) :
    EStateM Fault (List Nat) (Except (IoError π) Digest) :=
  digestReaderWithBuffer b reader (List.replicate 65536 0)

def clamp (x lo hi : Nat) : Nat := if x < lo then lo else if hi < x then hi else x

/-- Hash a reader to lowercase hexadecimal, with a buffer of 4 KiB to 1 MiB. -/
def etagHexStreaming (reader : List (ReadCall π)) (chunk : Nat) :
    EStateM Fault (List Nat) (Except (IoError π) Bytes) := do
  let chunk := clamp chunk 4096 (1024 * 1024)
  let buf := List.replicate chunk 0
  let r ← digestReaderWithBuffer b reader buf
  match r with
  | .ok d => do
    let text ← liftE (hexEncode d.toList)
    return .ok text
  | .error err => return .error err

end Loop

theorem clamp_bounds {x lo hi : Nat} (h : lo ≤ hi) : lo ≤ clamp x lo hi ∧ clamp x lo hi ≤ hi := by
  unfold clamp
  split
  · exact ⟨Nat.le_refl lo, h⟩
  · split <;> omega

/-! ## A whole reader -/

variable {b : Build} {h : Md5} {M : Bytes} {m : Nat} {c last : ReadCall π}

theorem readLoop_goesOn (hr : Absorbed b h.raw M) (hgo : c.GoesOn) (hfit : c.Fits m)
    (calls : List (ReadCall π)) (buf : Bytes) (given : List Nat) :
    ∃ h' : Md5, Absorbed b h'.raw (M ++ c.bytes) ∧
      readLoop b (c :: calls) h buf given = readLoop b calls h' c.buf (given ++ [buf.length]) := by
  obtain ⟨result, after⟩ := c
  obtain ⟨hlen, hle⟩ := hfit
  rw [readLoop, bind_ok (modify_run _ given)]
  rcases result with err | n
  · have hkind : err.kind = .interrupted := hgo
    refine ⟨h, by simpa [ReadCall.bytes] using hr, ?_⟩
    dsimp only
    rw [if_pos hkind]
  · obtain ⟨k, rfl⟩ : ∃ k, n = k + 1 := ⟨n - 1, by have : 1 ≤ n := hgo; omega⟩
    have hn : 0 + (k + 1) ≤ after.length := by
      have := hle _ rfl
      simp only at hlen
      omega
    obtain ⟨r, hrun, hr'⟩ := Md5.update_run hr (after.take (k + 1))
    refine ⟨⟨r⟩, hr', ?_⟩
    show (liftE (slice after 0 (k + 1)) >>= _) _ = _
    rw [slice_ok hn, bind_ok (liftE_ok _ _), List.drop_zero, runOn, hrun, bind_ok (liftE_ok _ _)]

/-- The first answer that does not go on ends the loop, whatever would come behind it. -/
theorem readLoop_last (hk : b.OptKernelOk) (hr : Absorbed b h.raw M) (hlast : ¬last.GoesOn)
    (rest : List (ReadCall π)) (buf : Bytes) (given : List Nat) :
    readLoop b (last :: rest) h buf given =
      .ok (last.conclude (hash b M)) (given ++ [buf.length]) := by
  obtain ⟨result, after⟩ := last
  rw [readLoop, bind_ok (modify_run _ given)]
  rcases result with err | n
  · have hkind : ¬err.kind = .interrupted := hlast
    dsimp only
    rw [if_neg hkind]
    rfl
  · obtain rfl : n = 0 := by have : ¬1 ≤ n := hlast; omega
    show (liftE (Md5.finalize b h) >>= _) _ = _
    rw [Md5.finalize, absorbed_digest hk hr, bind_ok (liftE_ok _ _)]
    rfl

theorem readLoop_run (hk : b.OptKernelOk) (body : List (ReadCall π)) (hgo : ∀ c ∈ body, c.GoesOn)
    (hfit : ∀ c ∈ body, c.Fits m) (hlast : ¬last.GoesOn) (rest : List (ReadCall π)) (h : Md5)
    (M buf : Bytes) (given : List Nat) (hr : Absorbed b h.raw M) (hbuf : buf.length = m) :
    readLoop b (body ++ last :: rest) h buf given =
      .ok (last.conclude (hash b (M ++ delivered body)))
        (given ++ List.replicate (body.length + 1) m) := by
  induction body generalizing h M buf given with
  | nil =>
    rw [List.nil_append, readLoop_last hk hr hlast, hbuf]
    simp [delivered]
  | cons c body ih =>
    have hc := hfit c List.mem_cons_self
    obtain ⟨h', hr', hstep⟩ := readLoop_goesOn hr (hgo c List.mem_cons_self) hc
      (body ++ last :: rest) buf given
    rw [List.cons_append, hstep, ih (fun d hd => hgo d (List.mem_cons_of_mem c hd))
      (fun d hd => hfit d (List.mem_cons_of_mem c hd)) h' _ _ _ hr' hc.length_buf, hbuf,
      List.append_assoc, List.append_assoc, delivered, delivered, List.flatMap_cons]
    rfl

theorem digestReaderWithBuffer_run (hk : b.OptKernelOk) {body : List (ReadCall π)}
    (hgo : ∀ c ∈ body, c.GoesOn) {buf : Bytes} (hfit : ∀ c ∈ body, c.Fits buf.length)
    (hlast : ¬last.GoesOn) (rest : List (ReadCall π)) :
    digestReaderWithBuffer b (body ++ last :: rest) buf [] =
      .ok (last.conclude (hash b (delivered body)))
        (List.replicate (body.length + 1) buf.length) := by
  have h := readLoop_run hk body hgo hfit hlast rest Md5.new [] buf [] absorbed_new rfl
  rwa [List.nil_append, List.nil_append] at h

/-- **A reader gives the digest of its bytes, or its error.** For every reader that after some
answers that go on gives one that does not: at the end of the input the result is the digest of
the delivered bytes, or its text, and else it is the error; neither the splits nor the
interruptions, the bytes left in the buffer, the requested chunk or the answers behind the last
one have a part in it. Every buffer handed to the reader has the one length, which is at least 4
KiB. -/
theorem readers_digest (b : Build) (hk : b.OptKernelOk) (body : List (ReadCall π))
    (hgo : ∀ c ∈ body, c.GoesOn) (last : ReadCall π) (hlast : ¬last.GoesOn)
    (rest : List (ReadCall π)) :
    ((∀ c ∈ body, c.Fits 65536) →
      digestReader b (body ++ last :: rest) [] =
        .ok (last.conclude (hash b (delivered body))) (List.replicate (body.length + 1) 65536)) ∧
      ∀ chunk, ∃ m, m = clamp chunk 4096 (1024 * 1024) ∧ 4096 ≤ m ∧ m ≤ 1024 * 1024 ∧
        ((∀ c ∈ body, c.Fits m) →
          etagHexStreaming b (body ++ last :: rest) chunk [] =
            .ok (last.conclude (hexText (hash b (delivered body)).toList))
              (List.replicate (body.length + 1) m)) := by
  constructor
  · intro hfit
    rw [← List.length_replicate (a := (0 : U8)) (n := 65536)] at hfit
    have hrun := digestReaderWithBuffer_run hk hgo hfit hlast rest
    rwa [List.length_replicate] at hrun
  · intro chunk
    obtain ⟨hlo, hhi⟩ := clamp_bounds (x := chunk) (show 4096 ≤ 1024 * 1024 by decide)
    refine ⟨_, rfl, hlo, hhi, fun hfit => ?_⟩
    rw [← List.length_replicate (a := (0 : U8)) (n := clamp _ _ _)] at hfit
    have hrun := digestReaderWithBuffer_run hk hgo hfit hlast rest
    rw [List.length_replicate] at hrun
    unfold etagHexStreaming
    rw [bind_ok hrun]
    unfold ReadCall.conclude
    rcases last.result with err | n
    · rfl
    · show (liftE (hexEncode _) >>= _) _ = _
      rw [hexEncode_digest, bind_ok (liftE_ok _ _)]
      rfl

/-- An interruption, then a short read into a buffer full of sevens. -/
theorem readers_digest_interrupted :
    digestReader optBuild [⟨.error ⟨.interrupted, ()⟩, List.replicate 65536 7⟩,
        ⟨.ok 3, [1, 2, 3] ++ List.replicate 65533 7⟩, ⟨.ok 0, []⟩] [] =
      .ok (.ok (hash optBuild [1, 2, 3])) [65536, 65536, 65536] ∧
    etagHexStreaming optBuild [⟨.error ⟨.interrupted, ()⟩, List.replicate 65536 7⟩,
        ⟨.ok 3, [1, 2, 3] ++ List.replicate 65533 7⟩, ⟨.ok 0, []⟩] 65536 [] =
      .ok (.ok (hexText (hash optBuild [1, 2, 3]).toList)) [65536, 65536, 65536] := by
  let body : List (ReadCall Unit) := [⟨.error ⟨.interrupted, ()⟩, List.replicate 65536 7⟩,
    ⟨.ok 3, [1, 2, 3] ++ List.replicate 65533 7⟩]
  have hbody : ∀ c ∈ body, c.GoesOn ∧ c.Fits 65536 := by
    intro c hc
    simp only [body, List.mem_cons, List.not_mem_nil, or_false] at hc
    rcases hc with rfl | rfl
    · exact ⟨rfl, List.length_replicate, fun n hn => by cases hn⟩
    · refine ⟨show 1 ≤ 3 by decide, ?_, fun n hn => by cases hn; decide⟩
      rw [List.length_append, List.length_replicate]
      rfl
  have hend : ¬(⟨.ok 0, []⟩ : ReadCall Unit).GoesOn := show ¬1 ≤ 0 by decide
  obtain ⟨hdigest, htext⟩ := readers_digest optBuild optKernelOk_optBuild body
    (fun c hc => (hbody c hc).1) ⟨.ok 0, []⟩ hend []
  obtain ⟨m, rfl, -, -, htext⟩ := htext 65536
  exact ⟨hdigest fun c hc => (hbody c hc).2, htext fun c hc => (hbody c hc).2⟩

end Md5Simd
