import Md5Simd.Engine
import Md5Simd.Framing
import Md5Simd.Resume

/-!
# Streaming over a compressor with effects

The compressors of `core.rs`, `compress.rs` and `frame.rs` are closures that may
change their environment. Here they are computations of any lawful monad `m`, and
`updateM` and `digestSnapshotM` are `Raw::update` and `Raw::digest_snapshot` over
them; without effects they are `Raw.update` and `Raw.digestSnapshot`.

The buffer and the count do not depend on the chaining words, so an update is a
fold over the blocks it completes, with the last state put into a `Raw` that is
fixed beforehand (`updateM_run`). A streaming run is then one fold over the blocks
of the message (`updatesM_run`), and the same program as `hashWithM`.
-/

namespace Md5Simd

open Lib Engine

/-! ## The code over effects -/

section Code

variable {m : Type → Type} [Monad m]

/-- A computation of the caller that does nothing to the closure's environment. -/
def settled {α : Type} (x : Except Fault α) : ExceptT Fault m α := ExceptT.mk (pure x)

/-- `compressBlocksWith` over a compressor with effects. -/
def compressBlocksWithM (state : State) (data : Bytes) (compress : State → Block → m State) :
    ExceptT Fault m State :=
  if data.length % 64 = 0 then
    ExceptT.lift ((blocks 64 data).foldlM compress state)
  else
    throw (partialBlock data.length)

namespace Raw

def absorbBlocksM (r : Raw) (data : Bytes) (compress : State → Block → m State) :
    ExceptT Fault m (Raw × Bytes) :=
  if 64 ≤ data.length then do
    let full := data.length / 64 * 64
    let state ← compressBlocksWithM r.state (data.take full) compress
    return ({ r with state := state }, data.drop full)
  else
    return (r, data)

/-- `Raw.keepRest` of a `Raw` at hand. -/
def keepRestM (r : Raw) (data : Bytes) : ExceptT Fault m Raw :=
  if !data.isEmpty then do
    let buf ← settled (copyInto r.buf 0 data)
    return { r with buf := buf, bufLen := data.length }
  else
    return r

/-- Complete blocks, then what is left. -/
def restM (r : Raw) (data : Bytes) (compress : State → Block → m State) :
    ExceptT Fault m Raw := do
  let (r, rest) ← absorbBlocksM r data compress
  keepRestM r rest

def updateM (r : Raw) (data : Bytes) (compress : State → Block → m State) :
    ExceptT Fault m Raw := do
  let r := { r with count := r.count + lenU64 data }
  if 0 < r.bufLen then do
    let take := min (64 - r.bufLen) data.length
    let buf ← settled (copyInto r.buf r.bufLen (data.take take))
    let bufLen := r.bufLen + take
    if bufLen = 64 then do
      let state ← ExceptT.lift (compress r.state buf)
      restM { r with state := state, buf := buf, bufLen := 0 } (data.drop take) compress
    else
      return { r with buf := buf, bufLen := bufLen }
  else
    restM r data compress

def digestSnapshotM (r : Raw) (compress : State → Block → m State) : ExceptT Fault m Digest :=
  if h : r.bufLen < 64 then
    ExceptT.lift (finalizeWithM r.state r.count ⟨r.live, length_live_lt h⟩ compress)
  else
    throw (.panic "index out of bounds")

def updatesM (r : Raw) (chunks : List Bytes) (compress : State → Block → m State) :
    ExceptT Fault m Raw := chunks.foldlM (fun r data => r.updateM data compress) r

end Raw

/-- A hasher that is given a message in pieces. -/
def streamM (chunks : List Bytes) (compress : State → Block → m State) :
    ExceptT Fault m Digest := do
  let r ← Raw.new.updatesM chunks compress
  r.digestSnapshotM compress

end Code

/-! ## One fold -/

section Lawful

variable {m : Type → Type} [Monad m] [LawfulMonad m]

theorem settled_ok_bind {α β : Type} (a : α) (k : α → ExceptT Fault m β) :
    (settled (.ok a) >>= k) = k a := by
  apply ExceptT.ext
  simp [settled, ExceptT.run_bind]

theorem lift_bind {α β : Type} (x : m α) (y : α → m β) :
    (ExceptT.lift (x >>= y) : ExceptT Fault m β) = ExceptT.lift x >>= fun a => ExceptT.lift (y a) := by
  apply ExceptT.ext
  simp

omit [LawfulMonad m] in
theorem compressBlocksWithM_run (compress : State → Block → m State) {data : Bytes}
    (h : 64 ∣ data.length) (s : State) :
    compressBlocksWithM s data compress = ExceptT.lift ((blocks 64 data).foldlM compress s) :=
  if_pos (Nat.mod_eq_zero_of_dvd h)

namespace Raw

variable (compress : State → Block → m State) {r : Raw} {p : Tail} {c : U64}

/-- What is buffered and counted, whatever the chaining words are. -/
structure Buffers (r : Raw) (p : Tail) (c : U64) : Prop where
  bufLen_lt : r.bufLen < 64
  live : r.live = p.val
  count : r.count = c

theorem absorbBlocksM_run (r : Raw) (data : Bytes) :
    absorbBlocksM r data compress =
      (fun s => ({ r with state := s }, (tail 64 data).val)) <$>
        ExceptT.lift ((blocks 64 data).foldlM compress r.state) := by
  unfold absorbBlocksM
  split
  · have hdvd : 64 ∣ (data.take (data.length / 64 * 64)).length := by
      rw [List.length_take]; omega
    show (compressBlocksWithM _ _ _ >>= _) = _
    rw [compressBlocksWithM_run compress hdvd, blocks_take_full]
    exact bind_pure_comp _ _
  · rename_i h
    rw [tail_of_lt (by omega), blocks_of_lt (by omega), List.foldlM_nil, ExceptT.lift_pure,
      map_pure]

theorem keepRestM_run (hr : r.bufLen = 0) {rest : Bytes} (hrest : rest.length < 64) :
    ∃ r' : Raw, r'.Buffers ⟨rest, hrest⟩ r.count ∧ ∀ s,
      (keepRestM { r with state := s } rest : ExceptT Fault m Raw) =
        pure { r' with state := s } := by
  by_cases hnil : rest = []
  · subst hnil
    exact ⟨r, ⟨by omega, by simp [Raw.live, hr], rfl⟩, fun s => rfl⟩
  · refine ⟨{ r with buf := overwrite r.buf 0 rest, bufLen := rest.length },
      ⟨hrest, ?_, rfl⟩, fun s => ?_⟩
    · have := live_overwrite { r with bufLen := 0 } rest (by dsimp only; omega)
      simpa [Raw.live] using this
    · rw [keepRestM, if_pos (by simpa using hnil), copyInto_ok (by omega), settled_ok_bind]

theorem restM_run (hr : r.bufLen = 0) (data : Bytes) :
    ∃ r' : Raw, r'.Buffers (tail 64 data) r.count ∧ ∀ s,
      restM { r with state := s } data compress = (fun s => { r' with state := s }) <$>
        ExceptT.lift ((blocks 64 data).foldlM compress s) := by
  obtain ⟨r', hr', hkeep⟩ := keepRestM_run (m := m) hr (tail 64 data).property
  refine ⟨r', hr', fun s => ?_⟩
  rw [restM, absorbBlocksM_run, bind_map_left, ← bind_pure_comp]
  exact bind_congr hkeep

/-- **An update is a fold over the blocks it completes**, and what it buffers does not depend on
what the compressor makes of them. -/
theorem updateM_run (hr : r.Buffers p c) (data : Bytes) :
    ∃ r' : Raw, r'.Buffers (tail 64 (p.val ++ data)) (c + lenU64 data) ∧ ∀ s,
      updateM { r with state := s } data compress = (fun s => { r' with state := s }) <$>
        ExceptT.lift ((blocks 64 (p.val ++ data)).foldlM compress s) := by
  obtain ⟨hlt, hlive, rfl⟩ := hr
  have hlen : r.live.length = r.bufLen := length_live (by omega)
  rw [← hlive]
  by_cases hpos : 0 < r.bufLen
  swap
  · -- the buffer is empty
    have hnil : r.live = [] := List.length_eq_zero_iff.mp (by omega)
    obtain ⟨r', hr', hrest⟩ := restM_run compress
      (r := { r with count := r.count + lenU64 data }) (by dsimp only; omega) data
    rw [hnil, List.nil_append]
    refine ⟨r', hr', fun s => ?_⟩
    rw [updateM, if_neg hpos]
    exact hrest s
  generalize htake : min (64 - r.bufLen) data.length = take
  have hsrc : (data.take take).length = take := by rw [List.length_take]; omega
  have hcopy : copyInto r.buf r.bufLen (data.take take) =
      .ok (overwrite r.buf r.bufLen (data.take take)) := copyInto_ok (by omega)
  have hnew := live_overwrite r (data.take take) (by omega)
  rw [hsrc] at hnew
  by_cases hfull : r.bufLen + take = 64
  · -- full: its block comes before the blocks of the rest
    rw [hfull, List.take_of_length_le (by simp)] at hnew
    have hdata : r.live ++ data =
        (overwrite r.buf r.bufLen (data.take take)).toList ++ data.drop take := by
      rw [hnew, List.append_assoc, List.take_append_drop]
    obtain ⟨r', hr', hrest⟩ := restM_run compress
      (r := { r with buf := overwrite r.buf r.bufLen (data.take take), bufLen := 0,
                     count := r.count + lenU64 data }) rfl (data.drop take)
    rw [hdata, tail_toList_append, blocks_toList_append]
    refine ⟨r', hr', fun s => ?_⟩
    rw [updateM, if_pos hpos]
    dsimp only
    rw [htake, hcopy, settled_ok_bind, if_pos hfull, List.foldlM_cons, lift_bind, map_bind]
    exact bind_congr hrest
  · -- not full: everything was taken and no block is complete
    have hall : data.take take = data := List.take_of_length_le (by omega)
    have hshort : (r.live ++ data).length < 64 := by rw [List.length_append]; omega
    refine ⟨{ r with buf := overwrite r.buf r.bufLen (data.take take),
                     bufLen := r.bufLen + take, count := r.count + lenU64 data },
      ⟨by dsimp only; omega, ?_, rfl⟩, fun s => ?_⟩
    · rw [tail_of_lt hshort]
      exact hnew.trans (by rw [hall])
    · rw [updateM, if_pos hpos]
      dsimp only
      rw [htake, hcopy, settled_ok_bind, if_neg hfull, blocks_of_lt hshort, List.foldlM_nil,
        ExceptT.lift_pure, map_pure]

/-- **A run of updates is one fold.** -/
theorem updatesM_run (chunks : List Bytes) (hr : r.Buffers p c) :
    ∃ r' : Raw, r'.Buffers (tail 64 (p.val ++ chunks.flatten)) (c + lenU64 chunks.flatten) ∧ ∀ s,
      updatesM { r with state := s } chunks compress = (fun s => { r' with state := s }) <$>
        ExceptT.lift ((blocks 64 (p.val ++ chunks.flatten)).foldlM compress s) := by
  induction chunks generalizing r p c with
  | nil =>
    rw [List.flatten_nil, List.append_nil, blocks_of_lt p.property]
    refine ⟨r, ⟨hr.bufLen_lt, ?_, ?_⟩, fun s => ?_⟩
    · rw [hr.live, tail_of_lt p.property]
    · rw [hr.count]
      exact (BitVec.add_zero c).symm
    · rw [List.foldlM_nil, ExceptT.lift_pure, map_pure]
      rfl
  | cons data chunks ih =>
    obtain ⟨mid, hmid, hupdate⟩ := updateM_run compress hr data
    obtain ⟨r', hr', hrest⟩ := ih hmid
    have hsplit : p.val ++ (data :: chunks).flatten = p.val ++ data ++ chunks.flatten := by
      rw [List.flatten_cons, List.append_assoc]
    refine ⟨r', ?_, fun s => ?_⟩
    · rw [hsplit, tail_append, List.flatten_cons, Stream.lenU64_append, ← BitVec.add_assoc]
      exact hr'
    · rw [updatesM, List.foldlM_cons, hupdate, bind_map_left, hsplit,
        blocks_append (p.val ++ data), List.foldlM_append, lift_bind, map_bind]
      exact bind_congr hrest

omit [LawfulMonad m] in
theorem digestSnapshotM_run (hr : r.Buffers p c) (s : State) :
    digestSnapshotM { r with state := s } compress = ExceptT.lift (finalizeWithM s c p compress) := by
  obtain ⟨hlt, hlive, rfl⟩ := hr
  have hp : (⟨r.live, length_live_lt hlt⟩ : Tail) = p := Subtype.ext hlive
  rw [digestSnapshotM, dif_pos hlt, ← hp]
  rfl

end Raw

/-- The empty message is no exception. -/
theorem hashWithM_eq (compress : State → Block → m State) (input : Bytes) :
    hashWithM input compress = (blocks 64 input).foldlM compress stateInit >>= fun s =>
      finalizeWithM s (lenU64 input) (tail 64 input) compress := by
  unfold hashWithM
  split
  · rename_i h
    obtain rfl := List.isEmpty_iff.mp h
    rw [blocks_of_lt (by decide), List.foldlM_nil, pure_bind]
    rfl
  · rfl

/-- A hasher that is given a message in pieces is its one-shot framing. -/
theorem streamM_eq (compress : State → Block → m State) (chunks : List Bytes) :
    streamM chunks compress = ExceptT.lift (hashWithM chunks.flatten compress) := by
  have hnew : Raw.new.Buffers emptyTail 0 := ⟨by decide, rfl, rfl⟩
  obtain ⟨r, hr, hrun⟩ := Raw.updatesM_run compress chunks hnew
  have hrun : Raw.new.updatesM chunks compress = _ := hrun stateInit
  rw [streamM, hrun, bind_map_left, hashWithM_eq, lift_bind]
  apply bind_congr
  intro s
  rw [Raw.digestSnapshotM_run compress hr s, show (0 : U64) + _ = _ from BitVec.zero_add _]
  rfl

end Lawful

/-! ## Without effects -/

section Pure

variable (f : State → Block → State)

def pureOf (f : State → Block → State) (s : State) (b : Block) : Id State := pure (f s b)

theorem foldlM_pureOf (bs : List Block) (s : State) :
    bs.foldlM (pureOf f) s = bs.foldl f s := List.foldlM_pure

namespace Raw

theorem keepRestM_pure (r : Raw) (data : Bytes) :
    (keepRestM r data : ExceptT Fault Id Raw).run = (runOn r (keepRest data)).map Prod.snd := by
  unfold keepRestM keepRest
  split
  · rw [runOn, bind_ok (get_run r)]
    cases copyInto r.buf 0 data <;> rfl
  · rfl

theorem restM_pure (r : Raw) (data : Bytes) :
    (restM r data (pureOf f)).run =
      (runOn r (absorbBlocks (compressBlocksWith f) data >>= keepRest)).map Prod.snd := by
  have hbulk (d : Bytes) (s : State) (hd : 64 ∣ d.length) :
      compressBlocksWith f d s = .ok () ((blocks 64 d).foldl f s) := by
    rw [compressBlocksWith, if_pos (Nat.mod_eq_zero_of_dvd hd)]
    rfl
  rw [restM, absorbBlocksM_run, foldlM_pureOf, runOn, bind_ok (absorbBlocks_run hbulk r data)]
  exact keepRestM_pure _ _

/-- Without effects an update is that of the code, whatever the `Raw`. -/
theorem updateM_pure (r : Raw) (data : Bytes) :
    (updateM r data (pureOf f)).run = (runOn r (Raw.update data f)).map Prod.snd := by
  unfold updateM update absorb
  rw [runOn, bind_ok (modify_run _ r), bind_ok (get_run _)]
  dsimp only
  split
  · generalize copyInto r.buf r.bufLen (data.take (min (64 - r.bufLen) data.length)) = copied
    cases copied with
    | error e => rfl
    | ok buf =>
      rw [settled_ok_bind, liftE_ok_bind]
      split
      · exact restM_pure f _ (data.drop _)
      · rfl
  · exact restM_pure f _ data

theorem digestSnapshotM_pure (r : Raw) :
    (r.digestSnapshotM (pureOf f)).run = r.digestSnapshot f := by
  unfold digestSnapshotM digestSnapshot
  split
  · rw [ExceptT.run_lift, finalizeWithM, foldlM_pureOf]
    rfl
  · rfl

end Raw

end Pure

/-! ## The calls of a streaming run -/

theorem length_calls (f : State → Block → State) (M : Bytes) :
    (calls f M).length = (M.length + 8) / 64 + 1 := by
  rw [calls_eq, length_feeds, length_padded]
  split <;> omega

theorem join_calls (f : State → Block → State) (M : Bytes) :
    join ((calls f M).map Prod.snd) = M ++ pad M := by
  rw [calls_eq, map_snd_feeds, join_padded_eq]

/-- **Streaming is hashing at once, effects included.** Whatever a compressor does besides
compressing, and in whatever pieces a message comes, the updates and the digest are the computation
that the one-shot framing of the message is: the compressor is called on the same blocks, with the
same chaining words and in the same order, and after a call that fails there is none. The blocks
that a recording compressor is called on are, one behind the other, the message and its padding:
one for every complete block and one or two for the rest. Without effects all three are the code's:
the update and the snapshot of any `Raw`, and the framing. -/
theorem streaming_effects {m : Type → Type} [Monad m] [LawfulMonad m]
    (compress : State → Block → m State) (f : State → Block → State) (chunks : List Bytes) :
    streamM chunks compress = ExceptT.lift (hashWithM chunks.flatten compress) ∧
      (streamM chunks (logged f)).run.run [] =
        (.ok (hashWith chunks.flatten f), calls f chunks.flatten) ∧
      join ((calls f chunks.flatten).map Prod.snd) = chunks.flatten ++ pad chunks.flatten ∧
      (calls f chunks.flatten).length = (chunks.flatten.length + 8) / 64 + 1 ∧
      (∀ (r : Raw) (data : Bytes),
        (r.updateM data (pureOf f)).run = (runOn r (Raw.update data f)).map Prod.snd) ∧
      (∀ r : Raw, (r.digestSnapshotM (pureOf f)).run = r.digestSnapshot f) ∧
      Id.run (hashWithM chunks.flatten (pureOf f)) = hashWith chunks.flatten f := by
  refine ⟨streamM_eq compress chunks, ?_, join_calls f chunks.flatten,
    length_calls f chunks.flatten, Raw.updateM_pure f, Raw.digestSnapshotM_pure f,
    hashWithM_pure f chunks.flatten⟩
  have hlog := hashWithM_logged f chunks.flatten
  rw [streamM_eq, ExceptT.run_lift, calls_eq]
  show (fun r => (Except.ok r.1, r.2)) ((hashWithM chunks.flatten (logged f)).run []) = _
  rw [hlog]

/-- A compressor that refuses zero chaining words, and three bytes in two pieces. -/
theorem streaming_effects_refused :
    streamM [[1], [2, 3]] (fun s b => if s = Vector.replicate 4 0 then none
        else some (compressTextbook s b)) =
      ExceptT.lift (hashWithM [1, 2, 3] fun s b => if s = Vector.replicate 4 0 then none
        else some (compressTextbook s b)) ∧
      join ((calls compressTextbook [1, 2, 3]).map Prod.snd) = [1, 2, 3] ++ pad [1, 2, 3] := by
  have h := streaming_effects (fun s b => if s = Vector.replicate 4 0 then none
    else some (compressTextbook s b)) compressTextbook [[1], [2, 3]]
  exact ⟨h.1, h.2.2.1⟩

end Md5Simd
