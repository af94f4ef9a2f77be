import Md5Simd.Backend

/-!
# The shared hasher state machine

`core.rs`. `Raw` is the chaining state with a partial-block buffer, of which only
the first `bufLen` bytes are live, and a byte count. `update` and `updateOpt`
fill the buffer, compress it when it is full, compress the complete blocks of
what is left and keep the rest.

`Stream` is what a `Raw` stands for: the live bytes, which are fewer than a block
by their type, without the stale ones behind them. One update of the code is one
`Stream.absorb` (`absorb_run`), whatever the `Raw` it starts from, and absorbing
in pieces is absorbing at once (`Stream.absorb_append`).
-/

namespace Md5Simd

open Lib

/-- Raw MD5 state: chaining words, partial block buffer, byte count. -/
structure Raw where
  /-- Running MD5 state words. -/
  state : State
  /-- Partial-block buffer. -/
  buf : Block
  /-- Valid bytes in `buf`. -/
  bufLen : Nat
  /-- Total bytes absorbed, for the length field. -/
  count : U64
  deriving DecidableEq

namespace Raw

def new : Raw := ⟨iv, zeroBlock, 0, 0⟩

def fromParts (state : State) (countBytes : U64) : Raw := ⟨state, zeroBlock, 0, countBytes⟩

def onState {α : Type} (m : EStateM Fault State α) : EStateM Fault Raw α :=
  zoom Raw.state (fun r s => { r with state := s }) m

/-- Compress the complete blocks of `data`; what is left is returned. -/
def absorbBlocks (bulk : Bytes → EStateM Fault State Unit) (data : Bytes) :
    EStateM Fault Raw Bytes := do
  if 64 ≤ data.length then
    -- `data.len() & !63`
    let full := data.length / 64 * 64
    onState (bulk (data.take full))
    return data.drop full
  else
    return data

/-- Keep `data` at the front of the buffer, unless there is none. -/
def keepRest (data : Bytes) : EStateM Fault Raw Unit := do
  if !data.isEmpty then
    let r ← get
    let buf ← liftE (copyInto r.buf 0 data)
    set ({ r with buf := buf, bufLen := data.length } : Raw)

/-- The update of both builds, over the compressor of one block and the loop over many. -/
def absorb (compress : State → Block → State) (bulk : Bytes → EStateM Fault State Unit)
    (data : Bytes) : EStateM Fault Raw Unit := do
  modify fun r => { r with count := r.count + lenU64 data }
  let r ← get
  if 0 < r.bufLen then
    let take := min (64 - r.bufLen) data.length
    let buf ← liftE (copyInto r.buf r.bufLen (data.take take))
    let bufLen := r.bufLen + take
    if bufLen = 64 then
      set ({ r with state := compress r.state buf, buf := buf, bufLen := 0 } : Raw)
      absorbBlocks bulk (data.drop take) >>= keepRest
    else
      set ({ r with buf := buf, bufLen := bufLen } : Raw)
  else
    absorbBlocks bulk data >>= keepRest

/-- Absorb bytes with a given compressor. -/
def update (data : Bytes) (compress : State → Block → State) : EStateM Fault Raw Unit :=
  absorb compress (compressBlocksWith compress) data

/-- Absorb bytes with the vendored kernel where it is built, calling it directly in the loop. -/
def updateOpt (b : Build) (data : Bytes) : EStateM Fault Raw Unit :=
  if hasOptKernel b then
    absorb b.transform (fun data => modify fun s => (blocks 64 data).foldl b.transform s) data
  else
    update data (compressBlock b)

/-- A digest that leaves the stream as it is. -/
def digestSnapshot (r : Raw) (compress : State → Block → State) : Except Fault Digest :=
  if h : r.bufLen < 64 then
    .ok (finalizeWith r.state r.count ⟨r.buf.toList.take r.bufLen, by simpa using h⟩ compress)
  else
    .error (.panic "index out of bounds")

def reset : EStateM Fault Raw Unit := set new

def zeroize : EStateM Fault Raw Unit :=
  set ({ state := Vector.replicate 4 0, buf := zeroBlock, bufLen := 0, count := 0 } : Raw)

end Raw

/-! ## The stream behind a `Raw` -/

/-- Chaining words, the bytes after the last complete block, and the byte count. -/
structure Stream where
  state : State
  pending : Tail
  count : U64

namespace Stream

def fresh : Stream := ⟨stateInit, emptyTail, 0⟩

/-- Compress the blocks of the pending bytes with the new ones, keep the tail. -/
def absorb (f : State → Block → State) (t : Stream) (data : Bytes) : Stream where
  state := (blocks 64 (t.pending.val ++ data)).foldl f t.state
  pending := tail 64 (t.pending.val ++ data)
  count := t.count + lenU64 data

def digest (f : State → Block → State) (t : Stream) : Digest :=
  finalizeWith t.state t.count t.pending f

variable {f : State → Block → State} {t : Stream}

@[simp] theorem absorb_nil : t.absorb f [] = t := by
  obtain ⟨state, pending, count⟩ := t
  simp only [absorb, List.append_nil, blocks_of_lt pending.property, List.foldl_nil]
  exact congr (congrArg _ (Subtype.ext (tail_of_lt pending.property))) (BitVec.add_zero count)

theorem lenU64_append (a b : Bytes) : lenU64 (a ++ b) = lenU64 a + lenU64 b := by
  rw [lenU64, List.length_append, BitVec.ofNat_add]; rfl

/-- **Absorbing in pieces is absorbing at once.** -/
theorem absorb_append (a b : Bytes) : t.absorb f (a ++ b) = (t.absorb f a).absorb f b := by
  have hblocks := blocks_append (n := 64) (t.pending.val ++ a) b
  have htail := tail_append (n := 64) (t.pending.val ++ a) b
  simp only [absorb, ← List.append_assoc, hblocks, htail, List.foldl_append, lenU64_append,
    BitVec.add_assoc]

theorem absorb_fresh (M : Bytes) : fresh.absorb f M =
    ⟨(blocks 64 M).foldl f stateInit, tail 64 M, lenU64 M⟩ := by
  simp [absorb, fresh]

theorem digest_absorb_fresh (M : Bytes) : (fresh.absorb f M).digest f = hashWith M f := by
  rw [absorb_fresh, hashWith_eq]
  exact finalizeWith_foldl _ _ _ _

end Stream

/-! ## The code follows the stream -/

namespace Raw

/-- The live bytes of the buffer. -/
def live (r : Raw) : Bytes := r.buf.toList.take r.bufLen

/-- `r` stands for the stream `t`. -/
structure Holds (r : Raw) (t : Stream) : Prop where
  bufLen_lt : r.bufLen < 64
  state : r.state = t.state
  live : r.live = t.pending.val
  count : r.count = t.count

theorem length_live {r : Raw} (h : r.bufLen ≤ 64) : r.live.length = r.bufLen := by
  simpa [live] using h

theorem length_live_lt {r : Raw} (h : r.bufLen < 64) : r.live.length < 64 := by
  rw [length_live (Nat.le_of_lt h)]
  exact h

theorem live_overwrite (r : Raw) (src : Bytes) (h : r.bufLen + src.length ≤ 64) :
    (overwrite r.buf r.bufLen src).toList.take (r.bufLen + src.length) = r.live ++ src :=
  take_overwrite h

section Run

variable {f : State → Block → State} {bulk : Bytes → EStateM Fault State Unit}
  (hbulk : ∀ d s, 64 ∣ d.length → bulk d s = .ok () ((blocks 64 d).foldl f s))

include hbulk

theorem absorbBlocks_run (r : Raw) (data : Bytes) :
    absorbBlocks bulk data r =
      .ok (tail 64 data).val { r with state := (blocks 64 data).foldl f r.state } := by
  unfold absorbBlocks
  split
  · have hdvd : 64 ∣ (data.take (data.length / 64 * 64)).length := by
      rw [List.length_take]; omega
    have hrun := hbulk _ r.state hdvd
    rw [blocks_take_full] at hrun
    exact bind_ok (zoom_ok hrun)
  · rename_i h
    rw [tail_of_lt (by omega), blocks_of_lt (by omega)]
    rfl

theorem rest_run {r : Raw} (hr : r.bufLen = 0) (data : Bytes) :
    ∃ r', (absorbBlocks bulk data >>= keepRest) r = .ok () r' ∧ r'.bufLen < 64 ∧
      r'.live = (tail 64 data).val ∧ r'.state = (blocks 64 data).foldl f r.state ∧
      r'.count = r.count := by
  rw [bind_ok (absorbBlocks_run hbulk r data)]
  unfold keepRest
  have htail := (tail 64 data).property
  generalize (tail 64 data).val = rest at htail ⊢
  by_cases hrest : rest = []
  · subst hrest
    exact ⟨_, rfl, by simp [hr], by simp [live, hr], rfl, rfl⟩
  · have hcopy : copyInto r.buf 0 rest = .ok (overwrite r.buf 0 rest) := copyInto_ok (by omega)
    refine ⟨{ r with state := (blocks 64 data).foldl f r.state,
                     buf := overwrite r.buf 0 rest,
                     bufLen := rest.length }, ?_, htail, ?_, rfl, rfl⟩
    · rw [if_pos (by simpa using hrest), bind_ok (get_run _), hcopy]
      rfl
    · have := live_overwrite { r with bufLen := 0 } rest (by simp; omega)
      simpa [live] using this

/-- **One update of the code is one `absorb` of the stream**, from any state with a live buffer. -/
theorem absorb_run {r : Raw} {t : Stream} (hr : r.Holds t) (data : Bytes) :
    ∃ r', absorb f bulk data r = .ok () r' ∧ r'.Holds (t.absorb f data) := by
  obtain ⟨hlt, hstate, hlive, hcount⟩ := hr
  have hlen : r.live.length = r.bufLen := length_live (by omega)
  unfold absorb Stream.absorb
  rw [bind_ok (modify_run _ r), bind_ok (get_run _), ← hlive, ← hstate, ← hcount]
  dsimp only
  split
  · -- the buffer is filled first
    rename_i hpos
    generalize htake : min (64 - r.bufLen) data.length = take
    have hsrc : (data.take take).length = take := by rw [List.length_take]; omega
    have hcopy : copyInto r.buf r.bufLen (data.take take) =
        .ok (overwrite r.buf r.bufLen (data.take take)) := copyInto_ok (by omega)
    have hnew := live_overwrite r (data.take take) (by omega)
    rw [hsrc] at hnew
    rw [hcopy, bind_ok (liftE_ok _ _)]
    split
    · -- full: its block comes before the blocks of the rest
      rename_i hfull
      rw [hfull, List.take_of_length_le (by simp)] at hnew
      have hdata : r.live ++ data =
          (overwrite r.buf r.bufLen (data.take take)).toList ++ data.drop take := by
        rw [hnew, List.append_assoc, List.take_append_drop]
      obtain ⟨r', hrun, hlt', hlive', hstate', hcount'⟩ := rest_run hbulk
        (r := { r with state := f r.state (overwrite r.buf r.bufLen (data.take take)),
                       buf := overwrite r.buf r.bufLen (data.take take), bufLen := 0,
                       count := r.count + lenU64 data }) rfl (data.drop take)
      refine ⟨r', hrun, hlt', ?_, ?_, hcount'⟩
      · rw [hstate', hdata, blocks_toList_append, List.foldl_cons]
      · rw [hlive', hdata, tail_toList_append]
    · -- not full: everything was taken and no block is complete
      rename_i hfull
      have hall : data.take take = data := List.take_of_length_le (by omega)
      have hshort : (r.live ++ data).length < 64 := by rw [List.length_append]; omega
      refine ⟨_, rfl, by dsimp only; omega, ?_, ?_, rfl⟩
      · rw [blocks_of_lt hshort]; rfl
      · rw [tail_of_lt hshort]
        exact hnew.trans (by rw [hall])
  · -- the buffer is empty
    rename_i hpos
    have hnil : r.live = [] := List.length_eq_zero_iff.mp (by omega)
    obtain ⟨r', hrun, hlt', hlive', hstate', hcount'⟩ := rest_run hbulk
      (r := { r with count := r.count + lenU64 data }) (by dsimp only; omega) data
    rw [hnil, List.nil_append]
    exact ⟨r', hrun, hlt', hstate', hlive', hcount'⟩

end Run

theorem update_run (f : State → Block → State) {r : Raw} {t : Stream} (hr : r.Holds t)
    (data : Bytes) : ∃ r', update data f r = .ok () r' ∧ r'.Holds (t.absorb f data) := by
  refine absorb_run (fun d s hd => ?_) hr data
  rw [compressBlocksWith, if_pos (Nat.mod_eq_zero_of_dvd hd)]
  rfl

/-- **Every build's update follows the stream of its compressor.** -/
theorem updateOpt_run (b : Build) {r : Raw} {t : Stream} (hr : r.Holds t) (data : Bytes) :
    ∃ r', updateOpt b data r = .ok () r' ∧ r'.Holds (t.absorb (compressBlock b) data) := by
  unfold updateOpt
  split
  · rename_i hopt
    have hf : compressBlock b = b.transform := funext₂ fun s blk => compressBlock_eq_transform hopt s blk
    rw [hf]
    exact absorb_run (fun _ _ _ => rfl) hr data
  · exact update_run _ hr data

theorem digestSnapshot_run {f : State → Block → State} {r : Raw} {t : Stream} (hr : r.Holds t) :
    r.digestSnapshot f = .ok (t.digest f) := by
  have hpend : ∀ p, (⟨r.buf.toList.take r.bufLen, p⟩ : Tail) = t.pending :=
    fun _ => Subtype.ext hr.live
  rw [digestSnapshot, dif_pos hr.bufLen_lt, hpend, hr.state, hr.count]
  rfl

theorem holds_new : new.Holds Stream.fresh := ⟨by decide, rfl, rfl, rfl⟩

end Raw

end Md5Simd
