import Md5Simd.Hasher

/-!
# Hashing from any state

`compress_blocks` on any chaining words, and `update` and `update_opt` on a `Raw`
that need not come from `new`: any chaining words, any count, any buffer with
fewer than 64 live bytes, as `from_parts` and stale buffers give them.

* `compress_blocks_frames`: compressing in pieces is compressing at once, and with
  its padding a message compresses to its digest.
* `observe` is what the code can still see of a `Raw`: not the bytes behind the
  live ones.
* `ActsOnObservations`: updates act on observations as the byte strings they
  absorb, and equal observations stay equal and give equal digests.
* `from_parts_resumes`: a resumed hasher finalizes the chain it was given, and
  only the count modulo `2 ^ 61` reaches the digest.
-/

namespace Md5Simd

open Lib

/-! ## Raw compression -/

/-- What ends a message `M`: the marker, zeros and the bit length modulo `2 ^ 64`. -/
def pad (M : Bytes) : Bytes :=
  0x80 :: (List.replicate (padZeros (M.length % 64)) 0 ++
    (u64ToLeBytes (BitVec.ofNat 64 (8 * M.length))).toList)

/-- No fewer zeros fill the last block. -/
theorem padZeros_least (len : Nat) : IsLeast {z | 64 ∣ len + 1 + z + 8} (padZeros (len % 64)) := by
  unfold padZeros
  constructor
  · show 64 ∣ len + 1 + _ + 8
    split <;> omega
  · intro z hz
    have hz : 64 ∣ len + 1 + z + 8 := hz
    split <;> omega

theorem join_padded_eq (M : Bytes) : join (padded M) = M ++ pad M := by
  have hbits : lenU64 M * 8 = BitVec.ofNat 64 (8 * M.length) := by
    rw [lenU64, Nat.mul_comm, BitVec.ofNat_mul]
    rfl
  rw [join_padded, hbits, pad]

section Compress

variable {b : Build}

theorem compressBlocks_run {data : Bytes} (h : 64 ∣ data.length) (s : State) :
    compressBlocks b data s = .ok () ((blocks 64 data).foldl (compressBlock b) s) := by
  rw [compressBlocks, compressBlocksWith, if_pos (Nat.mod_eq_zero_of_dvd h)]
  rfl

theorem compressBlocks_panics {data : Bytes} (h : ¬64 ∣ data.length) (s : State) :
    compressBlocks b data s = .error (partialBlock data.length) s := by
  rw [compressBlocks, compressBlocksWith, if_neg (mt Nat.dvd_of_mod_eq_zero h)]
  rfl

theorem compressBlocks_append {A B : Bytes} (hA : 64 ∣ A.length) (hB : 64 ∣ B.length) (s : State) :
    compressBlocks b (A ++ B) s =
      .ok () ((blocks 64 B).foldl (compressBlock b) ((blocks 64 A).foldl (compressBlock b) s)) := by
  have hAB : 64 ∣ (A ++ B).length := by rw [List.length_append]; exact Nat.dvd_add hA hB
  rw [compressBlocks_run hAB, blocks_append, tail_of_dvd hA, List.nil_append, List.foldl_append]

theorem compressBlocks_pad (M : Bytes) :
    compressBlocks b (M ++ pad M) iv = .ok () ((padded M).foldl (compressBlock b) stateInit) := by
  have hdvd : 64 ∣ (join (padded M)).length := by rw [length_join]; exact Nat.dvd_mul_left 64 _
  rw [← join_padded_eq, compressBlocks_run hdvd, blocks_of_join]
  rfl

end Compress

/-- **Raw compression carries any framing.** From any state, compressing `A` and then `B` is
compressing `A ++ B`; from the initial state a message with its padding, which has the least number
of zeros, ends in the bytes of its digest; and a partial block panics with the caller's state as it
was. -/
theorem compress_blocks_frames (b : Build) :
    (∀ (s : State) (A B : Bytes), 64 ∣ A.length → 64 ∣ B.length →
      ∃ sA sB, compressBlocks b A s = .ok () sA ∧ compressBlocks b B sA = .ok () sB ∧
        compressBlocks b (A ++ B) s = .ok () sB) ∧
      (b.OptKernelOk → ∀ M : Bytes,
        IsLeast {z | 64 ∣ M.length + 1 + z + 8} (padZeros (M.length % 64)) ∧
          ∃ s, compressBlocks b (M ++ pad M) iv = .ok () s ∧ stateToBytes s = hash b M) ∧
      ∀ (s : State) (data : Bytes), ¬ 64 ∣ data.length →
        compressBlocks b data s = .error (partialBlock data.length) s := by
  refine ⟨?_, ?_, ?_⟩
  · intro s A B hA hB
    exact ⟨_, _, compressBlocks_run hA s, compressBlocks_run hB _, compressBlocks_append hA hB s⟩
  · intro hk M
    exact ⟨padZeros_least M.length, _, compressBlocks_pad M, (hash_eq_padded hk M).symm⟩
  · exact fun s data h => compressBlocks_panics h s

/-- Two blocks, a message of three bytes, and three bytes without padding. -/
theorem compress_blocks_frames_abc :
    (∃ sA sB, compressBlocks optBuild (List.replicate 64 1) iv = .ok () sA ∧
      compressBlocks optBuild (List.replicate 64 2) sA = .ok () sB ∧
      compressBlocks optBuild (List.replicate 64 1 ++ List.replicate 64 2) iv = .ok () sB) ∧
      (∃ s, compressBlocks optBuild ([0x61, 0x62, 0x63] ++ pad [0x61, 0x62, 0x63]) iv = .ok () s ∧
        stateToBytes s = hash optBuild [0x61, 0x62, 0x63]) ∧
      compressBlocks optBuild [0x61, 0x62, 0x63] iv = .error (partialBlock 3) iv := by
  obtain ⟨happend, hpad, hpartial⟩ := compress_blocks_frames optBuild
  refine ⟨happend iv _ _ ?_ ?_, (hpad optKernelOk_optBuild [0x61, 0x62, 0x63]).2,
    hpartial iv [0x61, 0x62, 0x63] (by decide)⟩
  · rw [List.length_replicate]
  · rw [List.length_replicate]

/-! ## Observations -/

namespace Raw

/-- The chaining words, the count and the live bytes. -/
def observe (r : Raw) : State × U64 × Bytes := (r.state, r.count, r.live)

theorem exists_holds {r : Raw} (h : r.bufLen < 64) : ∃ t, r.Holds t :=
  ⟨⟨r.state, ⟨r.live, length_live_lt h⟩, r.count⟩, h, rfl, rfl, rfl⟩

theorem Holds.observe_eq {r : Raw} {t : Stream} (h : r.Holds t) :
    r.observe = (t.state, t.count, t.pending.val) := by
  rw [observe, h.state, h.count, h.live]

theorem Holds.of_observe {r r' : Raw} {t : Stream} (h : r.Holds t) (hlt : r'.bufLen < 64)
    (heq : r.observe = r'.observe) : r'.Holds t := by
  rw [h.observe_eq] at heq
  obtain ⟨hstate, hrest⟩ := Prod.mk.inj heq
  obtain ⟨hcount, hlive⟩ := Prod.mk.inj hrest
  exact ⟨hlt, hstate.symm, hlive.symm, hcount.symm⟩

/-- `upd` follows the stream of `f` from every state. -/
def Absorbs (f : State → Block → State) (upd : Bytes → EStateM Fault Raw Unit) : Prop :=
  ∀ {r t}, Holds r t → ∀ data, ∃ r', upd data r = .ok () r' ∧ r'.Holds (t.absorb f data)

variable {f : State → Block → State} {upd : Bytes → EStateM Fault Raw Unit}

theorem Absorbs.forM_run (hupd : Absorbs f upd) {r : Raw} {t : Stream} (hr : r.Holds t)
    (chunks : List Bytes) :
    ∃ r', (forM chunks upd : EStateM Fault Raw Unit) r = .ok () r' ∧
      r'.Holds (t.absorb f chunks.flatten) := by
  apply forM_done fun (done : List Bytes) (r : Raw) => r.Holds (t.absorb f done.flatten)
  · rwa [List.flatten_nil, Stream.absorb_nil]
  · intro done chunk r hr
    rw [List.flatten_append, List.flatten_singleton, Stream.absorb_append]
    exact hupd hr chunk

/-- **Updates act on observations as byte strings do**, from every state with a live buffer. -/
structure ActsOnObservations (upd : Bytes → EStateM Fault Raw Unit) : Prop where
  /-- An update returns and leaves less than a block in the buffer. -/
  keeps : ∀ r data, r.bufLen < 64 → ∃ r', upd data r = .ok () r' ∧ r'.bufLen < 64
  /-- The empty slice changes nothing. -/
  nil : ∀ r r', r.bufLen < 64 → upd [] r = .ok () r' → r'.observe = r.observe
  /-- Two updates are one update with the concatenation. -/
  append : ∀ r a b mid r₂ r₁, r.bufLen < 64 → upd a r = .ok () mid → upd b mid = .ok () r₂ →
    upd (a ++ b) r = .ok () r₁ → r₂.observe = r₁.observe
  /-- Stale bytes reach no observation and no digest, whatever follows. -/
  stale : ∀ r r', r.bufLen < 64 → r'.bufLen < 64 → r.observe = r'.observe →
    ∀ chunks : List Bytes,
    ∃ s s', (forM chunks upd : EStateM Fault Raw Unit) r = .ok () s ∧
      (forM chunks upd : EStateM Fault Raw Unit) r' = .ok () s' ∧ s.observe = s'.observe ∧
      ∀ g, ∃ d, s.digestSnapshot g = .ok d ∧ s'.digestSnapshot g = .ok d

theorem Absorbs.acts (hupd : Absorbs f upd) : ActsOnObservations upd where
  keeps := by
    intro r data h
    obtain ⟨t, ht⟩ := exists_holds h
    obtain ⟨r', hrun, hr'⟩ := hupd ht data
    exact ⟨r', hrun, hr'.bufLen_lt⟩
  nil := by
    intro r r' h hrun
    obtain ⟨t, ht⟩ := exists_holds h
    obtain ⟨s, hs, hr'⟩ := hupd ht []
    obtain ⟨-, rfl⟩ : () = () ∧ r' = s := by simpa [hrun] using hs
    rw [Stream.absorb_nil] at hr'
    rw [hr'.observe_eq, ht.observe_eq]
  append := by
    intro r a b mid r₂ r₁ h ha hb hab
    obtain ⟨t, ht⟩ := exists_holds h
    obtain ⟨m, hm, hmid⟩ := hupd ht a
    obtain ⟨-, rfl⟩ : () = () ∧ mid = m := by simpa [ha] using hm
    obtain ⟨s, hs, hs2⟩ := hupd hmid b
    obtain ⟨-, rfl⟩ : () = () ∧ r₂ = s := by simpa [hb] using hs
    obtain ⟨s, hs, hs1⟩ := hupd ht (a ++ b)
    obtain ⟨-, rfl⟩ : () = () ∧ r₁ = s := by simpa [hab] using hs
    rw [hs2.observe_eq, hs1.observe_eq, Stream.absorb_append]
  stale := by
    intro r r' h h' heq chunks
    obtain ⟨t, ht⟩ := exists_holds h
    obtain ⟨s, hrun, hs⟩ := hupd.forM_run ht chunks
    obtain ⟨s', hrun', hs'⟩ := hupd.forM_run (ht.of_observe h' heq) chunks
    refine ⟨s, s', hrun, hrun', by rw [hs.observe_eq, hs'.observe_eq], ?_⟩
    intro g
    exact ⟨_, digestSnapshot_run hs, digestSnapshot_run hs'⟩

end Raw

/-- **`update` is a monoid action up to observation**, with any compressor, and so is the
`update_opt` of every build. -/
theorem update_acts_on_observations :
    (∀ f, Raw.ActsOnObservations fun data => Raw.update data f) ∧
      ∀ b, Raw.ActsOnObservations (Raw.updateOpt b) :=
  ⟨fun f => Raw.Absorbs.acts (Raw.update_run f), fun b => Raw.Absorbs.acts (Raw.updateOpt_run b)⟩

/-! ## Resuming -/

variable {b : Build}

theorem Md5.forM_update_run {h : Md5} {t : Stream} (hr : h.raw.Holds t) (chunks : List Bytes) :
    ∃ h', (forM chunks (Md5.update b) : EStateM Fault Md5 Unit) h = .ok () h' ∧
      h'.raw.Holds (t.absorb (compressBlock b) chunks.flatten) := by
  apply forM_done fun (done : List Bytes) (h : Md5) =>
    h.raw.Holds (t.absorb (compressBlock b) done.flatten)
  · rwa [List.flatten_nil, Stream.absorb_nil]
  · intro done chunk h hr
    rw [List.flatten_append, List.flatten_singleton, Stream.absorb_append]
    obtain ⟨r, hrun, hr'⟩ := Raw.updateOpt_run b hr chunk
    exact ⟨⟨r⟩, Md5.onRaw_ok hrun, hr'⟩

theorem holds_fromParts (s : State) (c : U64) :
    (Md5.fromParts s c).raw.Holds ⟨s, emptyTail, c⟩ :=
  ⟨Nat.zero_lt_succ 63, rfl, rfl, rfl⟩

theorem Stream.absorb_parts (f : State → Block → State) (s : State) (c : U64) (D : Bytes) :
    (⟨s, emptyTail, c⟩ : Stream).absorb f D =
      ⟨(blocks 64 D).foldl f s, tail 64 D, c + lenU64 D⟩ := by
  simp only [Stream.absorb, emptyTail_val, List.nil_append]

/-- The length field forgets the three highest bits of the count. -/
theorem mul_eight_congr {c c' : U64} (h : c.toNat % 2 ^ 61 = c'.toNat % 2 ^ 61) (x : U64) :
    (c + x) * 8 = (c' + x) * 8 := by
  apply BitVec.eq_of_toNat_eq
  have h8 : (8 : U64).toNat = 8 := rfl
  rw [BitVec.toNat_mul, BitVec.toNat_mul, BitVec.toNat_add, BitVec.toNat_add, h8]
  omega

theorem finalizeWith_congr {total total' : U64} (h : total * 8 = total' * 8) (s : State) (t : Tail)
    (f : State → Block → State) : finalizeWith s total t f = finalizeWith s total' t f := by
  have hsize : (finalBlocks total t).length = (finalBlocks total' t).length := by
    rw [length_finalBlocks, length_finalBlocks]
  have hjoin : join (finalBlocks total t) = join (finalBlocks total' t) := by
    rw [join_finalBlocks, join_finalBlocks, h]
  rw [finalizeWith, finalizeWith, join_inj hsize hjoin]

theorem digest_absorb_parts (hk : b.OptKernelOk) {P : Bytes} (hP : 64 ∣ P.length) {s : State}
    (hs : compressBlocks b P iv = .ok () s) (D : Bytes) :
    ((⟨s, emptyTail, lenU64 P⟩ : Stream).absorb (compressBlock b) D).digest (compressBlock b) =
      hash b (P ++ D) := by
  have hstate : s = (blocks 64 P).foldl (compressBlock b) stateInit := by
    rw [compressBlocks_run hP] at hs
    obtain ⟨-, hs⟩ := EStateM.Result.ok.inj hs
    exact hs.symm
  have hfresh : (⟨s, emptyTail, lenU64 P⟩ : Stream) = Stream.fresh.absorb (compressBlock b) P := by
    have htail : emptyTail = tail 64 P := Subtype.ext (tail_of_dvd hP).symm
    rw [Stream.absorb_fresh, hstate, htail]
  rw [hfresh, ← Stream.absorb_append, Stream.digest_absorb_fresh, hashWith_eq, hash_eq_padded hk]

/-- **A resumed hasher goes on with the chain it was given.** From any chaining words `s` and any
count `c`, after any updates: a snapshot finalizes the blocks absorbed since on top of `s`, with the
total count modulo `2 ^ 64` and the tail; when `s` is the chain of whole blocks `P` of that length,
it is the one-shot digest of `P` and the absorbed bytes; and a count that agrees modulo `2 ^ 61`
gives the same snapshots, also where the count wraps. -/
theorem from_parts_resumes (b : Build) (s : State) (c : U64) (chunks : List Bytes) :
    ∃ h, (forM chunks (Md5.update b) : EStateM Fault Md5 Unit) (Md5.fromParts s c) = .ok () h ∧
      Md5.finalizeSnapshot b h = .ok (finalizeWith
        ((blocks 64 chunks.flatten).foldl (compressBlock b) s) (c + lenU64 chunks.flatten)
        (tail 64 chunks.flatten) (compressBlock b)) ∧
      (Md5.bytesHashed h).toNat = (c.toNat + chunks.flatten.length) % 2 ^ 64 ∧
      (∀ P, b.OptKernelOk → 64 ∣ P.length → c = BitVec.ofNat 64 P.length →
        compressBlocks b P iv = .ok () s →
        Md5.finalizeSnapshot b h = .ok (hash b (P ++ chunks.flatten))) ∧
      ∀ c' : U64, c.toNat % 2 ^ 61 = c'.toNat % 2 ^ 61 →
        ∃ h', (forM chunks (Md5.update b) : EStateM Fault Md5 Unit) (Md5.fromParts s c') =
            .ok () h' ∧
          Md5.finalizeSnapshot b h' = Md5.finalizeSnapshot b h ∧
          (Md5.bytesHashed h').toNat = (c'.toNat + chunks.flatten.length) % 2 ^ 64 := by
  let D := chunks.flatten
  have hrun : ∀ c : U64, ∃ h, (forM chunks (Md5.update b) : EStateM Fault Md5 Unit)
      (Md5.fromParts s c) = .ok () h ∧
      h.raw.Holds ⟨(blocks 64 D).foldl (compressBlock b) s, tail 64 D, c + lenU64 D⟩ := by
    intro c
    rw [← Stream.absorb_parts]
    exact Md5.forM_update_run (holds_fromParts s c) chunks
  have hcount : ∀ {c : U64} {h : Md5},
      h.raw.Holds ⟨(blocks 64 D).foldl (compressBlock b) s, tail 64 D, c + lenU64 D⟩ →
      (Md5.bytesHashed h).toNat = (c.toNat + D.length) % 2 ^ 64 := by
    intro c h hr
    rw [Md5.bytesHashed, hr.count, lenU64, BitVec.toNat_add, BitVec.toNat_ofNat]
    omega
  obtain ⟨h, hh, hr⟩ := hrun c
  have hsnap : Md5.finalizeSnapshot b h = _ := Raw.digestSnapshot_run hr
  refine ⟨h, hh, hsnap, hcount hr, ?_, ?_⟩
  · intro P hk hP hc hs
    subst hc
    rw [hsnap, ← digest_absorb_parts hk hP hs, Stream.absorb_parts]
    rfl
  · intro c' hc
    obtain ⟨h', hh', hr'⟩ := hrun c'
    have hsnap' : Md5.finalizeSnapshot b h' = _ := Raw.digestSnapshot_run hr'
    refine ⟨h', hh', ?_, hcount hr'⟩
    rw [hsnap, hsnap']
    exact congrArg Except.ok (finalizeWith_congr (mul_eight_congr hc.symm (lenU64 D)) _ _ _)

/-- One block before the resume, three bytes after it, and a count that is off by `2 ^ 61`. -/
theorem from_parts_resumes_block :
    ∃ s h h', compressBlocks optBuild (List.replicate 64 1) iv = .ok () s ∧
      (forM [[2], [3, 4]] (Md5.update optBuild) : EStateM Fault Md5 Unit) (Md5.fromParts s 64) =
        .ok () h ∧
      Md5.finalizeSnapshot optBuild h =
        .ok (hash optBuild (List.replicate 64 1 ++ [2, 3, 4])) ∧
      (forM [[2], [3, 4]] (Md5.update optBuild) : EStateM Fault Md5 Unit)
        (Md5.fromParts s 2305843009213694016) = .ok () h' ∧
      Md5.finalizeSnapshot optBuild h' = Md5.finalizeSnapshot optBuild h := by
  let P : Bytes := List.replicate 64 1
  have hlen : P.length = 64 := List.length_replicate
  have hs : compressBlocks optBuild P iv =
      .ok () ((blocks 64 P).foldl (compressBlock optBuild) iv) :=
    compressBlocks_run (by rw [hlen]) iv
  obtain ⟨h, hrun, -, -, hparts, hcongr⟩ := from_parts_resumes optBuild
    ((blocks 64 P).foldl (compressBlock optBuild) iv) 64 [[2], [3, 4]]
  obtain ⟨h', hrun', hsame, -⟩ := hcongr 2305843009213694016 (by decide)
  refine ⟨_, h, h', hs, hrun, ?_, hrun', hsame⟩
  exact hparts P optKernelOk_optBuild (by rw [hlen]) (by rw [hlen]; rfl) hs

/-! ## Length extension -/

theorem dvd_length_pad (M : Bytes) : 64 ∣ (M ++ pad M).length := by
  rw [← join_padded_eq, length_join]
  exact Nat.dvd_mul_left 64 _

/-- **A digest is a state to resume from.** Whoever has the digest of `M`, so its words `s`, and the
length of `M` can go on behind its padding: the hasher that `from_parts` makes of these gives, after
any updates, the digest of `M`, its padding and what was absorbed. The padding is that of any
message of the same length. -/
theorem length_extension (b : Build) (hk : b.OptKernelOk) (M M' : Bytes)
    (hlen : M'.length = M.length) (s : State) (hs : stateToBytes s = hash b M)
    (chunks : List Bytes) :
    ∃ h, (forM chunks (Md5.update b) : EStateM Fault Md5 Unit)
        (Md5.fromParts s (lenU64 (M' ++ pad M'))) = .ok () h ∧
      Md5.finalizeSnapshot b h = .ok (hash b (M ++ pad M' ++ chunks.flatten)) := by
  have hpad : pad M' = pad M := by rw [pad, pad, hlen]
  have hcount : lenU64 (M' ++ pad M') = lenU64 (M ++ pad M) := by
    rw [lenU64, lenU64, List.length_append, List.length_append, hlen, hpad]
  have hstate : s = (padded M).foldl (compressBlock b) stateInit :=
    stateToBytes_inj (hs.trans (hash_eq_padded hk M))
  have hchain : compressBlocks b (M ++ pad M) iv = .ok () s := by
    rw [hstate]
    exact compressBlocks_pad M
  obtain ⟨h, hrun, hholds⟩ :=
    Md5.forM_update_run (b := b) (holds_fromParts s (lenU64 (M ++ pad M))) chunks
  have hsnap : Md5.finalizeSnapshot b h = _ := Raw.digestSnapshot_run hholds
  rw [hcount, hpad]
  exact ⟨h, hrun, by rw [hsnap, digest_absorb_parts hk (dvd_length_pad M) hchain]⟩

/-- Three bytes, extended by four. -/
theorem length_extension_three :
    ∃ s h, stateToBytes s = hash optBuild [1, 2, 3] ∧
      (forM [[4], [5, 6, 7]] (Md5.update optBuild) : EStateM Fault Md5 Unit)
        (Md5.fromParts s (lenU64 ([0, 0, 0] ++ pad [0, 0, 0]))) = .ok () h ∧
      Md5.finalizeSnapshot optBuild h =
        .ok (hash optBuild ([1, 2, 3] ++ pad [0, 0, 0] ++ [4, 5, 6, 7])) := by
  have hs := hash_eq_padded optKernelOk_optBuild [1, 2, 3]
  obtain ⟨h, hrun, hsnap⟩ := length_extension optBuild optKernelOk_optBuild [1, 2, 3] [0, 0, 0] rfl
    _ hs.symm [[4], [5, 6, 7]]
  exact ⟨_, h, hs.symm, hrun, hsnap⟩

end Md5Simd
