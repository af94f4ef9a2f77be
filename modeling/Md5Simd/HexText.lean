import Md5Simd.Engine
import Md5Simd.Hasher
import Md5Simd.Lib.Hexadecimal

/-!
# Hexadecimal digests

`hex_encode_digest` of `md5.rs` and `hash_many_hex` of `engine.rs`, and what the
text of all encoders is: the lowercase hexadecimal of the bytes (`hexText_eq`),
which any decoder reads back and which is valid UTF-8.
-/

namespace Md5Simd

open Lib Engine

/-- Lowercase hex of a digest in a fixed array. -/
def hexEncodeDigest (digest : Digest) : Except Fault Bytes := do
  let r ← runOn (List.replicate 32 0) (hexEncodeInto digest.toList)
  return r.2

/-- `*output = hex_encode(d)` for one slot of the outputs. -/
def Engine.writeHex (e : Digest × Nat) : EStateM Fault (List Bytes) Unit := do
  let text ← liftE (hexEncode e.1.toList)
  store e.2 text

/-- Hash independent messages to lowercase hex. -/
def Engine.hashManyHex (b : Build) (inputs : List Bytes) : EStateM Fault (List Bytes) Unit := do
  let outputs ← get
  if outputs.length < inputs.length then
    throw (Ledger.tooShort outputs.length inputs.length)
  else
    let digests := List.replicate inputs.length (Vector.replicate 16 0)
    let r ← liftE (runOn ⟨digests, []⟩ (hashMany b inputs))
    -- `digests.iter().zip(outputs.iter_mut())`, the outputs being as long at least
    forM r.2.outputs.zipIdx writeHex

/-! ## The text -/

theorem HEX_eq : ∀ d : Fin 16, HEX[d] = lowerDigit d := by decide

theorem hexPair_eq (b : U8) :
    (hexPair b).toList = [lowerDigit (highNibble b), lowerDigit (lowNibble b)] := by
  rw [← HEX_eq, ← HEX_eq, hexPair, HEX_PAIRS, Vector.getElem_ofFn]
  simp [highNibble, lowNibble]

theorem hexText_eq (bytes : Bytes) : hexText bytes = lowerHex bytes := by
  simp only [hexText, lowerHex, hexPair_eq]

/-- What a text of some bytes is good for. -/
structure HexOf (bytes text : Bytes) : Prop where
  length_text : text.length = 2 * bytes.length
  lower : ∀ c ∈ text, IsLowerHex c
  decodes : hexDecode text = some bytes
  reencodes : (hexDecode text).map hexText = some text
  /-- The contract of `String::from_utf8_unchecked`. -/
  utf8 : IsUtf8 text

theorem hexOf_hexText (bytes : Bytes) : HexOf bytes (hexText bytes) := by
  have hlower : ∀ c ∈ hexText bytes, IsLowerHex c := by
    intro c hc
    rw [hexText_eq] at hc
    exact isLowerHex_of_mem hc
  have hdecode : hexDecode (hexText bytes) = some bytes := by
    rw [hexText_eq, hexDecode_lowerHex]
  refine ⟨by rw [length_hexText, Nat.mul_comm], hlower, hdecode, by rw [hdecode]; rfl, ?_⟩
  refine isUtf8_of_ascii fun c hc => ?_
  have := hlower c hc
  unfold IsLowerHex at this
  omega

theorem eq_hexText {bytes text : Bytes} (hlower : ∀ c ∈ text, IsLowerHex c)
    (h : hexDecode text = some bytes) : text = hexText bytes := by
  rw [hexText_eq, lowerHex_of_hexDecode text hlower h]

/-! ## The encoders -/

theorem hexEncodeInto_short {bytes out : Bytes} (h : out.length < 2 * bytes.length) :
    hexEncodeInto bytes out = .error (.panic "hex output is too short") out := by
  unfold hexEncodeInto
  rw [bind_ok (get_run out), if_neg (by omega)]
  rfl

theorem hexEncodeDigest_run (d : Digest) : hexEncodeDigest d = .ok (hexText d.toList) := by
  have hfits : d.toList.length ≤ (List.replicate 32 (0 : U8)).length / 2 := by simp
  have hrun := hexEncodeInto_run hfits
  rw [hexEncodeDigest, runOn, hrun]
  simp [pure, Except.pure, bind, Except.bind]

theorem forM_writeHex (ds : List Digest) {outputs : List Bytes} (h : ds.length ≤ outputs.length) :
    (forM ds.zipIdx writeHex : EStateM Fault (List Bytes) Unit) outputs =
      .ok () (ds.map (fun d => hexText d.toList) ++ outputs.drop ds.length) := by
  obtain ⟨outs, hrun, rfl⟩ := forM_zipIdx (m := writeHex)
    (fun i o => o = fill (fun d : Digest => hexText d.toList) ds outputs i) ds fill_zero.symm
    fun i hi o ho => by
      refine ⟨_, ?_, rfl⟩
      rw [ho]
      unfold writeHex
      rw [hexEncode_digest, bind_ok (liftE_ok _ _)]
      exact store_fill hi h rfl
  rw [hrun, fill_all]

theorem hashManyHex_run {b : Build} (hk : b.OptKernelOk) {inputs outputs : List Bytes}
    (h : inputs.length ≤ outputs.length) :
    hashManyHex b inputs outputs =
      .ok () (inputs.map (fun m => hexText (hash b m).toList) ++ outputs.drop inputs.length) := by
  have hslots : inputs.length ≤
      (List.replicate inputs.length (Vector.replicate 16 0 : Digest)).length := by
    rw [List.length_replicate]
  obtain ⟨calls, hmany⟩ := hashManyDispatch_eq hk hslots
  rw [List.drop_of_length_le (by simp), List.append_nil] at hmany
  have hwrite := forM_writeHex (inputs.map (hash b)) (show _ ≤ outputs.length by simpa using h)
  rw [List.map_map, List.length_map] at hwrite
  unfold hashManyHex
  rw [bind_ok (get_run outputs), if_neg (by omega)]
  simp only [runOn, hashMany, hmany]
  rw [bind_ok (liftE_ok _ _), hwrite]
  rfl

theorem hashManyHex_short {b : Build} {inputs outputs : List Bytes}
    (h : outputs.length < inputs.length) :
    hashManyHex b inputs outputs =
      .error (Ledger.tooShort outputs.length inputs.length) outputs := by
  unfold hashManyHex
  rw [bind_ok (get_run outputs), if_pos h]
  rfl

/-- **Hexadecimal text round-trips and is framed.** The encoder into a slice panics with the slice
as it was exactly when the slice has fewer than two bytes for each input byte, and else writes the
text to its front and leaves the rest; the text is the only lowercase one that decodes to the
input, encodes back to itself, and is valid UTF-8; and the other encoders give the same text, for
every digest and in the slot of every message. -/
theorem hex_round_trips (b : Build) (hk : b.OptKernelOk) :
    (∀ bytes out : Bytes,
      (out.length < 2 * bytes.length →
        hexEncodeInto bytes out = .error (.panic "hex output is too short") out) ∧
      (2 * bytes.length ≤ out.length →
        hexEncodeInto bytes out =
          .ok (2 * bytes.length) (hexText bytes ++ out.drop (2 * bytes.length)))) ∧
      (∀ bytes, HexOf bytes (hexText bytes) ∧
        ∀ text, (∀ c ∈ text, IsLowerHex c) → hexDecode text = some bytes → text = hexText bytes) ∧
      (∀ bytes, bytes.length * 2 < 2 ^ 64 → hexEncode bytes = .ok (hexText bytes)) ∧
      (∀ d : Digest, hexEncode d.toList = .ok (hexText d.toList) ∧
        hexEncodeDigest d = .ok (hexText d.toList)) ∧
      ∀ inputs outputs : List Bytes,
        (inputs.length ≤ outputs.length →
          hashManyHex b inputs outputs =
            .ok ()
              (inputs.map (fun m => hexText (hash b m).toList) ++ outputs.drop inputs.length)) ∧
        (outputs.length < inputs.length →
          hashManyHex b inputs outputs =
            .error (Ledger.tooShort outputs.length inputs.length) outputs) := by
  refine ⟨fun bytes out => ⟨hexEncodeInto_short, fun h => ?_⟩,
    fun bytes => ⟨hexOf_hexText bytes, fun _ => eq_hexText⟩, fun bytes => hexEncode_run,
    fun d => ⟨hexEncode_digest d, hexEncodeDigest_run d⟩,
    fun inputs outputs => ⟨hashManyHex_run hk, hashManyHex_short⟩⟩
  rw [Nat.mul_comm]
  exact hexEncodeInto_run (by omega)

/-- Odd output lengths: two bytes do not fit into three, one does. -/
theorem hex_round_trips_odd :
    hexEncodeInto [0xab, 0xcd] [0, 0, 7] = .error (.panic "hex output is too short") [0, 0, 7] ∧
      hexEncodeInto [0xab] [0, 0, 7] = .ok 2 [0x61, 0x62, 7] ∧
      HexOf [0xab] [0x61, 0x62] ∧ hexEncode [0xab] = .ok [0x61, 0x62] ∧
      hexEncodeDigest emptyDigest = .ok (hexText emptyDigest.toList) ∧
      hashManyHex optBuild [[1]] [[], [5]] = .ok () [hexText (hash optBuild [1]).toList, [5]] ∧
      hashManyHex optBuild [[1]] [] = .error (Ledger.tooShort 0 1) [] := by
  have hab : hexText [0xab] = [0x61, 0x62] := by
    rw [hexText_eq]
    rfl
  obtain ⟨hinto, htext, hencode, hdigest, hmany⟩ := hex_round_trips optBuild optKernelOk_optBuild
  have hone := (hinto [0xab] [0, 0, 7]).2 (by decide)
  have hof := (htext [0xab]).1
  have hvec := hencode [0xab] (by decide)
  rw [hab] at hone hof hvec
  exact ⟨(hinto [0xab, 0xcd] [0, 0, 7]).1 (by decide), hone, hof, hvec, (hdigest emptyDigest).2,
    (hmany [[1]] [[], [5]]).1 (by decide), (hmany [[1]] []).2 (by decide)⟩

end Md5Simd
