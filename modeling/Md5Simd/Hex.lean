import Md5Simd.Lib.Place
import Md5Simd.Word

/-!
# Lowercase hexadecimal

The hex encoder of `md5.rs`. Text is the bytes of the string. `hexEncodeInto`
writes two bytes for each input byte at the front of its output slice;
`hexEncode_run` says which.
-/

namespace Md5Simd

open Lib

/-- The alphabet, `b"0123456789abcdef"`. -/
def HEX : Vector U8 16 := #v[0x30, 0x31, 0x32, 0x33, 0x34, 0x35, 0x36, 0x37, 0x38, 0x39,
  0x61, 0x62, 0x63, 0x64, 0x65, 0x66]

/-- Two-byte lookup for every input byte. -/
def HEX_PAIRS : Vector (Vector U8 2) 256 := Vector.ofFn fun i => #v[HEX[i.val / 16], HEX[i.val % 16]]

def hexPair (b : U8) : Vector U8 2 := HEX_PAIRS[b.toNat]

/-- Write lowercase hex into the output slice; the number of bytes written is returned. -/
def hexEncodeInto (bytes : Bytes) : EStateM Fault Bytes Nat := do
  let out ← get
  if bytes.length ≤ out.length / 2 then
    forM bytes.zipIdx fun (b, i) => do
      let pair := hexPair b
      store (i * 2) pair[0]
      store (i * 2 + 1) pair[1]
    return bytes.length * 2
  else
    throw (.panic "hex output is too short")

/-- Encode every input byte as two lowercase hexadecimal characters. -/
def hexEncode (bytes : Bytes) : Except Fault Bytes :=
  if bytes.length * 2 < 2 ^ 64 then
    match hexEncodeInto bytes (List.replicate (bytes.length * 2) 0) with
    | .ok _ buf => .ok buf
    | .error e _ => .error e
  else
    .error (.panic "hex length overflow")

def hexText (bytes : Bytes) : Bytes := bytes.flatMap fun b => (hexPair b).toList

@[simp] theorem length_hexText (bytes : Bytes) : (hexText bytes).length = bytes.length * 2 := by
  induction bytes with
  | nil => rfl
  | cons b bytes ih =>
    rw [hexText, List.flatMap_cons, List.length_append, Vector.length_toList]
    rw [hexText] at ih
    rw [ih, List.length_cons]; omega

theorem hexText_take_succ {bytes : Bytes} {i : Nat} (hi : i < bytes.length) :
    hexText (bytes.take (i + 1)) = hexText (bytes.take i) ++ (hexPair bytes[i]).toList := by
  rw [List.take_add_one, List.getElem?_eq_getElem hi, hexText, List.flatMap_append]
  simp [hexText]

theorem set_set_append {pre rest : Bytes} {k : Nat} (hk : pre.length = k) (v : Vector U8 2)
    (h : 2 ≤ rest.length) :
    ((pre ++ rest).set k v[0]).set (k + 1) v[1] = pre ++ v.toList ++ rest.drop 2 := by
  subst hk
  rcases rest with _ | ⟨x, _ | ⟨y, rest⟩⟩
  · cases h
  · simp at h
  · have hv : v = #v[v[0], v[1]] := Vector.ext fun i hi => by
      obtain rfl | rfl : i = 0 ∨ i = 1 := by omega
      · rfl
      · rfl
    rw [show v.toList = [v[0], v[1]] from congrArg Vector.toList hv]
    simp [List.set_append_right]

/-- **The text goes to the front of the slice and the rest of it stays.** -/
theorem hexEncodeInto_run {bytes out : Bytes} (h : bytes.length ≤ out.length / 2) :
    hexEncodeInto bytes out =
      .ok (bytes.length * 2) (hexText bytes ++ out.drop (bytes.length * 2)) := by
  unfold hexEncodeInto
  rw [bind_ok (get_run _), if_pos h]
  obtain ⟨out', hrun, hout⟩ := forM_zipIdx
    (m := fun p => do store (p.2 * 2) (hexPair p.1)[0]; store (p.2 * 2 + 1) (hexPair p.1)[1])
    (fun i o => o = hexText (bytes.take i) ++ out.drop (i * 2)) (s := out) bytes (by simp [hexText])
    (fun i hi o ho => by
      have hpre : (hexText (bytes.take i)).length = i * 2 := by
        rw [length_hexText, List.length_take, Nat.min_eq_left (by omega)]
      have hlen : o.length = out.length := by
        rw [ho, List.length_append, hpre, List.length_drop]; omega
      refine ⟨_, by rw [bind_ok (store_ok (by omega))]; exact store_ok (by simp; omega), ?_⟩
      rw [ho, set_set_append hpre _ (by simp; omega), hexText_take_succ hi, List.drop_drop]
      congr 2; omega)
  rw [bind_ok hrun, hout, List.take_length]
  rfl

theorem hexEncode_run {bytes : Bytes} (h : bytes.length * 2 < 2 ^ 64) :
    hexEncode bytes = .ok (hexText bytes) := by
  rw [hexEncode, if_pos h, hexEncodeInto_run (by simp)]
  simp

end Md5Simd
