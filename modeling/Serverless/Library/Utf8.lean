import Mathlib.Data.List.Basic

/-!
# Decoding UTF-8

A byte at a time: the decoder holds the sequence it is in the middle of, with the range
the next byte must lie in. A byte that does not fit ends the sequence with one
replacement character and is looked at again as a first byte, so every maximal ill-formed
part of the input becomes one `U+FFFD`. Strict decoding accepts what encoding gives back.
-/
namespace Serverless.Library.Utf8

def replacement : Char := Char.ofNat 0xFFFD

/-- A sequence that is not complete: the value so far, how many bytes are missing, and the range
of the next one. -/
structure Pending where
  value : Nat
  missing : Nat
  low : Nat
  high : Nat

/-- The first byte of a sequence. -/
def first (b : UInt8) : List Char × Option Pending :=
  let n := b.toNat
  if n < 0x80 then ([Char.ofNat n], none)
  else if n < 0xC2 then ([replacement], none)
  else if n < 0xE0 then ([], some ⟨n - 0xC0, 1, 0x80, 0xBF⟩)
  else if n < 0xF0 then
    -- no overlong forms and no surrogates
    ([], some ⟨n - 0xE0, 2, if n = 0xE0 then 0xA0 else 0x80, if n = 0xED then 0x9F else 0xBF⟩)
  else if n < 0xF5 then
    ([], some ⟨n - 0xF0, 3, if n = 0xF0 then 0x90 else 0x80, if n = 0xF4 then 0x8F else 0xBF⟩)
  else ([replacement], none)

def next : Option Pending → UInt8 → List Char × Option Pending
  | none, b => first b
  | some p, b =>
    if p.low ≤ b.toNat ∧ b.toNat ≤ p.high then
      let value := p.value * 64 + (b.toNat - 0x80)
      if p.missing = 1 then ([Char.ofNat value], none)
      else ([], some ⟨value, p.missing - 1, 0x80, 0xBF⟩)
    else
      let (out, state) := first b
      (replacement :: out, state)

def decodeFrom : Option Pending → List UInt8 → List Char
  | none, [] => []
  | some _, [] => [replacement]
  | state, b :: bs =>
    let (out, state') := next state b
    out ++ decodeFrom state' bs

/-- `data.decode("utf-8", errors="replace")`. -/
def decode (data : List UInt8) : List Char := decodeFrom none data

/-- `text.encode("utf-8")`. -/
def encode (text : List Char) : List UInt8 := text.flatMap String.utf8EncodeChar

/-- `data.decode("utf-8")`; `none` is a `UnicodeDecodeError`. -/
def decodeStrict (data : List UInt8) : Option (List Char) :=
  if encode (decode data) = data then some (decode data) else none

private theorem toNat_byte {n : Nat} (h : n < 256) : (UInt8.ofNat n).toNat = n := by
  simp only [UInt8.toNat_ofNat']
  omega

private theorem ofNat_val (c : Char) {n : Nat} (h : n = c.val.toNat) : Char.ofNat n = c := by
  rw [h]
  exact Char.ofNat_toNat c

private theorem decodeFrom_cons (state : Option Pending) (b : UInt8) (bs : List UInt8) :
    decodeFrom state (b :: bs) = (next state b).1 ++ decodeFrom (next state b).2 bs := by
  cases state <;> rfl

/-- A continuation byte in range that is not the last one. -/
private theorem decodeFrom_more {p : Pending} {n : Nat} (bs : List UInt8) (hn : n < 256)
    (hl : p.low ≤ n) (hh : n ≤ p.high) (hm : p.missing ≠ 1) :
    decodeFrom (some p) (UInt8.ofNat n :: bs) =
      decodeFrom (some ⟨p.value * 64 + (n - 0x80), p.missing - 1, 0x80, 0xBF⟩) bs := by
  rw [decodeFrom_cons]
  simp only [next, toNat_byte hn]
  rw [if_pos ⟨hl, hh⟩, if_neg hm]
  rfl

private theorem decodeFrom_last {p : Pending} {n : Nat} (bs : List UInt8) (hn : n < 256)
    (hl : p.low ≤ n) (hh : n ≤ p.high) (hm : p.missing = 1) :
    decodeFrom (some p) (UInt8.ofNat n :: bs) =
      Char.ofNat (p.value * 64 + (n - 0x80)) :: decodeFrom none bs := by
  rw [decodeFrom_cons]
  simp only [next, toNat_byte hn]
  rw [if_pos ⟨hl, hh⟩, if_pos hm]
  rfl

/-- The bytes of one character are read back as the character. -/
theorem decodeFrom_utf8EncodeChar (c : Char) (bs : List UInt8) :
    decodeFrom none (String.utf8EncodeChar c ++ bs) = c :: decodeFrom none bs := by
  have hvalid : c.val.toNat < 0xD800 ∨ 0xDFFF < c.val.toNat ∧ c.val.toNat < 0x110000 := c.valid
  unfold String.utf8EncodeChar
  dsimp only
  split
  · rename_i h1
    rw [List.singleton_append, decodeFrom_cons]
    simp only [next, first, toNat_byte (show c.val.toNat < 256 by omega)]
    rw [if_pos (by omega), ofNat_val c rfl]
    rfl
  split
  · rename_i h1 h2
    simp only [List.cons_append, List.nil_append]
    rw [decodeFrom_cons]
    simp only [next, first,
      toNat_byte (show c.val.toNat / 64 % 0x20 + 0xc0 < 256 by omega)]
    rw [if_neg (by omega), if_neg (by omega), if_pos (by omega)]
    simp only [List.nil_append]
    rw [decodeFrom_last _ (by omega) (by dsimp only; omega) (by dsimp only; omega) rfl]
    rw [ofNat_val c (by dsimp only; omega)]
  split
  · rename_i h1 h2 h3
    simp only [List.cons_append, List.nil_append]
    rw [decodeFrom_cons]
    simp only [next, first,
      toNat_byte (show c.val.toNat / 4096 % 0x10 + 0xe0 < 256 by omega)]
    rw [if_neg (by omega), if_neg (by omega), if_neg (by omega), if_pos (by omega)]
    simp only [List.nil_append]
    rw [decodeFrom_more _ (by omega) (by dsimp only; split <;> omega)
      (by dsimp only; split <;> omega) (by dsimp only; omega)]
    rw [decodeFrom_last _ (by omega) (by dsimp only; omega) (by dsimp only; omega) rfl]
    rw [ofNat_val c (by dsimp only; omega)]
  · rename_i h1 h2 h3
    simp only [List.cons_append, List.nil_append]
    rw [decodeFrom_cons]
    simp only [next, first,
      toNat_byte (show c.val.toNat / 262144 % 0x08 + 0xf0 < 256 by omega)]
    rw [if_neg (by omega), if_neg (by omega), if_neg (by omega), if_neg (by omega),
      if_pos (by omega)]
    simp only [List.nil_append]
    rw [decodeFrom_more _ (by omega) (by dsimp only; split <;> omega)
      (by dsimp only; split <;> omega) (by dsimp only; omega)]
    rw [decodeFrom_more _ (by omega) (by dsimp only; omega) (by dsimp only; omega) (by dsimp only; omega)]
    rw [decodeFrom_last _ (by omega) (by dsimp only; omega) (by dsimp only; omega) rfl]
    rw [ofNat_val c (by dsimp only; omega)]

/-- **Decoding undoes encoding.** -/
theorem decode_encode (text : List Char) : decode (encode text) = text := by
  unfold decode encode
  induction text with
  | nil => rfl
  | cons c text ih => rw [List.flatMap_cons, decodeFrom_utf8EncodeChar, ih]

theorem decodeStrict_encode (text : List Char) : decodeStrict (encode text) = some text := by
  rw [decodeStrict, decode_encode, if_pos rfl]

end Serverless.Library.Utf8
