import ReticulumPi.Lib.Bits

/-!
# The LoRa codec

The forward error correction of LoRa's physical layer (`lora_decode.py`): data
nibbles are encoded in Hamming codewords of `4 + cr` bits, and a block of
codewords is interleaved into symbols along the diagonals, so that a symbol has
one bit of each codeword. Numbers are numbers of bits here as in the source,
the bit `0` being the least significant.
-/

namespace ReticulumPi.Lora

/-! ## Hamming codes -/

/-- The bit `i` of `n`, as a number. -/
def bit (n i : ℕ) : ℕ := (n >>> i) &&& 1

/-- The `ValueError` for a coding rate. -/
def badRate {α : Type} (cr : ℕ) : Except String α :=
  .error ("cr must be 1–4, got " ++ toString cr)

/-- `hamming_encode`: encode a nibble in a codeword of `4 + cr` bits. -/
def hammingEncode (nibble cr : ℕ) : Except String ℕ :=
  let d0 := bit nibble 0
  let d1 := bit nibble 1
  let d2 := bit nibble 2
  let d3 := bit nibble 3
  match cr with
  | 1 => .ok ((nibble <<< 1) ||| (d0 ^^^ d1 ^^^ d2 ^^^ d3))
  | 2 => .ok ((nibble <<< 2) ||| ((d1 ^^^ d2 ^^^ d3) <<< 1) ||| (d0 ^^^ d1 ^^^ d2))
  | 3 =>
    let p0 := d0 ^^^ d1 ^^^ d3
    let p1 := d0 ^^^ d2 ^^^ d3
    let p2 := d1 ^^^ d2 ^^^ d3
    .ok ((nibble <<< 3) ||| (p2 <<< 2) ||| (p1 <<< 1) ||| p0)
  | 4 =>
    let p0 := d0 ^^^ d1 ^^^ d3
    let p1 := d0 ^^^ d2 ^^^ d3
    let p2 := d1 ^^^ d2 ^^^ d3
    let p3 := d0 ^^^ d1 ^^^ d2 ^^^ d3 ^^^ p0 ^^^ p1 ^^^ p2
    .ok ((nibble <<< 4) ||| (p3 <<< 3) ||| (p2 <<< 2) ||| (p1 <<< 1) ||| p0)
  | cr => badRate cr

/-- `_HAMMING74_POS`: the bit of the codeword that a syndrome tells. -/
def hamming74Pos : ℕ → Option ℕ
  | 1 => some 0
  | 2 => some 1
  | 3 => some 3
  | 4 => some 2
  | 5 => some 4
  | 6 => some 5
  | 7 => some 6
  | _ => none

/-- `_HAMMING84_POS`. -/
def hamming84Pos : ℕ → Option ℕ
  | 1 => some 0
  | 2 => some 1
  | 3 => some 4
  | 4 => some 2
  | 5 => some 5
  | 6 => some 6
  | 7 => some 7
  | _ => none

/-- The syndrome of a codeword of rate 3 or 4, from its data and parity bits. -/
def syndrome (d0 d1 d2 d3 p0 p1 p2 : ℕ) : ℕ :=
  ((d1 ^^^ d2 ^^^ d3 ^^^ p2) <<< 2) ||| ((d0 ^^^ d2 ^^^ d3 ^^^ p1) <<< 1) |||
    (d0 ^^^ d1 ^^^ d3 ^^^ p0)

/-- `hamming_decode`: the nibble of a codeword, and the number of errors
    corrected, `-1` if there are some that cannot be. -/
def hammingDecode (codeword cr : ℕ) : Except String (ℕ × ℤ) :=
  let nibble := (codeword >>> cr) &&& 0xF
  let d0 := bit nibble 0
  let d1 := bit nibble 1
  let d2 := bit nibble 2
  let d3 := bit nibble 3
  let p0 := bit codeword 0
  let p1 := bit codeword 1
  let p2 := bit codeword 2
  match cr with
  | 1 => if p0 ≠ d0 ^^^ d1 ^^^ d2 ^^^ d3 then .ok (nibble, -1) else .ok (nibble, 0)
  | 2 =>
    if d0 ^^^ d1 ^^^ d2 ^^^ p0 ≠ 0 ∨ d1 ^^^ d2 ^^^ d3 ^^^ p1 ≠ 0 then .ok (nibble, -1)
    else .ok (nibble, 0)
  | 3 =>
    let syndrome := syndrome d0 d1 d2 d3 p0 p1 p2
    if syndrome = 0 then .ok (nibble, 0)
    else match hamming74Pos syndrome with
      | some pos => .ok (((codeword ^^^ (1 <<< pos)) >>> 3) &&& 0xF, 1)
      | none => .ok (nibble, -1)
  | 4 =>
    let syndrome := syndrome d0 d1 d2 d3 p0 p1 p2
    let overall := d0 ^^^ d1 ^^^ d2 ^^^ d3 ^^^ p0 ^^^ p1 ^^^ p2 ^^^ bit codeword 3
    if syndrome = 0 ∧ overall = 0 then .ok (nibble, 0)
    else if syndrome = 0 ∧ overall = 1 then .ok (nibble, 1)
    else if syndrome ≠ 0 ∧ overall = 1 then
      match hamming84Pos syndrome with
      | some pos => .ok (((codeword ^^^ (1 <<< pos)) >>> 4) &&& 0xF, 1)
      | none => .ok (nibble, -1)
    else .ok (nibble, -1)
  | cr => badRate cr

/-! ## The interleaver -/

/-- `_rotate_left`. -/
abbrev rotateLeft := Bits.rotateLeft

/-- `_rotate_right`. -/
abbrev rotateRight := Bits.rotateRight

/-- The usable bits of a symbol, for the spreading factor `sf`. -/
def rdd (sf : ℤ) (reduced : Bool) : ℤ := if reduced then sf - 2 else sf

/-- `interleave`: each codeword is rotated by its place, and the columns are the
    symbols, the first codeword giving the most significant bit. -/
def interleave (codewords : List ℕ) (sf : ℤ) (cr : ℕ) (reduced : Bool) :
    Except String (List ℕ) :=
  let rdd := rdd sf reduced
  let ppm := 4 + cr
  if (codewords.length : ℤ) ≠ rdd then
    .error ("expected " ++ toString rdd ++ " codewords, got " ++ toString codewords.length)
  else
    let rotated := codewords.mapIdx fun i codeword => rotateLeft codeword i ppm
    .ok ((List.range ppm).map fun col =>
      rotated.foldl (fun sym row => (sym <<< 1) ||| ((row >>> (ppm - 1 - col)) &&& 1)) 0)

/-- `deinterleave`: the symbols are written into the columns, and each row is
    rotated back. -/
def deinterleave (symbols : List ℕ) (sf : ℤ) (cr : ℕ) (reduced : Bool) :
    Except String (List ℕ) :=
  let rdd := (rdd sf reduced).toNat
  let ppm := 4 + cr
  if symbols.length ≠ ppm then
    .error ("expected " ++ toString ppm ++ " symbols, got " ++ toString symbols.length)
  else
    let rows := (List.range ppm).foldl
      (fun rows col => rows.mapIdx fun row r =>
        r ||| (((symbols.getD col 0 >>> (rdd - 1 - row)) &&& 1) <<< (ppm - 1 - col)))
      (List.replicate rdd 0)
    .ok (rows.mapIdx fun i row => rotateRight row i ppm)

end ReticulumPi.Lora
