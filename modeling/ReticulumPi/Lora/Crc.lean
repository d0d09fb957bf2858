import Mathlib.Logic.Function.Iterate
import ReticulumPi.Lib.ShiftRegister

/-!
# The LoRa checksum

The checksum of a LoRa payload, CRC-16/CCITT with the register full at the start
(`lora_decode.py`). Byte by byte it computes what a shift register does that is
fed with the bits of the message, the most significant of a byte first; so it
tells every burst of at most 16 bits.
-/

namespace ReticulumPi.Lora

open ShiftRegister List

/-- The polynomial, without its term of degree 16. -/
abbrev crcPoly : BitVec 16 := 0x1021

variable (crc : BitVec 16)

/-- The loop's body in `crc16_ccitt`; the mask is the register's width. -/
def crcShift : BitVec 16 :=
  if crc &&& 0x8000 ≠ 0 then (crc <<< 1) ^^^ crcPoly else crc <<< 1

def crcByte (byte : BitVec 8) : BitVec 16 :=
  crcShift^[8] (crc ^^^ (byte.setWidth 16 <<< 8))

/-- `crc16_ccitt`. -/
def crc16Ccitt (data : List (BitVec 8)) : BitVec 16 := data.foldl crcByte 0xFFFF

/-- The bits of a byte in the order they are sent. -/
def byteBits (byte : BitVec 8) : List Bool := (List.range 8).map byte.getMsbD

/-- The bits of a message. -/
def bits (data : List (BitVec 8)) : List Bool := data.flatMap byteBits

/-! ## The register behind it -/

theorem crcShift_eq : crcShift crc = shift crcPoly crc := by
  have hbit : (crc &&& 0x8000 ≠ 0) ↔ crc.msb = true := by
    rw [show (0x8000 : BitVec 16) = .twoPow 16 15 from rfl, BitVec.and_twoPow,
      BitVec.msb_eq_getLsbD_last]
    cases crc.getLsbD 15 <;> decide
  rw [crcShift, shift, mark]
  by_cases h : crc.msb = true
  · rw [if_pos (hbit.2 h), if_pos h]
  · rw [if_neg (mt hbit.1 h), if_neg h, BitVec.xor_zero]

/-- A byte is put in at once as its bits are one by one. -/
theorem shift_byte : ∀ byte : BitVec 8,
    (shift crcPoly)^[8] (byte.setWidth 16 <<< 8) = feed crcPoly 0#16 (byteBits byte) := by
  decide +kernel

theorem crcByte_eq (byte : BitVec 8) : crcByte crc byte = feed crcPoly crc (byteBits byte) := by
  have hshift : crcShift = shift crcPoly := funext crcShift_eq
  have hzeros : (shift crcPoly)^[8] crc = feed crcPoly crc (List.replicate 8 false) := by
    simp [feed, put_false]
  have hxor : ∀ n a b, (shift crcPoly)^[n] (a ^^^ b) =
      (shift crcPoly)^[n] a ^^^ (shift crcPoly)^[n] b := by
    intro n
    induction n with
    | zero => exact fun _ _ => rfl
    | succ n ih => exact fun a b => by simp only [Function.iterate_succ_apply, shift_xor, ih]
  calc crcByte crc byte
      = feed crcPoly crc (List.replicate 8 false) ^^^ feed crcPoly 0#16 (byteBits byte) := by
        rw [crcByte, hshift, hxor, hzeros, shift_byte]
    _ = feed crcPoly (crc ^^^ 0#16) (List.zipWith xor (List.replicate 8 false) (byteBits byte)) :=
        (feed_xor (by simp [byteBits])).symm
    _ = feed crcPoly crc (byteBits byte) := by
        rw [BitVec.xor_zero]
        simp [byteBits, range_succ]

theorem crc16Ccitt_eq (data : List (BitVec 8)) :
    crc16Ccitt data = feed crcPoly 0xFFFF (bits data) := by
  rw [crc16Ccitt]
  generalize (0xFFFF : BitVec 16) = crc
  induction data generalizing crc with
  | nil => rfl
  | cons byte data ih =>
    rw [foldl_cons, ih, crcByte_eq, bits, bits, flatMap_cons, feed_append]

/-! ## Bursts -/

theorem bits_zipWith {data error : List (BitVec 8)} (hlen : error.length = data.length) :
    bits (List.zipWith (· ^^^ ·) data error) = List.zipWith xor (bits data) (bits error) := by
  induction data generalizing error with
  | nil => rfl
  | cons byte data ih =>
    obtain ⟨e, error, rfl⟩ := exists_cons_of_length_eq_add_one hlen
    have hbyte : byteBits (byte ^^^ e) = List.zipWith xor (byteBits byte) (byteBits e) := by
      simp [byteBits, zipWith_map]
    rw [zipWith_cons_cons, bits, flatMap_cons, hbyte, bits, bits, flatMap_cons,
      flatMap_cons, zipWith_append (by rfl)]
    exact congrArg _ (ih (Nat.succ.inj hlen))

/-- A message with an error in it has another checksum, if the error is within
    16 bits that follow each other. -/
theorem crc16Ccitt_ne_of_burst {data error : List (BitVec 8)} (hlen : error.length = data.length)
    {burst : List Bool} {m n : ℕ}
    (herror : bits error = List.replicate m false ++ burst ++ List.replicate n false)
    (hburst : burst.length ≤ 16) (hne : true ∈ burst) :
    crc16Ccitt (List.zipWith (· ^^^ ·) data error) ≠ crc16Ccitt data := by
  have hbits : ∀ data : List (BitVec 8), (bits data).length = 8 * data.length := fun data => by
    simp [bits, byteBits, map_const', sum_replicate_nat, Nat.mul_comm]
  have hxor : crc16Ccitt (List.zipWith (· ^^^ ·) data error) =
      crc16Ccitt data ^^^ feed crcPoly 0#16 (bits error) := by
    rw [crc16Ccitt_eq, crc16Ccitt_eq, bits_zipWith hlen,
      ← feed_xor (by rw [hbits, hbits, hlen])]
    rfl
  rw [hxor, herror]
  intro heq
  have hpoly : crcPoly.getLsbD 0 = true := by decide
  refine feed_burst_ne_zero hpoly hburst hne m n ?_
  have := congrArg (crc16Ccitt data ^^^ ·) heq
  simpa [← BitVec.xor_assoc] using this

/-- A burst of three bits over two bytes. -/
theorem crc16Ccitt_ne_of_burst_two :
    crc16Ccitt [0x41, 0x42] ≠ crc16Ccitt [0x40, 0x82] :=
  @crc16Ccitt_ne_of_burst [0x40, 0x82] [0x01, 0xC0] rfl [true, true, true] 7 6
    (by decide) (by decide) (by decide)

end ReticulumPi.Lora
