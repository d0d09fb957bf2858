import ReticulumPi.Lib.Json

/-!
# Texts as bytes

How Python turns a text into the bytes of UTF-8 (`encode`), and how
`json.loads` turns bytes into a text again: it guesses which of the encodings
of Unicode they are in by the first of them (`detectEncoding`), and decodes them
letting surrogates pass. The bytes of a document in printable ASCII are its
characters, and are read as such (`loadsBytes_ascii`).
-/

namespace PyCodec

open PyJson List

abbrev Byte := Fin 0x100

/-- A byte, of a number below `0x100`. -/
def byte (n : ℕ) : Byte := ⟨n % 0x100, Nat.mod_lt _ (by decide)⟩

/-- `str.encode("utf-8")`, of one character: there is no way to write a surrogate. -/
def encodeChar (c : CodePoint) : Option (List Byte) :=
  let n := c.val
  if n < 0x80 then some [byte n]
  else if n < 0x800 then some [byte (0xc0 + n / 0x40), byte (0x80 + n % 0x40)]
  else if IsHigh n ∨ IsLow n then none
  else if n < 0x10000 then
    some [byte (0xe0 + n / 0x1000), byte (0x80 + n / 0x40 % 0x40), byte (0x80 + n % 0x40)]
  else
    some [byte (0xf0 + n / 0x40000), byte (0x80 + n / 0x1000 % 0x40), byte (0x80 + n / 0x40 % 0x40),
      byte (0x80 + n % 0x40)]

/-- `str.encode("utf-8")` -/
def encode : Text → Option (List Byte)
  | [] => some []
  | c :: s => do
    let b ← encodeChar c
    let t ← encode s
    some (b ++ t)

/-- The bytes after the first of a character. -/
def isTail (b : Byte) : Bool := 0x80 ≤ b.val && b.val ≤ 0xbf

/-- The number that tails add to. -/
def addTail (n : ℕ) (b : Byte) : ℕ := n * 0x40 + (b.val - 0x80)

/-- A character before what is decoded of the rest. -/
def before (n : ℕ) (r : Option Text) : Option Text := r.map (codePoint n :: ·)

/-- `bytes.decode("utf-8", "surrogatepass")` -/
def decode8 : List Byte → Option Text
  | [] => some []
  | a :: s =>
    if a.val < 0x80 then before a.val (decode8 s)
    else if a.val < 0xc2 then none
    else if a.val < 0xe0 then
      match s with
      | b :: s => if isTail b then before (addTail (a.val - 0xc0) b) (decode8 s) else none
      | [] => none
    else if a.val < 0xf0 then
      match s with
      | b :: c :: s =>
        let n := addTail (addTail (a.val - 0xe0) b) c
        if isTail b && isTail c && 0x800 ≤ n then before n (decode8 s) else none
      | _ => none
    else if a.val < 0xf5 then
      match s with
      | b :: c :: d :: s =>
        let n := addTail (addTail (addTail (a.val - 0xf0) b) c) d
        if isTail b && isTail c && isTail d && 0x10000 ≤ n && n < 0x110000 then
          before n (decode8 s)
        else none
      | _ => none
    else none

/-- The order in which the bytes of a number stand. -/
inductive Endian
  | big
  | little
  deriving DecidableEq

/-- The number of two bytes. -/
def Endian.pair : Endian → Byte → Byte → ℕ
  | big, a, b => a.val * 0x100 + b.val
  | little, a, b => b.val * 0x100 + a.val

/-- The numbers of a text in UTF-16. -/
def units (e : Endian) : List Byte → Option Text
  | [] => some []
  | [_] => none
  | a :: b :: s => before (e.pair a b) (units e s)

/-- `bytes.decode("utf-16-be", "surrogatepass")`, and in the other order -/
def decode16 (e : Endian) (b : List Byte) : Option Text := (units e b).map join

/-- The number of four bytes. -/
def Endian.quad : Endian → Byte → Byte → Byte → Byte → ℕ
  | big, a, b, c, d => big.pair a b * 0x10000 + big.pair c d
  | little, a, b, c, d => little.pair c d * 0x10000 + little.pair a b

/-- `bytes.decode("utf-32-be", "surrogatepass")`, and in the other order -/
def decode32 (e : Endian) : List Byte → Option Text
  | [] => some []
  | a :: b :: c :: d :: s =>
    if e.quad a b c d < 0x110000 then before (e.quad a b c d) (decode32 e s) else none
  | _ => none

/-- An encoding of Unicode, and how many bytes of a mark come before the text. -/
inductive Encoding
  | utf8 (mark : ℕ)
  | utf16 (e : Endian) (mark : ℕ)
  | utf32 (e : Endian) (mark : ℕ)
  deriving DecidableEq

/-- `json.detect_encoding` -/
def detectEncoding (b : List Byte) : Encoding :=
  if [0x00, 0x00, 0xfe, 0xff].isPrefixOf b then .utf32 .big 4
  else if [0xff, 0xfe, 0x00, 0x00].isPrefixOf b then .utf32 .little 4
  else if [0xfe, 0xff].isPrefixOf b then .utf16 .big 2
  else if [0xff, 0xfe].isPrefixOf b then .utf16 .little 2
  else if [0xef, 0xbb, 0xbf].isPrefixOf b then .utf8 3
  else
    match b with
    | a :: b :: c :: d :: _ =>
      if a = 0 then if b = 0 then .utf32 .big 0 else .utf16 .big 0
      else if b = 0 then if c = 0 ∧ d = 0 then .utf32 .little 0 else .utf16 .little 0
      else .utf8 0
    | [a, b] => if a = 0 then .utf16 .big 0 else if b = 0 then .utf16 .little 0 else .utf8 0
    | _ => .utf8 0

def Encoding.decode : Encoding → List Byte → Option Text
  | utf8 mark, b => decode8 (b.drop mark)
  | utf16 e mark, b => decode16 e (b.drop mark)
  | utf32 e mark, b => decode32 e (b.drop mark)

/-- `json.loads`, of bytes -/
def loadsBytes (b : List Byte) : Option Value := ((detectEncoding b).decode b).bind loads

/-! ## Printable ASCII -/

/-- The bytes of a text in ASCII. -/
def ascii (s : Text) : List Byte := s.map fun c => byte c.val

theorem length_ascii (s : Text) : (ascii s).length = s.length := length_map _

theorem byte_val {n : ℕ} (h : n < 0x100) : (byte n).val = n := Nat.mod_eq_of_lt h

/-- A printable text is encoded as its characters. -/
theorem encode_printable {s : Text} (hs : Printable s) : encode s = some (ascii s) := by
  induction s with
  | nil => rfl
  | cons c s ih =>
    have hc : c.val < 0x80 := lt_of_le_of_lt (hs c mem_cons_self).2 (by decide)
    rw [encode, encodeChar, if_pos hc, ih fun d hd => hs d (mem_cons_of_mem _ hd)]
    rfl

/-- ... and decoded as them. -/
theorem decode8_ascii {s : Text} (hs : Printable s) : decode8 (ascii s) = some s := by
  induction s with
  | nil => rfl
  | cons c s ih =>
    have hc : c.val < 0x80 := lt_of_le_of_lt (hs c mem_cons_self).2 (by decide)
    have hb : (byte c.val).val = c.val := byte_val (by omega)
    have ih := ih fun d hd => hs d (mem_cons_of_mem _ hd)
    rw [ascii] at ih
    rw [ascii, map_cons, decode8.eq_def]
    dsimp only
    rw [if_pos (by omega), ih, hb, before, codePoint_val]
    rfl

/-- No byte of a printable text is that of a mark, or null. -/
theorem ascii_between {s : Text} (hs : Printable s) : ∀ b ∈ ascii s, b ≠ 0 ∧ b.val < 0x80 := by
  intro b hb
  obtain ⟨c, hc, rfl⟩ := List.mem_map.1 hb
  have hval : (byte c.val).val = c.val := byte_val (by have := hs c hc; omega)
  have hc := hs c hc
  refine ⟨fun h => ?_, by omega⟩
  have hzero : (byte c.val).val = 0 := congrArg Fin.val h
  omega

theorem detectEncoding_ascii {s : Text} (hs : Printable s) : detectEncoding (ascii s) = .utf8 0 := by
  have hbytes := ascii_between hs
  generalize ascii s = b at hbytes
  have hmark : ∀ (m : Byte) (t : List Byte), (m = 0 ∨ 0x80 ≤ m.val) →
      ¬(m :: t).isPrefixOf b = true := by
    intro m t hm hp
    have hmem : m ∈ b := (List.isPrefixOf_iff_prefix.1 hp).subset mem_cons_self
    obtain ⟨hne, hlt⟩ := hbytes m hmem
    exact hm.elim hne fun h => by omega
  rw [detectEncoding.eq_def, if_neg (hmark _ _ (.inl rfl)), if_neg (hmark _ _ (.inr (by decide))),
    if_neg (hmark _ _ (.inr (by decide))), if_neg (hmark _ _ (.inr (by decide))),
    if_neg (hmark _ _ (.inr (by decide)))]
  -- The first bytes are not null either.
  match b, hbytes with
  | [], _ => rfl
  | [_], _ => rfl
  | [a, b], h => exact (if_neg (h a (by simp)).1).trans (if_neg (h b (by simp)).1)
  | [_, _, _], _ => rfl
  | a :: b :: c :: d :: t, h => exact (if_neg (h a (by simp)).1).trans (if_neg (h b (by simp)).1)

/-- A printable document is read as its characters. -/
theorem loadsBytes_ascii {s : Text} (hs : Printable s) : loadsBytes (ascii s) = loads s := by
  rw [loadsBytes, detectEncoding_ascii hs, Encoding.decode, drop_zero, decode8_ascii hs]
  rfl

end PyCodec
