import Mathlib.Data.List.Basic
import Mathlib.Data.List.TakeWhile
import Mathlib.Data.Fin.Basic

/-!
# JSON, as Python writes and reads it

A text is the list of its code points, among which Python also allows the
surrogates. `dumps` writes a value, every character outside printable ASCII as
one `\uXXXX` escape or, beyond the first 65536, as two; `loads` reads a
document, and joins two such escapes again. So a value is read back as it was
(`loads_dumps`) except that a high surrogate directly before a low one becomes
a single character (`Value.joined`). `escapedLength` says how long a text
becomes.
-/

namespace PyJson

open List

/-- A character of a Python `str`, which may be a surrogate. -/
abbrev CodePoint := Fin 0x110000

/-- A Python `str`. -/
abbrev Text := List CodePoint

/-- The text of a literal. -/
def text (s : String) : Text := s.toList.map fun c => ⟨c.toNat % 0x110000, Nat.mod_lt _ (by decide)⟩

/-! ## Strings -/

/-- A lower-case hexadecimal digit. -/
def hexDigit (n : ℕ) : CodePoint :=
  if n < 10 then ⟨(0x30 + n) % 0x110000, Nat.mod_lt _ (by decide)⟩
  else ⟨(0x57 + n) % 0x110000, Nat.mod_lt _ (by decide)⟩

/-- `'\\u{:04x}'.format(n)` -/
def unicodeEscape (n : ℕ) : Text :=
  [0x5c, 0x75, hexDigit (n / 0x1000 % 0x10), hexDigit (n / 0x100 % 0x10),
    hexDigit (n / 0x10 % 0x10), hexDigit (n % 0x10)]

/-- The high surrogate that stands for a character beyond the first 65536. -/
def highSurrogate (n : ℕ) : ℕ := 0xd800 + (n - 0x10000) / 0x400

/-- The low surrogate. -/
def lowSurrogate (n : ℕ) : ℕ := 0xdc00 + (n - 0x10000) % 0x400

variable (c : CodePoint)

/-- How a character is written in a string. -/
def escape : Text :=
  if c = 0x22 then [0x5c, 0x22]
  else if c = 0x5c then [0x5c, 0x5c]
  else if 0x20 ≤ c ∧ c ≤ 0x7e then [c]
  else if c = 0x0a then [0x5c, 0x6e]
  else if c = 0x0d then [0x5c, 0x72]
  else if c = 0x09 then [0x5c, 0x74]
  else if c = 0x0c then [0x5c, 0x66]
  else if c = 0x08 then [0x5c, 0x62]
  else if c.val < 0x10000 then unicodeEscape c.val
  else unicodeEscape (highSurrogate c.val) ++ unicodeEscape (lowSurrogate c.val)

variable (s : Text)

/-- A string with its quotes. -/
def quote : Text := 0x22 :: s.flatMap escape ++ [0x22]

/-- A hexadecimal digit, of either case. -/
def hexValue : Option ℕ :=
  if 0x30 ≤ c.val ∧ c.val ≤ 0x39 then some (c.val - 0x30)
  else if 0x61 ≤ c.val ∧ c.val ≤ 0x66 then some (c.val - 0x57)
  else if 0x41 ≤ c.val ∧ c.val ≤ 0x46 then some (c.val - 0x37)
  else none

/-- The number that four digits denote. -/
def hexValues (a b c d : CodePoint) : Option ℕ := do
  let a ← hexValue a
  let b ← hexValue b
  let c ← hexValue c
  let d ← hexValue d
  some (((a * 0x10 + b) * 0x10 + c) * 0x10 + d)

def IsHigh (n : ℕ) : Prop := 0xd800 ≤ n ∧ n ≤ 0xdbff
deriving Decidable

def IsLow (n : ℕ) : Prop := 0xdc00 ≤ n ∧ n ≤ 0xdfff
deriving Decidable

/-- The character that two surrogates stand for. -/
def combine (high low : ℕ) : CodePoint :=
  ⟨(0x10000 + (high - 0xd800) * 0x400 + (low - 0xdc00)) % 0x110000, Nat.mod_lt _ (by decide)⟩

/-- A code point, of a number below `0x110000`. -/
def codePoint (n : ℕ) : CodePoint := ⟨n % 0x110000, Nat.mod_lt _ (by decide)⟩

/-- What the letter after a backslash stands for, apart from `u`. -/
def unescape : Option CodePoint :=
  if c = 0x22 then some 0x22
  else if c = 0x5c then some 0x5c
  else if c = 0x2f then some 0x2f
  else if c = 0x62 then some 0x08
  else if c = 0x66 then some 0x0c
  else if c = 0x6e then some 0x0a
  else if c = 0x72 then some 0x0d
  else if c = 0x74 then some 0x09
  else none

/-- `c` comes before what is read of the rest. -/
def push (r : Option (Text × Text)) : Option (Text × Text) :=
  r.map fun p => (c :: p.1, p.2)

/-- Reads a string after its opening quote, and what follows the closing one. -/
def scanString : Text → Option (Text × Text)
  | [] => none
  | c :: rest =>
    if c = 0x22 then some ([], rest)
    else if c = 0x5c then
      match rest with
      | [] => none
      | e :: rest =>
        if e = 0x75 then
          match rest with
          | a :: b :: c :: d :: rest =>
            match hexValues a b c d with
            | none => none
            | some u =>
              match rest with
              | x :: y :: a :: b :: c :: d :: rest' =>
                if IsHigh u ∧ x = 0x5c ∧ y = 0x75 then
                  match hexValues a b c d with
                  | none => none
                  | some u' =>
                    if IsLow u' then push (combine u u') (scanString rest')
                    else push (codePoint u) (scanString (x :: y :: a :: b :: c :: d :: rest'))
                else push (codePoint u) (scanString (x :: y :: a :: b :: c :: d :: rest'))
              | rest => push (codePoint u) (scanString rest)
          | _ => none
        else
          match unescape e with
          | none => none
          | some u => push u (scanString rest)
    else if c < 0x20 then none
    else push c (scanString rest)

/-! ## Values -/

/-- The characters of a number. -/
def isNumberChar : Bool :=
  (0x30 ≤ c.val ∧ c.val ≤ 0x39) || c = 0x2d || c = 0x2b || c = 0x2e || c = 0x45 || c = 0x65

def isDigit : Bool := 0x30 ≤ c.val ∧ c.val ≤ 0x39

/-- One or more digits. -/
def isDigits : Bool := s.all isDigit && !s.isEmpty

/-- `0`, or digits that do not begin with it. -/
def isNatural : Bool := isDigits s && (s.head? ≠ some 0x30 || s.length = 1)

/-- The exponent of a number, if there is any. -/
def isExponent : Text → Bool
  | [] => true
  | e :: s => (e = 0x45 || e = 0x65) && isDigits (if s.head? = some 0x2b ∨ s.head? = some 0x2d then
      s.tail else s)

/-- What follows the integral part of a number. -/
def isFraction : Text → Bool
  | [] => true
  | c :: s =>
    if c = 0x2e then isDigits (s.takeWhile isDigit) && isExponent (s.dropWhile isDigit)
    else isExponent (c :: s)

/-- The text of a number. -/
def isNumber : Bool :=
  let s := if s.head? = some 0x2d then s.tail else s
  isNatural (s.takeWhile isDigit) && isFraction (s.dropWhile isDigit)

/-- A number, as it is written. -/
structure Number where
  text : Text
  valid : isNumber text = true
  deriving DecidableEq

/-- The numbers that Python writes as words. -/
inductive Constant
  | nan
  | infinity
  | negInfinity
  deriving DecidableEq

def Constant.word : Constant → String
  | nan => "NaN"
  | infinity => "Infinity"
  | negInfinity => "-Infinity"

/-- What a document denotes. The members of an object are listed as they stand
    in the text; of two with the same key Python keeps the later one. -/
inductive Value where
  | null
  | bool (b : Bool)
  | number (n : Number)
  | constant (c : Constant)
  | string (s : Text)
  | array (l : List Value)
  | object (l : List (Text × Value))

/-- White space between tokens. -/
def isWhite : Bool := c = 0x20 || c = 0x09 || c = 0x0a || c = 0x0d

/-- The white space that `json.dumps` writes after a comma and after a colon. -/
structure Separators where
  item : Text
  key : Text
  item_white : item.all isWhite = true
  key_white : key.all isWhite = true

/-- `separators=(", ", ": ")` -/
def spaced : Separators := ⟨[0x20], [0x20], rfl, rfl⟩

/-- `separators=(",", ":")` -/
def compact : Separators := ⟨[], [], rfl, rfl⟩

mutual

/-- `json.dumps` -/
def Value.dumps (sep : Separators) : Value → Text
  | .null => text "null"
  | .bool true => text "true"
  | .bool false => text "false"
  | .number n => n.text
  | .constant c => text c.word
  | .string s => quote s
  | .array [] => [0x5b, 0x5d]
  | .array (v :: l) => 0x5b :: v.dumps sep ++ dumpsItems sep l
  | .object [] => [0x7b, 0x7d]
  | .object ((k, v) :: l) => 0x7b :: quote k ++ 0x3a :: sep.key ++ v.dumps sep ++ dumpsMembers sep l

/-- The further items of an array, and its end. -/
def dumpsItems (sep : Separators) : List Value → Text
  | [] => [0x5d]
  | v :: l => 0x2c :: sep.item ++ v.dumps sep ++ dumpsItems sep l

/-- The further members of an object, and its end. -/
def dumpsMembers (sep : Separators) : List (Text × Value) → Text
  | [] => [0x7d]
  | (k, v) :: l =>
    0x2c :: sep.item ++ quote k ++ 0x3a :: sep.key ++ v.dumps sep ++ dumpsMembers sep l

end

def skipWhite : Text := s.dropWhile isWhite

/-- The value of a keyword at the beginning of the text. -/
def scanWord (word : String) (v : Value) (s : Text) : Option (Value × Text) :=
  if (text word).isPrefixOf s then some (v, s.drop (text word).length) else none

/-- A number at the beginning of the text. -/
def scanNumber : Option (Value × Text) :=
  if h : isNumber (s.takeWhile isNumberChar) = true then
    some (.number ⟨s.takeWhile isNumberChar, h⟩, s.dropWhile isNumberChar)
  else none

/-- The key of a member and its colon; what follows is its value. -/
def scanKey : Text → Option (Text × Text)
  | [] => none
  | c :: s =>
    if c = 0x22 then
      match scanString s with
      | none => none
      | some (k, s) =>
        match skipWhite s with
        | [] => none
        | c :: s => if c = 0x3a then some (k, skipWhite s) else none
    else none

mutual

/-- Reads a value, and what follows it; the number bounds the depth of the recursion. -/
def scanValue : ℕ → Text → Option (Value × Text)
  | 0, _ => none
  | _ + 1, [] => none
  | n + 1, c :: s =>
    if c = 0x22 then (scanString s).map fun p => (.string p.1, p.2)
    else if c = 0x7b then
      match skipWhite s with
      | [] => none
      | c :: s =>
        if c = 0x7d then some (.object [], s)
        else (scanMembers n (c :: s)).map fun p => (.object p.1, p.2)
    else if c = 0x5b then
      match skipWhite s with
      | [] => none
      | c :: s =>
        if c = 0x5d then some (.array [], s)
        else (scanItems n (c :: s)).map fun p => (.array p.1, p.2)
    else if c = 0x6e then scanWord "null" .null (c :: s)
    else if c = 0x74 then scanWord "true" (.bool true) (c :: s)
    else if c = 0x66 then scanWord "false" (.bool false) (c :: s)
    else if c = 0x4e then scanWord "NaN" (.constant .nan) (c :: s)
    else if c = 0x49 then scanWord "Infinity" (.constant .infinity) (c :: s)
    else (scanWord "-Infinity" (.constant .negInfinity) (c :: s)).or (scanNumber (c :: s))

/-- Reads the items of an array and its end. -/
def scanItems : ℕ → Text → Option (List Value × Text)
  | 0, _ => none
  | n + 1, s =>
    match scanValue n s with
    | none => none
    | some (v, s) =>
      match skipWhite s with
      | [] => none
      | c :: s =>
        if c = 0x5d then some ([v], s)
        else if c = 0x2c then (scanItems n (skipWhite s)).map fun p => (v :: p.1, p.2)
        else none

/-- Reads the members of an object and its end. -/
def scanMembers : ℕ → Text → Option (List (Text × Value) × Text)
  | 0, _ => none
  | n + 1, s =>
    match scanKey s with
    | none => none
    | some (k, s) =>
      match scanValue n s with
      | none => none
      | some (v, s) =>
        match skipWhite s with
        | [] => none
        | c :: s =>
          if c = 0x7d then some ([(k, v)], s)
          else if c = 0x2c then (scanMembers n (skipWhite s)).map fun p => ((k, v) :: p.1, p.2)
          else none

end

/-- `json.loads` -/
def loads : Option Value :=
  match scanValue (s.length + 1) (skipWhite s) with
  | none => none
  | some (v, s) => if skipWhite s = [] then some v else none

/-- `dict.get(key)` -/
def get? (l : List (Text × Value)) (key : Text) : Option Value := l.reverse.lookup key

/-- `bool(value)`, where `isZero` says which of the numbers Python takes as zero. -/
def Value.truthy (isZero : Number → Bool) : Value → Bool
  | .null => false
  | .bool b => b
  | .number n => !isZero n
  | .constant _ => true
  | .string s => !s.isEmpty
  | .array l => !l.isEmpty
  | .object l => !l.isEmpty

attribute [local simp] scanString

/-! ## Reading a string back -/

/-- A string as it is read back: two surrogates that make up a character are one. -/
def join : Text → Text
  | [] => []
  | [c] => [c]
  | c :: d :: s =>
    if IsHigh c.val ∧ IsLow d.val then combine c.val d.val :: join s else c :: join (d :: s)

/-- No high surrogate comes directly before a low one. -/
def Unpaired : Prop := s.IsChain fun c d => ¬(IsHigh c.val ∧ IsLow d.val)
deriving Decidable

theorem length_join_le : (join s).length ≤ s.length := by
  induction s using join.induct with
  | case1 => rfl
  | case2 c => rfl
  | case3 c d s h ih =>
    rw [join, if_pos h]
    simp only [length_cons]
    omega
  | case4 c d s h ih =>
    rw [join, if_neg h]
    simp only [length_cons] at ih ⊢
    omega

variable {s : Text}

/-- Exactly the strings without such a pair are read back as they are. -/
theorem join_eq_self_iff : join s = s ↔ Unpaired s := by
  induction s using join.induct with
  | case1 | case2 c => simp [join, Unpaired]
  | case3 c d s h ih =>
    rw [join, if_pos h, Unpaired, isChain_cons_cons]
    constructor
    · intro heq
      -- The string has become shorter.
      have hlen := congrArg List.length heq
      have hle := length_join_le s
      simp only [length_cons] at hlen
      omega
    · exact fun hs => absurd h hs.1
  | case4 c d s h ih =>
    rw [join, if_neg h, Unpaired, isChain_cons_cons, List.cons.injEq]
    exact ⟨fun heq => ⟨h, ih.1 heq.2⟩, fun hs => ⟨rfl, ih.2 hs.2⟩⟩

theorem hexValue_hexDigit : ∀ n < 0x10, hexValue (hexDigit n) = some n := by decide

/-- Four digits denote the number they were written for. -/
theorem hexValues_hexDigit {n : ℕ} (h : n < 0x10000) :
    hexValues (hexDigit (n / 0x1000 % 0x10)) (hexDigit (n / 0x100 % 0x10))
      (hexDigit (n / 0x10 % 0x10)) (hexDigit (n % 0x10)) = some n := by
  have hdigit : ∀ m, hexValue (hexDigit (m % 0x10)) = some (m % 0x10) := fun m =>
    hexValue_hexDigit _ (Nat.mod_lt _ (by decide))
  simp only [hexValues, hdigit, Option.bind_eq_bind, Option.bind_some]
  rw [Option.some.injEq]
  omega

theorem codePoint_val : codePoint c.val = c :=
  Fin.ext (Nat.mod_eq_of_lt c.isLt)

variable {c : CodePoint}

/-- The pair that a character beyond the first 65536 is written as denotes it. -/
theorem combine_surrogates (h : 0x10000 ≤ c.val) :
    combine (highSurrogate c.val) (lowSurrogate c.val) = c := by
  refine Fin.ext ?_
  have := c.isLt
  simp only [combine, highSurrogate, lowSurrogate]
  omega

theorem scanString_unicodeEscape {n : ℕ} (hn : n < 0x10000) (hhigh : ¬IsHigh n) (t : Text) :
    scanString (unicodeEscape n ++ t) = push (codePoint n) (scanString t) := by
  rw [unicodeEscape]
  simp only [cons_append, nil_append]
  rw [scanString, if_neg (by decide), if_pos rfl, if_pos rfl]
  simp only [hexValues_hexDigit hn]
  split
  · rw [if_neg fun h => hhigh h.1]
  · rfl

/-- Two escapes that make up a character. -/
theorem scanString_pair {n m : ℕ} (hn : IsHigh n) (hm : IsLow m) (t : Text) :
    scanString (unicodeEscape n ++ (unicodeEscape m ++ t)) = push (combine n m) (scanString t) := by
  have hn' : n < 0x10000 := by have := hn.2; omega
  have hm' : m < 0x10000 := by have := hm.2; omega
  rw [unicodeEscape, unicodeEscape]
  simp only [cons_append, nil_append]
  rw [scanString, if_neg (by decide), if_pos rfl, if_pos rfl]
  simp only [hexValues_hexDigit hn']
  rw [if_pos ⟨hn, trivial, trivial⟩]
  simp only [hexValues_hexDigit hm']
  rw [if_pos hm]

/-- A high surrogate whose escape no other escape follows. -/
theorem scanString_high {n : ℕ} (hn : n < 0x10000) {t : Text}
    (ht : ∀ t', t ≠ 0x5c :: 0x75 :: t') :
    scanString (unicodeEscape n ++ t) = push (codePoint n) (scanString t) := by
  rw [unicodeEscape]
  simp only [cons_append, nil_append]
  rw [scanString, if_neg (by decide), if_pos rfl, if_pos rfl]
  simp only [hexValues_hexDigit hn]
  split
  · rw [if_neg]
    rintro ⟨-, rfl, rfl⟩
    exact ht _ rfl
  · rfl

/-- A high surrogate whose escape that of no low one follows. -/
theorem scanString_high_unicodeEscape {n m : ℕ} (hn : n < 0x10000) (hm : m < 0x10000)
    (hlow : ¬IsLow m) (t : Text) :
    scanString (unicodeEscape n ++ (unicodeEscape m ++ t)) =
      push (codePoint n) (scanString (unicodeEscape m ++ t)) := by
  rw [unicodeEscape, unicodeEscape]
  simp only [cons_append, nil_append]
  rw [scanString, if_neg (by decide), if_pos rfl, if_pos rfl]
  simp only [hexValues_hexDigit hn]
  by_cases hhigh : IsHigh n
  · rw [if_pos ⟨hhigh, trivial, trivial⟩]
    simp only [hexValues_hexDigit hm]
    rw [if_neg hlow]
  · rw [if_neg fun h => hhigh h.1]

theorem scanString_backslash {e u : CodePoint} (he : e ≠ 0x75) (hu : unescape e = some u)
    (t : Text) : scanString (0x5c :: e :: t) = push u (scanString t) := by
  rw [scanString.eq_def]
  dsimp only
  rw [if_neg (by decide), if_pos rfl, if_neg he, hu]

/-- What a character that is no high surrogate is written as is read as that character. -/
theorem scanString_escape (hhigh : ¬IsHigh c.val) (t : Text) :
    scanString (escape c ++ t) = push c (scanString t) := by
  rw [escape]
  split_ifs with h1 h2 h3 h4 h5 h6 h7 h8 h9
  · rw [h1]
    exact scanString_backslash (by decide) rfl t
  · rw [h2]
    exact scanString_backslash (by decide) rfl t
  · rw [cons_append, nil_append, scanString.eq_def]
    dsimp only
    rw [if_neg h1, if_neg h2, if_neg (Fin.not_lt.2 h3.1)]
  · rw [h4]
    exact scanString_backslash (by decide) rfl t
  · rw [h5]
    exact scanString_backslash (by decide) rfl t
  · rw [h6]
    exact scanString_backslash (by decide) rfl t
  · rw [h7]
    exact scanString_backslash (by decide) rfl t
  · rw [h8]
    exact scanString_backslash (by decide) rfl t
  · rw [scanString_unicodeEscape h9 hhigh, codePoint_val]
  · have hc : 0x10000 ≤ c.val := Nat.le_of_not_lt h9
    have hlt := c.isLt
    have hh : IsHigh (highSurrogate c.val) := by
      rw [highSurrogate]
      constructor <;> omega
    have hl : IsLow (lowSurrogate c.val) := by
      rw [lowSurrogate]
      constructor <;> omega
    rw [append_assoc, scanString_pair hh hl, combine_surrogates hc]

/-- A surrogate is written as one escape. -/
theorem escape_of_surrogate (h : IsHigh c.val ∨ IsLow c.val) : escape c = unicodeEscape c.val := by
  obtain ⟨hle, hlt⟩ : 0xd800 ≤ c.val ∧ c.val ≤ 0xdfff := by
    rcases h with ⟨h, h'⟩ | ⟨h, h'⟩ <;> constructor <;> omega
  have hne : ∀ d : CodePoint, d.val < 0xd800 → c ≠ d := by
    rintro d hd rfl
    exact absurd hle (not_le.2 hd)
  rw [escape, if_neg (hne _ (by decide)), if_neg (hne _ (by decide)), if_neg,
    if_neg (hne _ (by decide)),
    if_neg (hne _ (by decide)), if_neg (hne _ (by decide)), if_neg (hne _ (by decide)),
    if_neg (hne _ (by decide)), if_pos (by omega)]
  rintro ⟨-, hle'⟩
  have : c.val ≤ 0x7e := hle'
  omega

/-- What a high surrogate is written as, before another character. -/
theorem scanString_isHigh (h : IsHigh c.val) (d : CodePoint) (t : Text) :
    scanString (escape c ++ (escape d ++ t)) =
      if IsLow d.val then push (combine c.val d.val) (scanString t)
      else push c (scanString (escape d ++ t)) := by
  have hc : c.val < 0x10000 := by have := h.2; omega
  rw [escape_of_surrogate (.inl h)]
  split_ifs with hlow
  · rw [escape_of_surrogate (.inr hlow), scanString_pair h hlow]
  · have hother : ∀ e : CodePoint, e ≠ 0x75 → scanString (unicodeEscape c.val ++ (0x5c :: e :: t)) =
        push c (scanString (0x5c :: e :: t)) := fun e he => by
      rw [scanString_high hc, codePoint_val]
      intro t' heq
      exact he (List.cons.inj (List.cons.inj heq).2).1
    rw [escape]
    split_ifs with h1 h2 h3 h4 h5 h6 h7 h8 h9
    · exact hother _ (by decide)
    · exact hother _ (by decide)
    · rw [scanString_high hc, codePoint_val]
      intro t' heq
      exact h2 (List.cons.inj heq).1
    · exact hother _ (by decide)
    · exact hother _ (by decide)
    · exact hother _ (by decide)
    · exact hother _ (by decide)
    · exact hother _ (by decide)
    · rw [scanString_high_unicodeEscape hc h9 hlow, codePoint_val]
    · have hd := d.isLt
      have hlt : highSurrogate d.val < 0x10000 ∧ ¬IsLow (highSurrogate d.val) := by
        rw [highSurrogate, IsLow]
        constructor <;> omega
      rw [append_assoc, scanString_high_unicodeEscape hc hlt.1 hlt.2, codePoint_val]

/-- A string is read back joined. -/
theorem scanString_flatMap_escape (s r : Text) :
    scanString (s.flatMap escape ++ 0x22 :: r) = some (join s, r) := by
  have hend : ∀ r, scanString (0x22 :: r) = some ([], r) := fun r => by
    rw [scanString.eq_def]
    dsimp only
    rw [if_pos rfl]
  induction s using join.induct with
  | case1 => exact hend r
  | case2 c =>
    rw [flatMap_cons, flatMap_nil, append_nil]
    by_cases hhigh : IsHigh c.val
    · rw [escape_of_surrogate (.inl hhigh), scanString_high (by have := hhigh.2; omega), hend,
        codePoint_val]
      · rfl
      · intro t' heq
        cases heq
    · rw [scanString_escape hhigh, hend]
      rfl
  | case3 c d s h ih =>
    rw [join, if_pos h, flatMap_cons, flatMap_cons, append_assoc, append_assoc,
      scanString_isHigh h.1, if_pos h.2, ih]
    rfl
  | case4 c d s h ih =>
    rw [join, if_neg h, flatMap_cons, append_assoc]
    by_cases hhigh : IsHigh c.val
    · rw [flatMap_cons, append_assoc] at ih ⊢
      rw [scanString_isHigh hhigh, if_neg fun hlow => h ⟨hhigh, hlow⟩, ih]
      rfl
    · rw [scanString_escape hhigh, ih]
      rfl

theorem scanString_quote (s r : Text) :
    ∃ t, quote s ++ r = 0x22 :: t ∧ scanString t = some (join s, r) := by
  refine ⟨s.flatMap escape ++ 0x22 :: r, ?_, scanString_flatMap_escape s r⟩
  simp [quote]

/-! ## Reading a value back -/

mutual

/-- A value as it is read back. -/
def Value.joined : Value → Value
  | .string s => .string (join s)
  | .array l => .array (joinedItems l)
  | .object l => .object (joinedMembers l)
  | v => v

def joinedItems : List Value → List Value
  | [] => []
  | v :: l => v.joined :: joinedItems l

def joinedMembers : List (Text × Value) → List (Text × Value)
  | [] => []
  | (k, v) :: l => (join k, v.joined) :: joinedMembers l

end

/-- No number goes on into the text. -/
def Follows (r : Text) : Prop := ∀ c ∈ r.head?, isNumberChar c = false

theorem isDigit_isNumberChar (h : isDigit c = true) : isNumberChar c = true := by
  have h' : 0x30 ≤ c.val ∧ c.val ≤ 0x39 := of_decide_eq_true h
  simp [isNumberChar, h'.1, h'.2]

theorem all_of_isDigits (h : isDigits s = true) : ∀ c ∈ s, isNumberChar c = true :=
  fun c hc => isDigit_isNumberChar (List.all_eq_true.1 (Bool.and_eq_true_iff.1 h).1 c hc)

theorem all_of_isExponent (h : isExponent s = true) : ∀ c ∈ s, isNumberChar c = true := by
  cases s with
  | nil => nofun
  | cons e s =>
    rw [isExponent, Bool.and_eq_true] at h
    intro c hc
    rcases mem_cons.1 hc with rfl | hc
    · rcases Bool.or_eq_true_iff.1 h.1 with he | he
      all_goals
        rw [of_decide_eq_true he]
        rfl
    · obtain ⟨-, h⟩ := h
      split_ifs at h with hsign
      · -- After its sign, the exponent has only digits.
        cases s with
        | nil => cases hc
        | cons x s =>
          rcases mem_cons.1 hc with rfl | hc
          · rcases hsign with hx | hx
            all_goals
              rw [Option.some.inj hx]
              rfl
          · exact all_of_isDigits h c hc
      · exact all_of_isDigits h c hc

theorem all_of_takeWhile_isDigit : ∀ c ∈ s.takeWhile isDigit, isNumberChar c = true :=
  fun _ hc => isDigit_isNumberChar (mem_takeWhile_imp hc)

theorem all_of_isFraction (h : isFraction s = true) : ∀ c ∈ s, isNumberChar c = true := by
  cases s with
  | nil => nofun
  | cons x s =>
    rw [isFraction] at h
    split_ifs at h with hx
    · obtain ⟨-, h⟩ := Bool.and_eq_true_iff.1 h
      intro c hc
      rcases mem_cons.1 hc with rfl | hc
      · rw [hx]
        rfl
      · rw [← takeWhile_append_dropWhile (p := isDigit) (l := s)] at hc
        exact (mem_append.1 hc).elim (all_of_takeWhile_isDigit c) (all_of_isExponent h c)
    · exact all_of_isExponent h

/-- A number is a digit and what follows, or so after its sign. -/
theorem Number.cases (n : Number) : (∀ c ∈ n.text, isNumberChar c = true) ∧
    ∃ d t, isDigit d = true ∧ (n.text = d :: t ∨ n.text = 0x2d :: d :: t) := by
  obtain ⟨s, h⟩ := n
  have hnat : ∀ s : Text, isNatural (s.takeWhile isDigit) && isFraction (s.dropWhile isDigit) →
      (∀ c ∈ s, isNumberChar c = true) ∧ ∃ d t, isDigit d = true ∧ s = d :: t := by
    intro s hs
    obtain ⟨hn, hf⟩ := Bool.and_eq_true_iff.1 hs
    constructor
    · intro c hc
      rw [← takeWhile_append_dropWhile (p := isDigit) (l := s)] at hc
      exact (mem_append.1 hc).elim (all_of_takeWhile_isDigit c) (all_of_isFraction hf c)
    · cases s with
      | nil => cases hn
      | cons d t =>
        refine ⟨d, t, ?_, rfl⟩
        by_contra hd
        rw [takeWhile_cons_of_neg hd] at hn
        cases hn
  rw [isNumber] at h
  cases s with
  | nil => cases h
  | cons x s =>
    by_cases hx : x = 0x2d
    · subst hx
      obtain ⟨hall, d, t, hd, rfl⟩ := hnat s h
      refine ⟨fun c hc => ?_, d, t, hd, .inr rfl⟩
      rcases mem_cons.1 hc with rfl | hc
      · rfl
      · exact hall c hc
    · have hhead : (x :: s).head? ≠ some 0x2d := fun heq => hx (Option.some.inj heq)
      rw [if_neg hhead] at h
      obtain ⟨hall, d, t, hd, heq⟩ := hnat _ h
      exact ⟨hall, d, t, hd, .inl heq⟩

theorem scanNumber_append (n : Number) {r : Text} (hr : Follows r) :
    scanNumber (n.text ++ r) = some (.number n, r) := by
  have hall := n.cases.1
  have hrest : r.takeWhile isNumberChar = [] ∧ r.dropWhile isNumberChar = r := by
    cases r with
    | nil => exact ⟨rfl, rfl⟩
    | cons c r =>
      have hc := hr c rfl
      exact ⟨takeWhile_cons_of_neg (by simp [hc]), dropWhile_cons_of_neg (by simp [hc])⟩
  have htake : (n.text ++ r).takeWhile isNumberChar = n.text := by
    rw [takeWhile_append_of_pos hall, hrest.1, append_nil]
  have hdrop : (n.text ++ r).dropWhile isNumberChar = r := by
    rw [dropWhile_append_of_pos hall, hrest.2]
  rw [scanNumber, dif_pos (by rw [htake]; exact n.valid), hdrop]
  simp [htake]

theorem scanValue_number (n : Number) (k : ℕ) {r : Text} (hr : Follows r) :
    scanValue (k + 1) (n.text ++ r) = some (.number n, r) := by
  have hnum := scanNumber_append n hr
  obtain ⟨-, d, t, hd, hn⟩ := n.cases
  have hd' : 0x30 ≤ d.val ∧ d.val ≤ 0x39 := of_decide_eq_true hd
  have hne : ∀ c : CodePoint, ¬(0x30 ≤ c.val ∧ c.val ≤ 0x39) → d ≠ c := by
    rintro c hc rfl
    exact hc hd'
  -- Neither the sign nor a digit begins anything else.
  have hscan : ∀ c s, (c = 0x2d ∨ c = d) → scanWord "-Infinity" (.constant .negInfinity) (c :: s) = none →
      scanValue (k + 1) (c :: s) = scanNumber (c :: s) := by
    intro c s hc hword
    have hc' : ∀ e : CodePoint, e ≠ 0x2d → ¬(0x30 ≤ e.val ∧ e.val ≤ 0x39) → c ≠ e := by
      rintro e he hdig rfl
      exact hc.elim he fun h => hne _ hdig h.symm
    rw [scanValue, if_neg (hc' _ (by decide) (by decide)), if_neg (hc' _ (by decide) (by decide)),
      if_neg (hc' _ (by decide) (by decide)), if_neg (hc' _ (by decide) (by decide)),
      if_neg (hc' _ (by decide) (by decide)), if_neg (hc' _ (by decide) (by decide)),
      if_neg (hc' _ (by decide) (by decide)), if_neg (hc' _ (by decide) (by decide)), hword]
    rfl
  rcases hn with hn | hn
  · rw [hn] at hnum ⊢
    refine (hscan d _ (.inr rfl) ?_).trans hnum
    rw [scanWord, if_neg]
    intro hp
    have := isPrefixOf_iff_prefix.1 hp
    exact hne 0x2d (by decide) (cons_prefix_cons.1 this).1.symm
  · rw [hn] at hnum ⊢
    refine (hscan 0x2d _ (.inl rfl) ?_).trans hnum
    rw [scanWord, if_neg]
    intro hp
    have := (cons_prefix_cons.1 (List.isPrefixOf_iff_prefix.1 hp)).2
    exact hne 0x49 (by decide) (cons_prefix_cons.1 this).1.symm

theorem scanWord_append (word : String) (v : Value) (r : Text) :
    scanWord word v (text word ++ r) = some (v, r) := by
  rw [scanWord, if_pos (List.isPrefixOf_iff_prefix.2 (prefix_append _ _)), drop_left]

/-- White space before a value is skipped. -/
theorem skipWhite_append {w : Text} (hw : w.all isWhite = true)
    (hs : ∀ c ∈ s.head?, isWhite c = false) : skipWhite (w ++ s) = s := by
  rw [skipWhite, dropWhile_append_of_pos fun c hc => List.all_eq_true.1 hw c hc]
  cases s with
  | nil => rfl
  | cons c s => exact dropWhile_cons_of_neg (by simp [hs c rfl])

variable (sep : Separators)

/-- A value begins with no white space, and not with what would end an array. -/
theorem head_dumps (v : Value) (r : Text) :
    ∃ c t, v.dumps sep ++ r = c :: t ∧ isWhite c = false ∧ c ≠ 0x5d := by
  cases v with
  | null | string s => exact ⟨_, _, rfl, rfl, by decide⟩
  | bool b => cases b <;> exact ⟨_, _, rfl, rfl, by decide⟩
  | number n =>
    obtain ⟨-, d, t, hd, hn⟩ := n.cases
    have hd' : 0x30 ≤ d.val ∧ d.val ≤ 0x39 := of_decide_eq_true hd
    have hne : ∀ c : CodePoint, ¬(0x30 ≤ c.val ∧ c.val ≤ 0x39) → d ≠ c := by
      rintro c hc rfl
      exact hc hd'
    rw [Value.dumps]
    rcases hn with hn | hn
    · refine ⟨d, t ++ r, by rw [hn]; rfl, ?_, hne _ (by decide)⟩
      simp [isWhite, hne 0x20 (by decide), hne 0x09 (by decide), hne 0x0a (by decide),
        hne 0x0d (by decide)]
    · exact ⟨0x2d, d :: t ++ r, by rw [hn]; rfl, rfl, by decide⟩
  | constant c => cases c <;> exact ⟨_, _, rfl, rfl, by decide⟩
  | array l => cases l <;> exact ⟨_, _, rfl, rfl, by decide⟩
  | object l => rcases l with - | ⟨⟨k, v⟩, l⟩ <;> exact ⟨_, _, rfl, rfl, by decide⟩

theorem skipWhite_dumps {w : Text} (hw : w.all isWhite = true) (v : Value) (r : Text) :
    skipWhite (w ++ (v.dumps sep ++ r)) = v.dumps sep ++ r := by
  obtain ⟨c, t, heq, hc, -⟩ := head_dumps sep v r
  rw [heq]
  refine skipWhite_append hw fun c' hc' => ?_
  cases hc'
  exact hc

theorem follows_comma (r : Text) : Follows (0x2c :: r) := fun c hc => by
  cases hc
  rfl

theorem follows_bracket (r : Text) : Follows (0x5d :: r) := fun c hc => by
  cases hc
  rfl

theorem follows_brace (r : Text) : Follows (0x7d :: r) := fun c hc => by
  cases hc
  rfl

theorem follows_dumpsItems (l : List Value) (r : Text) : Follows (dumpsItems sep l ++ r) := by
  cases l
  · exact follows_bracket r
  · rw [dumpsItems, cons_append, append_assoc]
    exact follows_comma _

theorem follows_dumpsMembers (l : List (Text × Value)) (r : Text) :
    Follows (dumpsMembers sep l ++ r) := by
  rcases l with - | ⟨⟨k, v⟩, l⟩
  · exact follows_brace r
  · rw [dumpsMembers]
    exact follows_comma _

/-- A key, its colon and the white space after it are read before the value. -/
theorem scanKey_append (k : Text) (v : Value) (r : Text) :
    scanKey (quote k ++ 0x3a :: sep.key ++ v.dumps sep ++ r) =
      some (join k, v.dumps sep ++ r) := by
  obtain ⟨t, ht, hscan⟩ := scanString_quote k (0x3a :: sep.key ++ v.dumps sep ++ r)
  have heq : quote k ++ 0x3a :: sep.key ++ v.dumps sep ++ r = 0x22 :: t := by
    rw [← ht]
    simp
  rw [heq, scanKey, if_pos rfl, hscan]
  have hcolon : skipWhite (0x3a :: sep.key ++ v.dumps sep ++ r) =
      0x3a :: (sep.key ++ (v.dumps sep ++ r)) := by
    rw [skipWhite, cons_append, cons_append, append_assoc]
    exact dropWhile_cons_of_neg (by decide)
  dsimp only
  rw [hcolon]
  dsimp only
  rw [if_pos rfl, skipWhite_dumps sep sep.key_white]

/-- With this bound on the depth, values of at most that length are read back joined. -/
def ReadsValues (n : ℕ) : Prop := ∀ (v : Value) (r : Text), (v.dumps sep).length ≤ n → Follows r →
  scanValue n (v.dumps sep ++ r) = some (v.joined, r)

def ReadsItems (n : ℕ) : Prop := ∀ (v : Value) (l : List Value) (r : Text),
  (v.dumps sep ++ dumpsItems sep l).length ≤ n →
    scanItems n (v.dumps sep ++ (dumpsItems sep l ++ r)) = some (v.joined :: joinedItems l, r)

def ReadsMembers (n : ℕ) : Prop := ∀ (k : Text) (v : Value) (l : List (Text × Value)) (r : Text),
  (v.dumps sep ++ dumpsMembers sep l).length ≤ n →
    scanMembers n (quote k ++ 0x3a :: sep.key ++ v.dumps sep ++ (dumpsMembers sep l ++ r)) =
      some ((join k, v.joined) :: joinedMembers l, r)

variable {sep} {n : ℕ}

theorem readsValues_succ (hitems : ReadsItems sep n) (hmembers : ReadsMembers sep n) :
    ReadsValues sep (n + 1) := by
  intro v r hn hr
  match v with
  | .null => exact scanWord_append "null" .null r
  | .bool true => exact scanWord_append "true" (.bool true) r
  | .bool false => exact scanWord_append "false" (.bool false) r
  | .number k => exact scanValue_number k n hr
  | .constant .nan => exact scanWord_append "NaN" (.constant .nan) r
  | .constant .infinity => exact scanWord_append "Infinity" (.constant .infinity) r
  | .constant .negInfinity =>
    have hword := scanWord_append "-Infinity" (.constant .negInfinity) r
    exact congrArg (Option.or · (scanNumber (text "-Infinity" ++ r))) hword
  | .string s =>
    obtain ⟨t, ht, hscan⟩ := scanString_quote s r
    rw [Value.dumps, ht, scanValue, if_pos rfl, hscan]
    rfl
  | .array [] => rfl
  | .array (v :: l) =>
    rw [Value.dumps, cons_append, length_cons] at hn
    have hread := hitems v l r (by omega)
    rw [Value.dumps, cons_append, cons_append, append_assoc, scanValue,
      if_neg (by decide), if_neg (by decide), if_pos rfl]
    obtain ⟨c, t, hct, hc, hne⟩ := head_dumps sep v (dumpsItems sep l ++ r)
    have hskip := skipWhite_dumps sep (w := []) rfl v (dumpsItems sep l ++ r)
    rw [nil_append] at hskip
    rw [hskip]
    rw [hct] at hread ⊢
    dsimp only
    rw [if_neg hne, hread]
    rfl
  | .object [] => rfl
  | .object ((k, v) :: l) =>
    rw [Value.dumps] at hn
    simp only [cons_append, length_cons, append_assoc, length_append] at hn
    have hread := hmembers k v l r (by simp only [length_append]; omega)
    have heq : (Value.object ((k, v) :: l)).dumps sep ++ r = 0x7b ::
        (quote k ++ 0x3a :: sep.key ++ v.dumps sep ++ (dumpsMembers sep l ++ r)) := by
      rw [Value.dumps]
      simp only [cons_append, append_assoc]
    rw [heq, scanValue, if_neg (by decide), if_pos rfl]
    obtain ⟨t, ht⟩ : ∃ t, quote k ++ 0x3a :: sep.key ++ v.dumps sep ++ (dumpsMembers sep l ++ r) =
        0x22 :: t := ⟨_, rfl⟩
    rw [ht] at hread ⊢
    have hskip : skipWhite (0x22 :: t) = 0x22 :: t := dropWhile_cons_of_neg (by decide)
    rw [hskip]
    dsimp only
    rw [if_neg (by decide), hread]
    rfl

theorem skipWhite_comma (s : Text) : skipWhite (0x2c :: s) = 0x2c :: s :=
  dropWhile_cons_of_neg (by decide)

theorem readsItems_succ (hvalues : ReadsValues sep n) (hitems : ReadsItems sep n) :
    ReadsItems sep (n + 1) := by
  intro v l r hn
  rw [length_append] at hn
  cases l with
  | nil =>
    rw [dumpsItems, length_singleton] at hn
    rw [scanItems, hvalues v _ (by omega) (follows_dumpsItems sep [] r)]
    rfl
  | cons v' l =>
    simp only [dumpsItems, cons_append, length_cons, length_append] at hn
    have hread := hitems v' l r (by rw [length_append]; omega)
    have heq : dumpsItems sep (v' :: l) ++ r =
        0x2c :: (sep.item ++ (v'.dumps sep ++ (dumpsItems sep l ++ r))) := by
      simp only [dumpsItems, cons_append, append_assoc]
    rw [scanItems, hvalues v _ (by omega) (follows_dumpsItems sep (v' :: l) r)]
    dsimp only
    rw [heq, skipWhite_comma]
    dsimp only
    rw [if_neg (by decide), if_pos rfl, skipWhite_dumps sep sep.item_white, hread]
    rfl

theorem readsMembers_succ (hvalues : ReadsValues sep n) (hmembers : ReadsMembers sep n) :
    ReadsMembers sep (n + 1) := by
  intro k v l r hn
  rw [length_append] at hn
  rcases l with - | ⟨⟨k', v'⟩, l⟩
  · rw [dumpsMembers, length_singleton] at hn
    rw [scanMembers, scanKey_append]
    dsimp only
    rw [hvalues v _ (by omega) (follows_dumpsMembers sep [] r)]
    rfl
  · simp only [dumpsMembers, cons_append, length_cons, length_append] at hn
    have hread := hmembers k' v' l r (by rw [length_append]; omega)
    have heq : dumpsMembers sep ((k', v') :: l) ++ r = 0x2c :: (sep.item ++
        (quote k' ++ 0x3a :: sep.key ++ v'.dumps sep ++ (dumpsMembers sep l ++ r))) := by
      simp only [dumpsMembers, cons_append, append_assoc]
    have hquote : skipWhite (sep.item ++
        (quote k' ++ 0x3a :: sep.key ++ v'.dumps sep ++ (dumpsMembers sep l ++ r))) =
        quote k' ++ 0x3a :: sep.key ++ v'.dumps sep ++ (dumpsMembers sep l ++ r) := by
      refine skipWhite_append sep.item_white fun c hc => ?_
      cases hc
      rfl
    rw [scanMembers, scanKey_append]
    dsimp only
    rw [hvalues v _ (by omega) (follows_dumpsMembers sep ((k', v') :: l) r)]
    dsimp only
    rw [heq, skipWhite_comma]
    dsimp only
    rw [if_neg (by decide), if_pos rfl, hquote, hread]
    rfl

theorem length_dumps_pos (v : Value) : 0 < (v.dumps sep).length := by
  obtain ⟨c, t, hct, -⟩ := head_dumps sep v []
  rw [append_nil] at hct
  rw [hct]
  exact Nat.succ_pos _

/-- Whatever is written is read back with a depth of at most its length. -/
theorem reads_dumps (n : ℕ) : ReadsValues sep n ∧ ReadsItems sep n ∧ ReadsMembers sep n := by
  induction n with
  | zero =>
    have hpos : ∀ (v : Value) (t : Text), ¬(v.dumps sep ++ t).length ≤ 0 := fun v t hle => by
      have hv : 0 < (v.dumps sep).length := length_dumps_pos v
      rw [length_append] at hle
      omega
    refine ⟨fun v r hn => absurd hn ?_, fun v l r hn => absurd hn (hpos v _),
      fun k v l r hn => absurd hn (hpos v _)⟩
    simpa using hpos v []
  | succ n ih =>
    obtain ⟨hvalues, hitems, hmembers⟩ := ih
    exact ⟨readsValues_succ hitems hmembers, readsItems_succ hvalues hitems,
      readsMembers_succ hvalues hmembers⟩

variable (sep)

/-- A document that was written is read back joined, white space around it skipped. -/
theorem loads_dumps (v : Value) : loads (v.dumps sep) = some v.joined := by
  have hskip := skipWhite_dumps sep (w := []) rfl v []
  rw [nil_append, append_nil] at hskip
  have hscan := (reads_dumps ((v.dumps sep).length + 1)).1 v [] (Nat.le_succ _) nofun
  rw [append_nil] at hscan
  rw [loads, hskip, hscan]
  rfl

/-! ## What is written -/

/-- The printable characters of ASCII. -/
def Printable (s : Text) : Prop := ∀ c ∈ s, 0x20 ≤ c.val ∧ c.val ≤ 0x7e

instance (s : Text) : Decidable (Printable s) := List.decidableBAll _ s

theorem printable_nil : Printable [] := nofun

theorem Printable.append {t : Text} (hs : Printable s) (ht : Printable t) : Printable (s ++ t) :=
  fun c hc => (mem_append.1 hc).elim (hs c) (ht c)

theorem printable_cons (hc : 0x20 ≤ c.val ∧ c.val ≤ 0x7e)
    (hs : Printable s) : Printable (c :: s) := by
  intro d hd
  rcases mem_cons.1 hd with rfl | hd
  · exact hc
  · exact hs d hd

theorem isNumberChar_printable (h : isNumberChar c = true) : 0x20 ≤ c.val ∧ c.val ≤ 0x7e := by
  simp only [isNumberChar, Bool.or_eq_true, decide_eq_true_eq] at h
  rcases h with ((((h | rfl) | rfl) | rfl) | rfl) | rfl
  · omega
  all_goals decide

theorem printable_hexDigit (n : ℕ) : 0x20 ≤ (hexDigit (n % 0x10)).val ∧
    (hexDigit (n % 0x10)).val ≤ 0x7e := by
  have hlt := Nat.mod_lt n (by decide : 0x10 > 0)
  rw [hexDigit]
  split_ifs
  all_goals constructor <;> simp only <;> omega

theorem printable_unicodeEscape (n : ℕ) : Printable (unicodeEscape n) := by
  intro c hc
  simp only [unicodeEscape, mem_cons, not_mem_nil, or_false] at hc
  rcases hc with rfl | rfl | rfl | rfl | rfl | rfl
  · decide
  · decide
  all_goals exact printable_hexDigit _

theorem printable_escape (c : CodePoint) : Printable (escape c) := by
  have hpair : ∀ e : CodePoint, 0x20 ≤ e.val ∧ e.val ≤ 0x7e → Printable [0x5c, e] := by
    intro e he d hd
    rcases mem_cons.1 hd with rfl | hd
    · decide
    · rwa [mem_singleton.1 hd]
  rw [escape]
  split_ifs with h1 h2 h3
  · exact hpair _ (by decide)
  · exact hpair _ (by decide)
  · intro d hd
    rw [mem_singleton.1 hd]
    exact h3
  · exact hpair _ (by decide)
  · exact hpair _ (by decide)
  · exact hpair _ (by decide)
  · exact hpair _ (by decide)
  · exact hpair _ (by decide)
  · exact printable_unicodeEscape _
  · exact (printable_unicodeEscape _).append (printable_unicodeEscape _)

theorem printable_quote (s : Text) : Printable (quote s) := by
  intro c hc
  rw [quote, cons_append] at hc
  rcases mem_cons.1 hc with rfl | hc
  · decide
  rcases mem_append.1 hc with hc | hc
  · obtain ⟨d, -, hc⟩ := mem_flatMap.1 hc
    exact printable_escape d c hc
  · rw [mem_singleton.1 hc]
    decide

theorem printable_word (c : Constant) : Printable (text c.word) := by
  cases c <;> decide

/-- The white space between tokens is printable. -/
def Separators.Printable (sep : Separators) : Prop :=
  PyJson.Printable sep.item ∧ PyJson.Printable sep.key

theorem printable_compact : compact.Printable := ⟨by decide, by decide⟩

theorem printable_spaced : spaced.Printable := ⟨by decide, by decide⟩

variable {sep} (hsep : sep.Printable)

include hsep

mutual

/-- Whatever is written is printable. -/
theorem printable_dumps : ∀ v : Value, Printable (v.dumps sep)
  | .null => (by decide : Printable (text "null"))
  | .bool true => (by decide : Printable (text "true"))
  | .bool false => (by decide : Printable (text "false"))
  | .number n => fun c hc => isNumberChar_printable (n.cases.1 c hc)
  | .constant c => printable_word c
  | .string s => printable_quote s
  | .array [] => (by decide : Printable [0x5b, 0x5d])
  | .array (v :: l) => by
    rw [Value.dumps]
    exact (printable_cons (by decide) (printable_dumps v)).append (printable_dumpsItems l)
  | .object [] => (by decide : Printable [0x7b, 0x7d])
  | .object ((k, v) :: l) => by
    rw [Value.dumps]
    exact (((printable_cons (by decide) (printable_quote k)).append
      (printable_cons (by decide) hsep.2)).append (printable_dumps v)).append
        (printable_dumpsMembers l)

theorem printable_dumpsItems : ∀ l : List Value, Printable (dumpsItems sep l)
  | [] => (by decide : Printable [0x5d])
  | v :: l => by
    rw [dumpsItems]
    exact ((printable_cons (by decide) hsep.1).append (printable_dumps v)).append
      (printable_dumpsItems l)

theorem printable_dumpsMembers : ∀ l : List (Text × Value), Printable (dumpsMembers sep l)
  | [] => (by decide : Printable [0x7d])
  | (k, v) :: l => by
    rw [dumpsMembers]
    exact ((((printable_cons (by decide) hsep.1).append (printable_quote k)).append
      (printable_cons (by decide) hsep.2)).append (printable_dumps v)).append
        (printable_dumpsMembers l)

end

omit hsep

/-! ## Lengths -/

/-- The number of characters that a text becomes in a string. -/
def escapedLength (s : Text) : ℕ := (s.flatMap escape).length

theorem length_quote (s : Text) : (quote s).length = escapedLength s + 2 := by
  simp [quote, escapedLength]

end PyJson
