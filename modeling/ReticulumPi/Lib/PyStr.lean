import Mathlib.Data.List.DropRight
import Mathlib.Data.Nat.Digits.Lemmas

/-!
# Python's text

The operations of Python's `str` that the programs modelled here use, on the
list of the characters of a text: the white space of `str.isspace`, and
`lstrip`, `rstrip` and `strip` without an argument, which take it off; and
numbers written with eight hexadecimal digits.
-/

namespace PyStr

open List

/-- `str.isspace`, of one character. -/
def isSpace (c : Char) : Bool :=
  (0x09 ≤ c.toNat && c.toNat ≤ 0x0d) || (0x1c ≤ c.toNat && c.toNat ≤ 0x20) || c.toNat = 0x85 ||
    c.toNat = 0xa0 || c.toNat = 0x1680 || (0x2000 ≤ c.toNat && c.toNat ≤ 0x200a) ||
    c.toNat = 0x2028 || c.toNat = 0x2029 || c.toNat = 0x202f || c.toNat = 0x205f || c.toNat = 0x3000

/-- `str.lstrip()`. -/
def lstrip (s : List Char) : List Char := s.dropWhile isSpace

/-- `str.rstrip()`. -/
def rstrip (s : List Char) : List Char := s.rdropWhile isSpace

/-- `str.strip()`. -/
def strip (s : List Char) : List Char := rstrip (lstrip s)

/-- White space at the end of a text without any is stripped. -/
theorem strip_append {s t : List Char} (hs : ∀ c ∈ s, isSpace c = false)
    (ht : ∀ c ∈ t, isSpace c = true) : strip (s ++ t) = s := by
  have hdrop : t.dropWhile isSpace = [] := dropWhile_eq_nil_iff.2 ht
  rcases eq_nil_or_concat' s with rfl | ⟨s, c, rfl⟩
  · rw [strip, lstrip, nil_append, hdrop]
    rfl
  · have hl : lstrip (s ++ [c] ++ t) = s ++ [c] ++ t := by
      rw [lstrip, dropWhile_eq_self_iff]
      intro hlen
      have hmem : (s ++ [c] ++ t)[0] ∈ s ++ [c] := by
        rw [getElem_append_left (by simp)]
        exact getElem_mem _
      rw [hs _ hmem]
      exact Bool.false_ne_true
    have hr : (s ++ [c] ++ t).rdropWhile isSpace = (s ++ [c]).rdropWhile isSpace := by
      rw [List.rdropWhile, reverse_append, dropWhile_append, List.rdropWhile]
      have hrev : t.reverse.dropWhile isSpace = [] :=
        dropWhile_eq_nil_iff.2 fun x hx => ht x (mem_reverse.1 hx)
      rw [hrev]
      rfl
    have hc : ¬ isSpace c = true := by simp [hs c (by simp)]
    rw [strip, hl, rstrip, hr, rdropWhile_concat_neg _ _ _ hc]

/-! ## Hexadecimal numbers -/

/-- A digit of `int(text, 16)`. -/
def hexValue (c : Char) : Option ℕ :=
  if '0'.toNat ≤ c.toNat ∧ c.toNat ≤ '9'.toNat then some (c.toNat - '0'.toNat)
  else if 'a'.toNat ≤ c.toNat ∧ c.toNat ≤ 'f'.toNat then some (c.toNat - 'a'.toNat + 10)
  else if 'A'.toNat ≤ c.toNat ∧ c.toNat ≤ 'F'.toNat then some (c.toNat - 'A'.toNat + 10)
  else none

/-- `f"{n:08x}"`. -/
def formatHex8 (n : ℕ) : List Char :=
  let digits := (Nat.digits 16 n).reverse.map Nat.digitChar
  List.replicate (8 - digits.length) '0' ++ digits

/-- `int(text, 16)`, of a text that `[0-9a-fA-F]{8}` matches in full. -/
def parseHex8 (s : List Char) : Option ℕ :=
  if s.length = 8 then (s.mapM hexValue).map fun digits => Nat.ofDigits 16 digits.reverse
  else none

theorem hexValue_digitChar : ∀ d < 16, hexValue (Nat.digitChar d) = some d := by decide

theorem isSpace_digitChar : ∀ d < 16, isSpace (Nat.digitChar d) = false := by decide

/-- The digits written, the padding included. -/
theorem formatHex8_eq (n : ℕ) : formatHex8 n =
    (List.replicate (8 - (Nat.digits 16 n).length) 0 ++ (Nat.digits 16 n).reverse).map
      Nat.digitChar := by
  simp [formatHex8]

theorem lt_of_mem_padded {n d : ℕ}
    (h : d ∈ List.replicate (8 - (Nat.digits 16 n).length) 0 ++ (Nat.digits 16 n).reverse) :
    d < 16 := by
  rcases mem_append.1 h with h | h
  · rw [eq_of_mem_replicate h]
    decide
  · exact Nat.digits_lt_base (by decide) (mem_reverse.1 h)

theorem isSpace_of_mem_formatHex8 {n : ℕ} : ∀ c ∈ formatHex8 n, isSpace c = false := by
  intro c hc
  rw [formatHex8_eq] at hc
  obtain ⟨d, hd, rfl⟩ := List.mem_map.1 hc
  exact isSpace_digitChar d (lt_of_mem_padded hd)

theorem mapM_hexValue {l : List ℕ} (h : ∀ d ∈ l, d < 16) :
    (l.map Nat.digitChar).mapM hexValue = some l := by
  induction l with
  | nil => rfl
  | cons d l ih =>
    have hd := hexValue_digitChar d (h d mem_cons_self)
    have hl := ih fun d' hd' => h d' (mem_cons_of_mem _ hd')
    rw [map_cons, mapM_cons, hd, hl]
    rfl

/-- What is written with eight digits is read back. -/
theorem parseHex8_formatHex8 {n : ℕ} (h : n < 16 ^ 8) : parseHex8 (formatHex8 n) = some n := by
  have hlen : (Nat.digits 16 n).length ≤ 8 := (Nat.digits_length_le_iff (by decide) n).2 h
  have hfull : (formatHex8 n).length = 8 := by
    rw [formatHex8_eq]
    simp only [length_map, length_append, length_replicate, length_reverse]
    omega
  rw [parseHex8, if_pos hfull, formatHex8_eq, mapM_hexValue fun d hd => lt_of_mem_padded hd]
  simp [Nat.ofDigits_append, Nat.ofDigits_digits]

end PyStr
