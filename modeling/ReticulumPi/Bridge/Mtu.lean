import Mathlib.Data.List.Basic
import Mathlib.Order.Nat

/-!
# Texts within a byte budget

`mtu.py`: a text is cut to the bytes that a mesh transport carries, never
within a character. Texts are lists of characters, and the bytes are those of
their UTF-8 encoding.
-/

namespace ReticulumPi.Bridge

/-- `len(text.encode("utf-8"))`. -/
def byteLength : List Char → ℕ
  | [] => 0
  | c :: text => c.utf8Size + byteLength text

/-- `truncate_bytes`: the characters that fit in the budget in full. -/
def truncateBytes : List Char → ℕ → List Char
  | [], _ => []
  | c :: text, n => if c.utf8Size ≤ n then c :: truncateBytes text (n - c.utf8Size) else []

/-- `truncate_for_mtu`: the header and as much of the body as fits in the budget,
    with an ellipsis where there is room for one. -/
def truncateForMtu (header body : List Char) (mtu : ℤ) : List Char :=
  if mtu ≤ 0 then []
  else
    let mtu := mtu.toNat
    if mtu ≤ byteLength header then truncateBytes header mtu
    else
      let room := mtu - byteLength header
      if byteLength body ≤ room then header ++ body
      else if room ≤ 4 then header ++ truncateBytes body room
      else header ++ (truncateBytes body (room - 4) ++ " ...".toList)

attribute [local simp] byteLength truncateBytes

@[simp] theorem truncateBytes_zero (text : List Char) : truncateBytes text 0 = [] := by
  rcases text with _ | ⟨c, text⟩
  · rfl
  · rw [truncateBytes, if_neg (not_le.2 c.utf8Size_pos)]

/-- A text that fits is kept, whatever follows it. -/
theorem truncateBytes_append_of_le {text : List Char} {n : ℕ} (h : byteLength text ≤ n)
    (rest : List Char) :
    truncateBytes (text ++ rest) n = text ++ truncateBytes rest (n - byteLength text) := by
  induction text generalizing n with
  | nil => rfl
  | cons c text ih =>
    rw [byteLength] at h
    rw [List.cons_append, truncateBytes, if_pos (by omega), ih (by omega), byteLength,
      Nat.sub_sub, List.cons_append]

theorem truncateBytes_of_le {text : List Char} {n : ℕ} (h : byteLength text ≤ n) :
    truncateBytes text n = text := by
  have := truncateBytes_append_of_le h []
  rwa [List.append_nil, truncateBytes, List.append_nil] at this

/-- Of a text that does not fit, what follows it is cut. -/
theorem truncateBytes_append_of_lt {text : List Char} {n : ℕ} (h : n < byteLength text)
    (rest : List Char) : truncateBytes (text ++ rest) n = truncateBytes text n := by
  induction text generalizing n with
  | nil => cases h
  | cons c text ih =>
    rw [byteLength] at h
    rw [List.cons_append, truncateBytes, truncateBytes]
    split_ifs with hc
    · rw [ih (by omega)]
    · rfl

theorem truncateBytes_truncateBytes (text : List Char) (n m : ℕ) :
    truncateBytes (truncateBytes text n) m = truncateBytes text (min n m) := by
  induction text generalizing n m with
  | nil => rfl
  | cons c text ih =>
    rw [truncateBytes, truncateBytes]
    by_cases hn : c.utf8Size ≤ n
    · rw [if_pos hn, truncateBytes]
      by_cases hm : c.utf8Size ≤ m
      · rw [if_pos hm, if_pos (le_min hn hm), ih, Nat.sub_min_sub_right]
      · rw [if_neg hm, if_neg fun hmin => hm (hmin.trans (min_le_right n m))]
    · rw [if_neg hn, if_neg fun hmin => hn (hmin.trans (min_le_left n m)), truncateBytes]

/-- What a text built for a budget begins with: all of the header, or what fits
    of it and nothing else. -/
theorem truncateForMtu_cases (header body : List Char) (mtu : ℤ) :
    (byteLength header < mtu.toNat ∧ ∃ rest, truncateForMtu header body mtu = header ++ rest) ∨
      (mtu.toNat ≤ byteLength header ∧
        truncateForMtu header body mtu = truncateBytes header mtu.toNat) := by
  rw [truncateForMtu]
  dsimp only
  by_cases hpos : mtu ≤ 0
  · rw [if_pos hpos, show mtu.toNat = 0 by omega, truncateBytes_zero]
    exact .inr ⟨Nat.zero_le _, rfl⟩
  · rw [if_neg hpos]
    by_cases hheader : mtu.toNat ≤ byteLength header
    · rw [if_pos hheader]
      exact .inr ⟨hheader, rfl⟩
    · rw [if_neg hheader]
      refine .inl ⟨not_le.1 hheader, ?_⟩
      split_ifs
      all_goals exact ⟨_, rfl⟩

/-- The same, of a text that is cut once more. -/
theorem truncateBytes_truncateForMtu_cases (header body : List Char) (mtu : ℤ) (m : ℕ) :
    (truncateBytes header (min mtu.toNat m) = header ∧
      ∃ rest, truncateBytes (truncateForMtu header body mtu) m = header ++ rest) ∨
        truncateBytes (truncateForMtu header body mtu) m =
          truncateBytes header (min mtu.toNat m) := by
  rcases truncateForMtu_cases header body mtu with ⟨hlt, rest, htext⟩ | ⟨hle, htext⟩
  · by_cases hm : byteLength header ≤ m
    · rw [htext, truncateBytes_append_of_le hm]
      exact .inl ⟨truncateBytes_of_le (le_min hlt.le hm), _, rfl⟩
    · rw [htext, truncateBytes_append_of_lt (not_le.1 hm), min_eq_right (by omega)]
      exact .inr rfl
  · rw [htext, truncateBytes_truncateBytes]
    exact .inr rfl

end ReticulumPi.Bridge
