import ReticulumPi.Lib.Codec

/-!
# Cutting a text to a number of bytes

The idiom `text.encode("utf-8")[:n].decode("utf-8", errors="ignore")` drops the
bytes of a character that the cut leaves incomplete. What remains of a text is
its longest prefix of whole characters that fits (`longestPrefix_decodeIgnore`),
and there is only one such prefix (`LongestPrefix.unique`). So bytes cut out of
a text are those of a text again only when the cut falls between two characters
(`isUtf8_take_iff`).
-/

namespace PyCodec

open PyJson List

/-- Whether a byte may be the second of a character that begins with `a`: no
    character is written longer than it has to be, none is a surrogate, and none
    is beyond the last. -/
def isSecond (a b : Byte) : Bool :=
  isTail b && (a ≠ byte 0xe0 || 0xa0 ≤ b.val) && (a ≠ byte 0xed || b.val < 0xa0) &&
    (a ≠ byte 0xf0 || 0x90 ≤ b.val) && (a ≠ byte 0xf4 || b.val < 0x90)

/-- `bytes.decode("utf-8", errors="ignore")`: bytes that begin no character are
    skipped, and so are those of a character that is broken off, up to the byte
    where it is. -/
def decodeIgnore : List Byte → Text
  | [] => []
  | a :: s =>
    if a.val < 0x80 then codePoint a.val :: decodeIgnore s
    else if a.val < 0xc2 then decodeIgnore s
    else if a.val < 0xe0 then
      match s with
      | [] => []
      | b :: s =>
        if isTail b then codePoint (addTail (a.val - 0xc0) b) :: decodeIgnore s
        else decodeIgnore (b :: s)
    else if a.val < 0xf0 then
      match s with
      | [] => []
      | b :: s =>
        if isSecond a b then
          match s with
          | [] => []
          | c :: s =>
            if isTail c then
              codePoint (addTail (addTail (a.val - 0xe0) b) c) :: decodeIgnore s
            else decodeIgnore (c :: s)
        else decodeIgnore (b :: s)
    else if a.val < 0xf5 then
      match s with
      | [] => []
      | b :: s =>
        if isSecond a b then
          match s with
          | [] => []
          | c :: s =>
            if isTail c then
              match s with
              | [] => []
              | d :: s =>
                if isTail d then
                  codePoint (addTail (addTail (addTail (a.val - 0xf0) b) c) d) :: decodeIgnore s
                else decodeIgnore (d :: s)
            else decodeIgnore (c :: s)
        else decodeIgnore (b :: s)
    else decodeIgnore s

attribute [local simp] decodeIgnore

/-! ## The bytes of one character -/

/-- The bytes of the character `c`: they are read as it, and as nothing when
    some of them are missing at the end. -/
def Decodes (b : List Byte) (c : CodePoint) : Prop :=
  (∀ s, decodeIgnore (b ++ s) = c :: decodeIgnore s) ∧
    ∀ k < b.length, decodeIgnore (b.take k) = []

variable {a : Byte}

theorem decodes_one (ha : a.val < 0x80) : Decodes [a] (codePoint a.val) := by
  refine ⟨fun s => ?_, fun k hk => ?_⟩
  · rw [singleton_append, decodeIgnore.eq_def]
    exact if_pos ha
  · obtain rfl : k = 0 := Nat.lt_one_iff.1 hk
    rfl

theorem decodes_two {b : Byte} (ha : 0xc2 ≤ a.val) (ha' : a.val < 0xe0) (hb : isTail b = true) :
    Decodes [a, b] (codePoint (addTail (a.val - 0xc0) b)) := by
  have hfirst : ∀ s, decodeIgnore (a :: s) = match s with
      | [] => []
      | b :: s =>
        if isTail b then codePoint (addTail (a.val - 0xc0) b) :: decodeIgnore s
        else decodeIgnore (b :: s) := by
    intro s
    rw [decodeIgnore.eq_def]
    dsimp only
    rw [if_neg (by omega), if_neg (by omega), if_pos ha']
  refine ⟨fun s => ?_, fun k hk => ?_⟩
  · rw [cons_append, hfirst]
    exact if_pos hb
  · obtain rfl | rfl : k = 0 ∨ k = 1 := by
      rw [length_cons, length_singleton] at hk
      omega
    · rfl
    · exact hfirst []

theorem decodes_three {b c : Byte} (ha : 0xe0 ≤ a.val) (ha' : a.val < 0xf0)
    (hb : isSecond a b = true) (hc : isTail c = true) :
    Decodes [a, b, c] (codePoint (addTail (addTail (a.val - 0xe0) b) c)) := by
  have hfirst : ∀ s, decodeIgnore (a :: b :: s) = match s with
      | [] => []
      | c :: s =>
        if isTail c then codePoint (addTail (addTail (a.val - 0xe0) b) c) :: decodeIgnore s
        else decodeIgnore (c :: s) := by
    intro s
    rw [decodeIgnore.eq_def]
    dsimp only
    rw [if_neg (by omega), if_neg (by omega), if_neg (by omega), if_pos ha', if_pos hb]
  have hempty : decodeIgnore [a] = [] := by
    rw [decodeIgnore.eq_def]
    dsimp only
    rw [if_neg (by omega), if_neg (by omega), if_neg (by omega), if_pos ha']
  refine ⟨fun s => ?_, fun k hk => ?_⟩
  · rw [cons_append, cons_append, hfirst]
    exact if_pos hc
  · obtain rfl | rfl | rfl : k = 0 ∨ k = 1 ∨ k = 2 := by
      rw [length_cons, length_cons, length_singleton] at hk
      omega
    · rfl
    · exact hempty
    · exact hfirst []

theorem decodes_four {b c d : Byte} (ha : 0xf0 ≤ a.val) (ha' : a.val < 0xf5)
    (hb : isSecond a b = true) (hc : isTail c = true) (hd : isTail d = true) :
    Decodes [a, b, c, d] (codePoint (addTail (addTail (addTail (a.val - 0xf0) b) c) d)) := by
  have hfirst : ∀ s, decodeIgnore (a :: s) = match s with
      | [] => []
      | b :: s =>
        if isSecond a b then
          match s with
          | [] => []
          | c :: s =>
            if isTail c then
              match s with
              | [] => []
              | d :: s =>
                if isTail d then
                  codePoint (addTail (addTail (addTail (a.val - 0xf0) b) c) d) :: decodeIgnore s
                else decodeIgnore (d :: s)
            else decodeIgnore (c :: s)
        else decodeIgnore (b :: s) := by
    intro s
    rw [decodeIgnore.eq_def]
    dsimp only
    rw [if_neg (by omega), if_neg (by omega), if_neg (by omega), if_neg (by omega), if_pos ha']
  refine ⟨fun s => ?_, fun k hk => ?_⟩
  · rw [cons_append, cons_append, cons_append, hfirst]
    exact (if_pos hb).trans ((if_pos hc).trans (if_pos hd))
  · obtain rfl | rfl | rfl | rfl : k = 0 ∨ k = 1 ∨ k = 2 ∨ k = 3 := by
      rw [length_cons, length_cons, length_cons, length_singleton] at hk
      omega
    · rfl
    · exact hfirst []
    · exact (hfirst [b]).trans (if_pos hb)
    · exact (hfirst [b, c]).trans ((if_pos hb).trans (if_pos hc))

theorem val_tail (n : ℕ) : (byte (0x80 + n % 0x40)).val = 0x80 + n % 0x40 := by
  have hlt : n % 0x40 < 0x40 := Nat.mod_lt _ (by decide)
  exact byte_val (by omega)

theorem isTail_byte (n : ℕ) : isTail (byte (0x80 + n % 0x40)) = true := by
  have hlt : n % 0x40 < 0x40 := Nat.mod_lt _ (by decide)
  rw [isTail, val_tail, Bool.and_eq_true, decide_eq_true_eq, decide_eq_true_eq]
  omega

theorem addTail_byte (n m : ℕ) : addTail n (byte (0x80 + m % 0x40)) = n * 0x40 + m % 0x40 := by
  have htail : (byte (0x80 + m % 0x40)).val - 0x80 = m % 0x40 := by
    rw [val_tail]
    omega
  exact congrArg (n * 0x40 + ·) htail

theorem isSecond_of {b : Byte} (hb : isTail b = true) (he0 : a.val = 0xe0 → 0xa0 ≤ b.val)
    (hed : a.val = 0xed → b.val < 0xa0) (hf0 : a.val = 0xf0 → 0x90 ≤ b.val)
    (hf4 : a.val = 0xf4 → b.val < 0x90) : isSecond a b = true := by
  have hne : ∀ n : Byte, a ≠ n ∨ a.val = n.val := fun n =>
    (em (a = n)).symm.imp_right fun h => congrArg Fin.val h
  simp only [isSecond, hb, Bool.true_and, Bool.and_eq_true, Bool.or_eq_true, decide_eq_true_eq]
  exact ⟨⟨⟨(hne (byte 0xe0)).imp_right he0, (hne (byte 0xed)).imp_right hed⟩,
    (hne (byte 0xf0)).imp_right hf0⟩, (hne (byte 0xf4)).imp_right hf4⟩

variable {c : CodePoint} {b : List Byte}

/-- Every character is written in bytes that are read as it. -/
theorem decodes_encodeChar (h : encodeChar c = some b) : Decodes b c := by
  have hc := c.isLt
  rw [encodeChar] at h
  split_ifs at h with h1 h2 h3 h4
  · cases h
    have hone := decodes_one (a := byte c.val) (by rw [byte_val (by omega)]; exact h1)
    rwa [byte_val (by omega), codePoint_val] at hone
  · cases h
    have hval : (byte (0xc0 + c.val / 0x40)).val = 0xc0 + c.val / 0x40 := byte_val (by omega)
    have htwo := decodes_two (a := byte (0xc0 + c.val / 0x40)) (by omega) (by omega)
      (isTail_byte c.val)
    rw [addTail_byte, hval] at htwo
    rwa [show (0xc0 + c.val / 0x40 - 0xc0) * 0x40 + c.val % 0x40 = c.val by omega,
      codePoint_val] at htwo
  · cases h
    have hval : (byte (0xe0 + c.val / 0x1000)).val = 0xe0 + c.val / 0x1000 := byte_val (by omega)
    -- The second byte tells that three are needed, and that `c` is no surrogate.
    have hsecond : isSecond (byte (0xe0 + c.val / 0x1000)) (byte (0x80 + c.val / 0x40 % 0x40)) =
        true := by
      rw [IsHigh, IsLow] at h3
      refine isSecond_of (isTail_byte _) ?_ ?_ ?_ ?_ <;> rw [val_tail] <;> omega
    have hthree := decodes_three (a := byte (0xe0 + c.val / 0x1000)) (by omega) (by omega) hsecond
      (isTail_byte c.val)
    rw [addTail_byte, addTail_byte, hval] at hthree
    rwa [show ((0xe0 + c.val / 0x1000 - 0xe0) * 0x40 + c.val / 0x40 % 0x40) * 0x40 +
      c.val % 0x40 = c.val by omega, codePoint_val] at hthree
  · cases h
    have hval : (byte (0xf0 + c.val / 0x40000)).val = 0xf0 + c.val / 0x40000 := byte_val (by omega)
    have hsecond : isSecond (byte (0xf0 + c.val / 0x40000)) (byte (0x80 + c.val / 0x1000 % 0x40)) =
        true := by
      refine isSecond_of (isTail_byte _) ?_ ?_ ?_ ?_ <;> rw [val_tail] <;> omega
    have hfour := decodes_four (a := byte (0xf0 + c.val / 0x40000)) (by omega) (by omega) hsecond
      (isTail_byte (c.val / 0x40)) (isTail_byte c.val)
    rw [addTail_byte, addTail_byte, addTail_byte, hval] at hfour
    rwa [show (((0xf0 + c.val / 0x40000 - 0xf0) * 0x40 + c.val / 0x1000 % 0x40) * 0x40 +
      c.val / 0x40 % 0x40) * 0x40 + c.val % 0x40 = c.val by omega, codePoint_val] at hfour

theorem encodeChar_ne_nil (h : encodeChar c = some b) : b ≠ [] := by
  rintro rfl
  have hread := (decodes_encodeChar h).1 []
  cases hread

/-- The bytes of a character: one below `0x80`, or one from `0xc0` on and tails after it. -/
theorem encodeChar_shape (h : encodeChar c = some b) :
    ∃ a tails, b = a :: tails ∧ (∀ d ∈ tails, isTail d = true) ∧
      ((a.val < 0x80 ∧ tails = []) ∨ (0xc0 ≤ a.val ∧ tails ≠ [])) := by
  have hc := c.isLt
  rw [encodeChar] at h
  split_ifs at h with h1 h2 h3 h4
  · cases h
    exact ⟨_, [], rfl, fun d hd => absurd hd not_mem_nil, .inl ⟨by rwa [byte_val (by omega)], rfl⟩⟩
  all_goals
    cases h
    refine ⟨_, _, rfl, ?_, .inr ⟨by rw [byte_val (by omega)]; omega, cons_ne_nil _ _⟩⟩
    simp only [mem_cons, not_mem_nil, or_false, forall_eq_or_imp, forall_eq, isTail_byte,
      and_self]

/-! ## Texts -/

variable {t : Text}

theorem encode_cons : encode (c :: t) = some b ↔
      ∃ d e, encodeChar c = some d ∧ encode t = some e ∧ b = d ++ e := by
  rw [encode]
  simp only [Option.bind_eq_bind, Option.bind_eq_some_iff, Option.some.injEq]
  constructor
  · rintro ⟨d, hd, e, he, rfl⟩
    exact ⟨d, e, hd, he, rfl⟩
  · rintro ⟨d, e, hd, he, rfl⟩
    exact ⟨d, hd, e, he, rfl⟩

theorem encode_append {s : Text} :
    encode (s ++ t) = some b ↔ ∃ d e, encode s = some d ∧ encode t = some e ∧ b = d ++ e := by
  induction s generalizing b with
  | nil =>
    refine ⟨fun h => ⟨[], b, rfl, h, rfl⟩, ?_⟩
    rintro ⟨d, e, hd, he, rfl⟩
    cases hd
    exact he
  | cons c s ih =>
    rw [cons_append, encode_cons]
    constructor
    · rintro ⟨d, e, hd, he, rfl⟩
      obtain ⟨f, g, hf, hg, rfl⟩ := ih.1 he
      exact ⟨d ++ f, g, encode_cons.2 ⟨d, f, hd, hf, rfl⟩, hg, (append_assoc _ _ _).symm⟩
    · rintro ⟨d, e, hd, he, rfl⟩
      obtain ⟨f, g, hf, hg, rfl⟩ := encode_cons.1 hd
      exact ⟨f, g ++ e, hf, ih.2 ⟨g, e, hg, he, rfl⟩, append_assoc _ _ _⟩

/-- A text is read back as it was. -/
theorem decodeIgnore_encode (h : encode t = some b) : decodeIgnore b = t := by
  induction t generalizing b with
  | nil =>
    cases h
    rfl
  | cons c t ih =>
    obtain ⟨d, e, hd, he, rfl⟩ := encode_cons.1 h
    rw [(decodes_encodeChar hd).1, ih he]

/-- The text takes at most `n` bytes. -/
def Fits (t : Text) (n : ℕ) : Prop := ∃ b, encode t = some b ∧ b.length ≤ n

theorem Fits.nil_of_zero (h : Fits t 0) : t = [] := by
  obtain ⟨b, hb, hlen⟩ := h
  rcases t with _ | ⟨c, t⟩
  · rfl
  · obtain ⟨d, e, hd, -, rfl⟩ := encode_cons.1 hb
    rw [Nat.le_zero, length_eq_zero_iff, append_eq_nil_iff] at hlen
    exact absurd hlen.1 (encodeChar_ne_nil hd)

theorem fits_append {s : Text} (h : encode s = some b) {n : ℕ} :
    Fits (s ++ t) n ↔ b.length ≤ n ∧ Fits t (n - b.length) := by
  constructor
  · rintro ⟨d, hd, hle⟩
    obtain ⟨e, f, he, hf, rfl⟩ := encode_append.1 hd
    cases h.symm.trans he
    rw [length_append] at hle
    exact ⟨by omega, f, hf, by omega⟩
  · rintro ⟨hle, f, hf, hf'⟩
    refine ⟨b ++ f, encode_append.2 ⟨b, f, h, hf, rfl⟩, ?_⟩
    rw [length_append]
    omega

/-- The longest of the prefixes of `t`, in whole characters, that fit in `n` bytes. -/
structure LongestPrefix (t : Text) (n : ℕ) (p : Text) : Prop where
  isPrefix : p <+: t
  fits : Fits p n
  longest : ∀ q, q <+: t → Fits q n → q <+: p

theorem LongestPrefix.unique {p q : Text} {n : ℕ} (hp : LongestPrefix t n p)
    (hq : LongestPrefix t n q) : p = q :=
  (hq.longest p hp.isPrefix hp.fits).eq_of_length_le (hp.longest q hq.isPrefix hq.fits).length_le

theorem longestPrefix_self {n : ℕ} (h : Fits t n) : LongestPrefix t n t :=
  ⟨prefix_refl t, h, fun _ hq _ => hq⟩

theorem LongestPrefix.cons {d : List Byte} {p : Text} {n : ℕ}
    (hd : encodeChar c = some d) (h : LongestPrefix t n p) :
    LongestPrefix (c :: t) (d.length + n) (c :: p) := by
  refine ⟨cons_prefix_cons.2 ⟨rfl, h.isPrefix⟩, ?_, fun q hq hfits => ?_⟩
  · obtain ⟨e, he, hle⟩ := h.fits
    refine ⟨d ++ e, encode_cons.2 ⟨d, e, hd, he, rfl⟩, ?_⟩
    rw [length_append]
    omega
  · rcases q with _ | ⟨c', q⟩
    · exact nil_prefix
    · obtain ⟨rfl, hqt⟩ := cons_prefix_cons.1 hq
      obtain ⟨b, hb, hle⟩ := hfits
      obtain ⟨d', e, hd', he, rfl⟩ := encode_cons.1 hb
      cases hd.symm.trans hd'
      rw [length_append] at hle
      exact cons_prefix_cons.2 ⟨rfl, h.longest q hqt ⟨e, he, by omega⟩⟩

/-- A character that does not fit ends the prefix. -/
theorem longestPrefix_nil {d : List Byte} {n : ℕ}
    (hd : encodeChar c = some d) (h : n < d.length) : LongestPrefix (c :: t) n [] := by
  refine ⟨List.nil_prefix, ⟨[], rfl, Nat.zero_le n⟩, fun q hq hfits => ?_⟩
  rcases q with _ | ⟨c', q⟩
  · exact nil_prefix
  · obtain ⟨rfl, -⟩ := cons_prefix_cons.1 hq
    obtain ⟨b, hb, hle⟩ := hfits
    obtain ⟨d', e, hd', -, rfl⟩ := encode_cons.1 hb
    cases hd.symm.trans hd'
    rw [length_append] at hle
    omega

/-- What is left of a text whose bytes are cut. -/
theorem longestPrefix_decodeIgnore (h : encode t = some b) (n : ℕ) :
    LongestPrefix t n (decodeIgnore (b.take n)) := by
  induction t generalizing b n with
  | nil =>
    cases h
    rw [take_nil]
    exact longestPrefix_self ⟨[], rfl, Nat.zero_le n⟩
  | cons c t ih =>
    obtain ⟨d, e, hd, he, rfl⟩ := encode_cons.1 h
    by_cases hn : d.length ≤ n
    · obtain ⟨m, rfl⟩ := Nat.exists_eq_add_of_le hn
      rw [take_length_add_append, (decodes_encodeChar hd).1]
      exact (ih he m).cons hd
    · -- The cut falls within the first character, of which nothing is left.
      rw [take_append_of_le_length (by omega), (decodes_encodeChar hd).2 n (by omega)]
      exact longestPrefix_nil hd (by omega)

/-! ## Bytes that are those of a text -/

/-- Valid UTF-8. -/
def IsUtf8 (b : List Byte) : Prop := ∃ t, encode t = some b

theorem isUtf8_iff : IsUtf8 b ↔ encode (decodeIgnore b) = some b := by
  refine ⟨?_, fun h => ⟨_, h⟩⟩
  rintro ⟨t, ht⟩
  rw [decodeIgnore_encode ht, ht]

instance (b : List Byte) : Decidable (IsUtf8 b) := decidable_of_iff _ isUtf8_iff.symm

/-- Cutting the text after `n` bytes splits no character. -/
def OnBoundary (t : Text) (n : ℕ) : Prop :=
  ∃ p b c, p <+: t ∧ encode p = some c ∧ encode t = some b ∧ c.length = min n b.length

/-- Where the bytes of a text may be cut. -/
theorem isUtf8_take_iff (h : encode t = some b) (n : ℕ) : IsUtf8 (b.take n) ↔ OnBoundary t n := by
  constructor
  · intro hutf8
    refine ⟨_, b, b.take n, (longestPrefix_decodeIgnore h n).isPrefix, isUtf8_iff.1 hutf8, h, ?_⟩
    rw [length_take]
  · rintro ⟨p, b', c, ⟨q, rfl⟩, hc, hb', hlen⟩
    cases h.symm.trans hb'
    obtain ⟨d, e, hd, -, rfl⟩ := encode_append.1 h
    cases hc.symm.trans hd
    refine ⟨p, ?_⟩
    rw [hc, take_eq_take_min, ← hlen, take_left]

end PyCodec
