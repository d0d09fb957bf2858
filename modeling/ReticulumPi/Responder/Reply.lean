import Mathlib.Data.List.DropRight
import ReticulumPi.Lib.Utf8

/-!
# Replies that fit

`_truncate_response` of the Meshtastic responder cuts a reply to the bytes that the radio
takes, if possible after a word, and says that there is more. The cut is made in the bytes
of UTF-8, and what may be the beginning of a character is dropped from the end: what
remains is again the bytes of a prefix (`dropBroken_take`).

Where there is no room for the suffix and one more byte, the text is cut to that many
*characters* instead. So these replies fit when the characters take a byte each, and not
otherwise (`truncateResponse_iff`).
-/

namespace ReticulumPi.Responder

open PyCodec PyJson List

/-- `"\n...(more)"` -/
def suffix : Text := text "\n...(more)"

/-- The suffix takes ten bytes. -/
def suffixLength : ℕ := 10

theorem encode_suffix : ∃ b, encode suffix = some b ∧ b.length = suffixLength := by
  refine ⟨(encode suffix).get (by decide), ?_, by decide⟩
  rw [Option.some_get]

/-- `bytes.rfind`, of one byte. -/
def rfind (b : List Byte) (a : Byte) : ℤ :=
  match b.reverse.idxOf? a with
  | some i => b.length - 1 - i
  | none => -1

/-- `bytes.decode("utf-8")`, which raises unless the bytes are those of a text. -/
def decode (b : List Byte) : Option Text := if IsUtf8 b then some (decodeIgnore b) else none

variable {t : Text} {b : List Byte}

theorem decode_encode (h : encode t = some b) : decode b = some t := by
  rw [decode, if_pos ⟨t, h⟩, decodeIgnore_encode h]

/-- The bytes at the end that may be the beginning of a character are dropped: the tails,
    and a byte that tails may follow. -/
def dropBroken (b : List Byte) : List Byte :=
  let b := b.rdropWhile fun a => a.val &&& 0xc0 = 0x80
  if b.getLast?.any fun a => 0xc0 ≤ a.val then b.dropLast else b

/-- The cut is moved back to the last space or newline, unless that is too far. -/
def cutAtBreak (truncated : List Byte) (limit : ℤ) : List Byte :=
  let lastBreak := max (rfind truncated (byte 0x20)) (rfind truncated (byte 0x0a))
  if lastBreak > limit / 2 then truncated.take lastBreak.toNat else truncated

/-- `_truncate_response`, which raises when the text has no bytes. -/
def truncateResponse (t : Text) (maxBytes : ℕ) : Option Text := do
  let encoded ← encode t
  if encoded.length ≤ maxBytes then return t
  let limit : ℤ := maxBytes - suffixLength
  if limit ≤ 0 then return t.take maxBytes
  let truncated := cutAtBreak (encoded.take limit.toNat) limit
  return (← decode (dropBroken truncated)) ++ suffix

/-! ## Dropping what is incomplete -/

theorem and_eq_iff (a : Byte) : a.val &&& 0xc0 = 0x80 ↔ isTail a = true := by
  revert a
  decide +kernel

theorem dropBroken_eq (b : List Byte) :
    dropBroken b = if (b.rdropWhile isTail).getLast?.any fun a => 0xc0 ≤ a.val
      then (b.rdropWhile isTail).dropLast else b.rdropWhile isTail := by
  have h : (fun a : Byte => decide (a.val &&& 0xc0 = 0x80)) = isTail := by
    funext a
    rw [Bool.eq_iff_iff, decide_eq_true_iff, and_eq_iff]
  rw [dropBroken, h]

/-- A character of several bytes, whole or not, is dropped. -/
theorem dropBroken_of_lead {x tails : List Byte} {a : Byte} (htails : ∀ d ∈ tails, isTail d = true)
    (ha : 0xc0 ≤ a.val) : dropBroken (x ++ a :: tails) = x := by
  have hlead : isTail a = false := by
    rw [isTail, Bool.and_eq_false_iff]
    exact .inr (decide_eq_false (by omega))
  have hdrop : (x ++ a :: tails).rdropWhile isTail = x ++ [a] := by
    rw [List.rdropWhile, reverse_append, reverse_cons, append_assoc,
      dropWhile_append_of_pos fun d hd => htails d (mem_reverse.1 hd),
      singleton_append, dropWhile_cons_of_neg (by rw [hlead]; exact Bool.false_ne_true)]
    simp
  rw [dropBroken_eq, hdrop, getLast?_concat, dropLast_concat, if_pos]
  exact decide_eq_true ha

/-- A character of one byte stays. -/
theorem dropBroken_of_ascii {x : List Byte} {a : Byte} (ha : a.val < 0x80) :
    dropBroken (x ++ [a]) = x ++ [a] := by
  have hlead : isTail a = false := by
    rw [isTail, Bool.and_eq_false_iff]
    exact .inl (decide_eq_false (by omega))
  have hdrop : (x ++ [a]).rdropWhile isTail = x ++ [a] :=
    rdropWhile_concat_neg _ _ _ (by rw [hlead]; exact Bool.false_ne_true)
  rw [dropBroken_eq, hdrop, getLast?_concat, if_neg]
  exact fun h => absurd (of_decide_eq_true h) (by omega)

/-- What comes before the last character that was begun is kept. -/
theorem dropBroken_append {x s : List Byte} {a : Byte} (ha : isTail a = false) :
    dropBroken (x ++ a :: s) = x ++ dropBroken (a :: s) := by
  have hne : (a :: s).rdropWhile isTail ≠ [] := by
    rw [ne_eq, rdropWhile_eq_nil_iff]
    intro hall
    rw [hall a mem_cons_self] at ha
    cases ha
  have hdrop : (x ++ a :: s).rdropWhile isTail = x ++ (a :: s).rdropWhile isTail := by
    have hne' : ((a :: s).reverse.dropWhile isTail).isEmpty = false := by
      rw [List.rdropWhile, ne_eq, reverse_eq_nil_iff] at hne
      exact isEmpty_eq_false_iff.2 hne
    rw [List.rdropWhile, reverse_append, dropWhile_append, hne', if_neg (by simp),
      reverse_append, reverse_reverse, ← List.rdropWhile]
  rw [dropBroken_eq, dropBroken_eq, hdrop, getLast?_append_of_ne_nil _ hne,
    dropLast_append_of_ne_nil hne, apply_ite (x ++ ·)]

/-- The bytes of a text do not begin with a tail. -/
theorem isTail_head {a : Byte} {s : List Byte} (h : encode t = some (a :: s)) :
    isTail a = false := by
  rcases t with _ | ⟨c, t⟩
  · cases h
  · obtain ⟨d, e, hd, -, hs⟩ := encode_cons.1 h
    obtain ⟨a', tails, rfl, -, hshape⟩ := encodeChar_shape hd
    obtain ⟨rfl, -⟩ := List.cons.inj hs
    rw [isTail, Bool.and_eq_false_iff, decide_eq_false_iff_not, decide_eq_false_iff_not]
    rcases hshape with ⟨ha, -⟩ | ⟨ha, -⟩
    · exact .inl (by omega)
    · exact .inr (by omega)

/-- The bytes of one character, or the first of them. -/
theorem dropBroken_char {c : CodePoint} {d : List Byte} (hd : encodeChar c = some d)
    (n : ℕ) : ∃ p, p <+: c :: t ∧ encode p = some (dropBroken (d.take n)) := by
  obtain ⟨a, tails, rfl, htails, hshape⟩ := encodeChar_shape hd
  rcases n with _ | n
  · exact ⟨[], nil_prefix, rfl⟩
  · rw [take_succ_cons]
    rcases hshape with ⟨ha, rfl⟩ | ⟨ha, -⟩
    · refine ⟨[c], cons_prefix_cons.2 ⟨rfl, nil_prefix⟩, ?_⟩
      rw [take_nil, ← nil_append [a], dropBroken_of_ascii ha]
      exact encode_cons.2 ⟨[a], [], hd, rfl, rfl⟩
    · refine ⟨[], nil_prefix, ?_⟩
      rw [← nil_append (a :: tails.take n),
        dropBroken_of_lead (fun b hb => htails b (mem_of_mem_take hb)) ha]
      rfl

/-- What remains of the first bytes of a text are the bytes of a prefix of it. -/
theorem dropBroken_take (h : encode t = some b) (n : ℕ) :
    ∃ p, p <+: t ∧ encode p = some (dropBroken (b.take n)) := by
  induction t generalizing b n with
  | nil =>
    cases h
    exact ⟨[], nil_prefix, by rw [take_nil]; rfl⟩
  | cons c t ih =>
    obtain ⟨d, e, hd, he, rfl⟩ := encode_cons.1 h
    rw [take_append]
    rcases hrest : e.take (n - d.length) with _ | ⟨a, s⟩
    · rw [append_nil]
      exact dropBroken_char hd n
    · -- The cut falls behind the first character, which stays.
      have hlen : 0 < n - d.length := by
        by_contra hzero
        rw [Nat.eq_zero_of_not_pos hzero, take_zero] at hrest
        cases hrest
      have hhead : isTail a = false := by
        rcases e with _ | ⟨a', e⟩
        · rw [take_nil] at hrest
          cases hrest
        · obtain ⟨m, hm⟩ := Nat.exists_eq_succ_of_ne_zero hlen.ne'
          rw [hm, take_succ_cons] at hrest
          obtain ⟨rfl, -⟩ := List.cons.inj hrest
          exact isTail_head he
      obtain ⟨p, hp, hencode⟩ := ih he (n - d.length)
      refine ⟨c :: p, cons_prefix_cons.2 ⟨rfl, hp⟩, ?_⟩
      rw [take_of_length_le (by omega), dropBroken_append hhead, ← hrest]
      exact encode_cons.2 ⟨d, _, hd, hencode, rfl⟩

theorem dropBroken_length_le (b : List Byte) : (dropBroken b).length ≤ b.length := by
  have h : (b.rdropWhile isTail).length ≤ b.length := (List.rdropWhile_prefix _ _).length_le
  rw [dropBroken_eq]
  split_ifs
  · rw [length_dropLast]
    omega
  · exact h

/-! ## Replies -/

/-- What a reply has to be: it fits; it is the text, if that fits, and else a prefix of it,
    with the suffix if that fits. -/
structure Proper (t : Text) (maxBytes : ℕ) (r : Text) : Prop where
  fits : Fits r maxBytes
  whole : Fits t maxBytes → r = t
  cut : ¬Fits t maxBytes → ∃ p, p <+: t ∧ r = if suffixLength ≤ maxBytes then p ++ suffix else p

/-- The text has bytes; and it fits, or there is room for the suffix and more, or the
    characters that are returned take one byte each, or are those of the suffix. -/
def Cuttable (t : Text) (maxBytes : ℕ) : Prop :=
  (encode t).isSome ∧
    (Fits t maxBytes ∨ suffixLength < maxBytes ∨
      (maxBytes < suffixLength ∧ ∀ c ∈ t.take maxBytes, c.val < 0x80) ∨
      (maxBytes = suffixLength ∧ suffix <+: t))

/-- Cut at a break, a text is still cut after some byte. -/
theorem cutAtBreak_take (b : List Byte) (n : ℕ) (limit : ℤ) :
    ∃ m ≤ n, cutAtBreak (b.take n) limit = b.take m := by
  rw [cutAtBreak]
  split_ifs
  · exact ⟨_, min_le_right _ _, take_take⟩
  · exact ⟨n, le_rfl, rfl⟩

/-- With room for the suffix and more, the reply is right. -/
theorem proper_of_room {maxBytes : ℕ} (h : encode t = some b)
    (hfits : ¬b.length ≤ maxBytes) (hroom : suffixLength < maxBytes) :
    ∃ r, truncateResponse t maxBytes = some r ∧ Proper t maxBytes r := by
  obtain ⟨e, he, hlen⟩ := encode_suffix
  have hlimit : ¬(maxBytes - suffixLength : ℤ) ≤ 0 := by omega
  obtain ⟨n, hn, hcut⟩ : ∃ n, n ≤ maxBytes - suffixLength ∧
      truncateResponse t maxBytes = (decode (dropBroken (b.take n))).map (· ++ suffix) := by
    rw [truncateResponse, h]
    dsimp only [Option.bind_eq_bind, Option.bind_some]
    rw [if_neg hfits, if_neg hlimit]
    obtain ⟨n, hn, htake⟩ :=
      cutAtBreak_take b (maxBytes - suffixLength : ℤ).toNat (maxBytes - suffixLength)
    exact ⟨n, by omega, by rw [htake, Option.map_eq_bind]; rfl⟩
  obtain ⟨p, hp, hencode⟩ := dropBroken_take h n
  refine ⟨p ++ suffix, by rw [hcut, decode_encode hencode]; rfl, ?_, ?_, ?_⟩
  · refine ⟨_, encode_append.2 ⟨_, e, hencode, he, rfl⟩, ?_⟩
    have hdrop := dropBroken_length_le (b.take n)
    rw [length_take] at hdrop
    rw [length_append]
    omega
  · rintro ⟨b', hb', hle⟩
    cases h.symm.trans hb'
    exact absurd hle hfits
  · exact fun _ => ⟨p, hp, by rw [if_pos hroom.le]⟩

/-- Without it, the first characters are returned. -/
theorem truncateResponse_of_no_room {maxBytes : ℕ}
    (h : encode t = some b) (hfits : ¬b.length ≤ maxBytes) (hroom : maxBytes ≤ suffixLength) :
    truncateResponse t maxBytes = some (t.take maxBytes) := by
  have hlimit : (maxBytes - suffixLength : ℤ) ≤ 0 := by omega
  rw [truncateResponse, h]
  dsimp only [Option.bind_eq_bind, Option.bind_some]
  rw [if_neg hfits, if_pos hlimit]
  rfl

/-- A text takes at least a byte for each character, and no more only in ASCII. -/
theorem length_le_of_encode (h : encode t = some b) :
    t.length ≤ b.length ∧ (b.length ≤ t.length ↔ ∀ c ∈ t, c.val < 0x80) := by
  induction t generalizing b with
  | nil =>
    cases h
    exact ⟨le_rfl, fun _ c hc => absurd hc not_mem_nil, fun _ => le_rfl⟩
  | cons c t ih =>
    obtain ⟨d, e, hd, he, rfl⟩ := encode_cons.1 h
    obtain ⟨hle, hiff⟩ := ih he
    have hpos : 0 < d.length := length_pos_iff.2 (encodeChar_ne_nil hd)
    have hone : d.length ≤ 1 ↔ c.val < 0x80 := by
      rw [encodeChar] at hd
      split_ifs at hd <;> cases hd <;> simp_all
    rw [length_append, length_cons, forall_mem_cons, ← hone, ← hiff]
    omega

theorem encode_prefix {p : Text} (h : encode t = some b) (hp : p <+: t) :
    ∃ d, encode p = some d := by
  obtain ⟨s, rfl⟩ := hp
  obtain ⟨d, _, hd, -, -⟩ := encode_append.1 h
  exact ⟨d, hd⟩

/-- So many characters fit in so many bytes only if they are in ASCII, when the text is
    longer. -/
theorem fits_take_iff {n : ℕ} (h : encode t = some b)
    (hfits : ¬b.length ≤ n) : Fits (t.take n) n ↔ ∀ c ∈ t.take n, c.val < 0x80 := by
  obtain ⟨d, hd⟩ := encode_prefix h (List.take_prefix n t)
  obtain ⟨-, hiff⟩ := length_le_of_encode hd
  rw [← hiff]
  constructor
  · rintro ⟨d', hd', hle⟩
    cases hd.symm.trans hd'
    rcases le_total n t.length with hn | hn
    · rwa [length_take, min_eq_left hn]
    · rw [take_of_length_le hn] at hd
      cases h.symm.trans hd
      exact absurd hle hfits
  · intro hle
    refine ⟨d, hd, hle.trans ?_⟩
    rw [length_take]
    exact min_le_left _ _

theorem truncateResponse_of_none {maxBytes : ℕ} (h : encode t = none) :
    truncateResponse t maxBytes = none := by
  rw [truncateResponse, h]
  rfl

/-- A reply fits and is a prefix of the text, with the suffix if there is room, exactly if the
    text has bytes and there is room for the suffix and more, unless the text is whole, its
    first characters are in ASCII and the suffix is too long, or they are the suffix. -/
theorem truncateResponse_iff (t : Text) (maxBytes : ℕ) :
    (∃ r, truncateResponse t maxBytes = some r ∧ Proper t maxBytes r) ↔ Cuttable t maxBytes := by
  rcases h : encode t with _ | b
  · rw [truncateResponse_of_none h, Cuttable, h]
    constructor
    · rintro ⟨r, hr, -⟩
      cases hr
    · rintro ⟨hsome, -⟩
      cases hsome
  by_cases hfits : b.length ≤ maxBytes
  · have ht : Fits t maxBytes := ⟨b, h, hfits⟩
    refine ⟨fun _ => ⟨by rw [h]; rfl, .inl ht⟩, fun _ => ⟨t, ?_, ht, fun _ => rfl, fun hn => absurd ht hn⟩⟩
    rw [truncateResponse, h]
    exact if_pos hfits
  have hnot : ¬Fits t maxBytes := by
    rintro ⟨b', hb', hle⟩
    cases h.symm.trans hb'
    exact hfits hle
  rcases lt_trichotomy maxBytes suffixLength with hroom | hroom | hroom
  · -- There is no room for the suffix: the characters have to take one byte each.
    rw [truncateResponse_of_no_room h hfits hroom.le]
    constructor
    · rintro ⟨r, hr, hproper⟩
      cases hr
      exact ⟨by rw [h]; rfl, .inr (.inr (.inl ⟨hroom, (fits_take_iff h hfits).1 hproper.fits⟩))⟩
    · rintro ⟨-, ht | hlt | ⟨-, hascii⟩ | ⟨heq, -⟩⟩
      · exact absurd ht hnot
      · omega
      · exact ⟨_, rfl, (fits_take_iff h hfits).2 hascii, fun ht => absurd ht hnot,
          fun _ => ⟨_, take_prefix _ _, by rw [if_neg (by omega)]⟩⟩
      · omega
  · -- There is room for the suffix alone, which is not returned.
    rw [truncateResponse_of_no_room h hfits hroom.le]
    obtain ⟨e, he, hlen⟩ := encode_suffix
    have hsuffix : suffix.length = maxBytes := by rw [hroom]; decide
    constructor
    · rintro ⟨r, hr, hproper⟩
      cases hr
      obtain ⟨p, -, hp⟩ := hproper.cut hnot
      rw [if_pos hroom.ge] at hp
      have hlength := congrArg List.length hp
      rw [length_take, length_append, hsuffix] at hlength
      obtain rfl : p = [] := length_eq_zero_iff.1 (by omega)
      refine ⟨by rw [h]; rfl, .inr (.inr (.inr ⟨hroom, ?_⟩))⟩
      rw [← nil_append suffix, ← hp]
      exact take_prefix _ _
    · rintro ⟨-, ht | hlt | ⟨hlt, -⟩ | ⟨-, hprefix⟩⟩
      · exact absurd ht hnot
      · omega
      · omega
      · have htake : t.take maxBytes = suffix := by
          rw [← hsuffix]
          exact (prefix_iff_eq_take.1 hprefix).symm
        refine ⟨_, rfl, ?_, fun ht => absurd ht hnot, fun _ => ⟨[], nil_prefix, ?_⟩⟩
        · rw [htake]
          exact ⟨e, he, by omega⟩
        · rw [htake, if_pos hroom.ge, nil_append]
  · refine ⟨fun _ => ⟨by rw [h]; rfl, .inr (.inl hroom)⟩, fun _ => proper_of_room h hfits hroom⟩

/-- Six letters of two bytes each, for five bytes: five letters are returned. -/
theorem truncateResponse_too_long :
    ¬∀ (t : Text) (maxBytes : ℕ), ∃ r, truncateResponse t maxBytes = some r ∧ Proper t maxBytes r := by
  intro h
  obtain ⟨r, hr, hproper⟩ := h (List.replicate 6 (codePoint 0xe9)) 5
  have hval : truncateResponse (List.replicate 6 (codePoint 0xe9)) 5 =
      some (List.replicate 5 (codePoint 0xe9)) := by decide +kernel
  obtain rfl := Option.some.inj (hval.symm.trans hr)
  obtain ⟨b, hb, hle⟩ := hproper.fits
  have hlen : ((encode (List.replicate 5 (codePoint 0xe9))).map List.length) = some 10 := by
    decide +kernel
  rw [hb, Option.map_some] at hlen
  have := Option.some.inj hlen
  omega

end ReticulumPi.Responder
