import ReticulumPi.Lora.Codec
import Mathlib.Data.List.Forall2

/-!
# Bursts

A symbol that is received wrong costs each codeword of its block at most one
bit, as the interleaver takes a symbol from a diagonal: whatever the symbol is
replaced by, the codewords deinterleaved are the ones sent but for the bit that
was in its column (`received_eq`). The Hamming codes of rates 3 and 4 correct
it.
-/

namespace ReticulumPi.Lora

open List

/-! ## Hamming codes -/

theorem hammingEncode_lt : ∀ cr < 5, 1 ≤ cr → ∀ nibble < 16,
    (hammingEncode nibble cr).map (fun c => decide (c < 2 ^ (4 + cr))) = .ok true := by
  decide

/-- A codeword received as it was sent decodes to its nibble. -/
theorem hammingDecode_encode : ∀ cr < 5, 1 ≤ cr → ∀ nibble < 16,
    (hammingEncode nibble cr >>= fun c => hammingDecode c cr) = .ok (nibble, 0) := by
  decide

/-- A codeword of rate 3 or 4 with one bit flipped decodes to its nibble. -/
theorem hammingDecode_flip {cr : ℕ} (hcr : cr = 3 ∨ cr = 4) : ∀ nibble < 16, ∀ p < 4 + cr,
    (hammingEncode nibble cr >>= fun c => hammingDecode (c ^^^ (1 <<< p)) cr) =
      .ok (nibble, 1) := by
  rcases hcr with rfl | rfl
  all_goals decide

/-! ## The interleaver -/

variable {codewords : List ℕ} {sf : ℤ} {cr : ℕ} {reduced : Bool}

variable {symbols : List ℕ}

/-- The bit of a symbol that is the one of a codeword, of its rotation: the
    symbols are the columns. -/
theorem testBit_symbol (h : interleave codewords sf cr reduced = .ok symbols)
    {col i : ℕ} (hcol : col < 4 + cr) (hi : i < codewords.length) :
    (symbols.getD col 0).testBit (codewords.length - 1 - i) =
      (rotateLeft (codewords.getD i 0) i (4 + cr)).testBit (4 + cr - 1 - col) := by
  rw [interleave] at h
  dsimp only at h
  split_ifs at h
  cases h
  have hindex : codewords.length - 1 - (codewords.length - 1 - i) = i := by omega
  rw [getD_eq_getElem _ _ (by simpa using hcol), getElem_map, getElem_range,
    Bits.testBit_foldl_shift, length_mapIdx, hindex,
    getD_eq_getElem _ _ (by simpa using hi), getElem_mapIdx,
    getD_eq_getElem _ _ hi]
  simp only [Bool.and_eq_right_iff_imp, decide_eq_true_eq]
  omega

theorem length_symbols (h : interleave codewords sf cr reduced = .ok symbols) :
    symbols.length = 4 + cr ∧ (codewords.length : ℤ) = rdd sf reduced := by
  rw [interleave] at h
  dsimp only at h
  split_ifs at h with hlen
  cases h
  exact ⟨by simp, not_not.1 hlen⟩

/-- The row that the symbols are written into, a symbol in each column. -/
theorem testBit_row (symbols : List ℕ) (ppm i j : ℕ) :
    ((List.range ppm).foldl (fun r col =>
        r ||| (((symbols.getD col 0 >>> i) &&& 1) <<< (ppm - 1 - col))) 0).testBit j =
      (decide (j < ppm) && (symbols.getD (ppm - 1 - j) 0).testBit i) := by
  rw [Bits.testBit_foldl_set (fun col => symbols.getD col 0), Bool.eq_iff_iff]
  simp only [List.any_eq_true, mem_range, Bool.and_eq_true, decide_eq_true_eq]
  constructor
  · rintro ⟨col, hcol, rfl, hbit⟩
    exact ⟨by omega, by rwa [show ppm - 1 - (ppm - 1 - col) = col by omega]⟩
  · rintro ⟨hj, hbit⟩
    exact ⟨ppm - 1 - j, by omega, by omega, hbit⟩

variable {received : List ℕ}

/-- The bits of the codewords deinterleaved. -/
theorem testBit_received (h : deinterleave symbols sf cr reduced = .ok received) :
    received.length = (rdd sf reduced).toNat ∧ ∀ i < (rdd sf reduced).toNat, ∀ j,
      (received.getD i 0).testBit j = (decide (j < 4 + cr) &&
        (symbols.getD (4 + cr - 1 - (j + i) % (4 + cr)) 0).testBit
          ((rdd sf reduced).toNat - 1 - i)) := by
  rw [deinterleave] at h
  dsimp only at h
  split_ifs at h
  cases h
  set n := (rdd sf reduced).toNat with hn
  set ppm := 4 + cr with hppm
  have hpos : 0 < ppm := by omega
  -- Each row is the loop over the columns, begun at 0.
  set row : ℕ → ℕ := fun i => (List.range ppm).foldl (fun r col =>
    r ||| (((symbols.getD col 0 >>> (n - 1 - i)) &&& 1) <<< (ppm - 1 - col))) 0 with hrow
  set rows := (List.range ppm).foldl (fun rows col => rows.mapIdx fun i r =>
    r ||| (((symbols.getD col 0 >>> (n - 1 - i)) &&& 1) <<< (ppm - 1 - col)))
      (List.replicate n 0) with hrows
  have hget : ∀ i, rows[i]? = if i < n then some (row i) else none := fun i => by
    rw [hrows, Bits.getElem?_foldl_mapIdx (fun col i r =>
      r ||| (((symbols.getD col 0 >>> (n - 1 - i)) &&& 1) <<< (ppm - 1 - col))),
      getElem?_replicate]
    split_ifs
    · rfl
    · rfl
  have hlt : ∀ i, row i < 2 ^ ppm := fun i =>
    Nat.lt_pow_two_of_testBit _ fun j hj => by
      rw [hrow]
      simp only
      rw [testBit_row, decide_eq_false (by omega), Bool.false_and]
  have hlength : rows.length = n := by
    refine le_antisymm (not_lt.1 fun hlt => ?_) (not_lt.1 fun hlt => ?_)
    · have := hget n
      rw [if_neg (lt_irrefl n), List.getElem?_eq_none_iff] at this
      omega
    · have := hget rows.length
      rw [if_pos hlt, getElem?_eq_none le_rfl] at this
      cases this
  refine ⟨by rw [length_mapIdx, hlength], fun i hi j => ?_⟩
  rw [getD_eq_getElem?_getD, getElem?_mapIdx, hget, if_pos hi, Option.map_some,
    Option.getD_some, Bits.testBit_rotateRight (hlt i) hpos]
  congr 1
  rw [hrow]
  simp only
  rw [testBit_row, decide_eq_true (Nat.mod_lt _ hpos), Bool.true_and]

/-- A bit received that was not in the symbol `k` is the bit sent, whatever the
    symbol was replaced by. -/
theorem testBit_received_eq (hlt : ∀ c ∈ codewords, c < 2 ^ (4 + cr))
    (h : interleave codewords sf cr reduced = .ok symbols) {k v : ℕ}
    (hreceived : deinterleave (symbols.set k v) sf cr reduced = .ok received) :
    received.length = codewords.length ∧ ∀ i < codewords.length, ∀ j,
      (j < 4 + cr → k ≠ 4 + cr - 1 - (j + i) % (4 + cr)) →
        (received.getD i 0).testBit j = (codewords.getD i 0).testBit j := by
  obtain ⟨hlength, hrdd⟩ := length_symbols h
  obtain ⟨hreclen, hbits⟩ := testBit_received hreceived
  have hn : (rdd sf reduced).toNat = codewords.length := by omega
  rw [hn] at hreclen hbits
  refine ⟨hreclen, fun i hi j hne => ?_⟩
  have hpos : 0 < 4 + cr := by omega
  have hci : codewords.getD i 0 < 2 ^ (4 + cr) := by
    rw [getD_eq_getElem _ _ hi]
    exact hlt _ (getElem_mem hi)
  rw [hbits i hi]
  by_cases hlow : j < 4 + cr
  · have hmod := Nat.mod_lt (j + i) hpos
    rw [getD_eq_getElem?_getD, getElem?_set_ne (hne hlow), ← getD_eq_getElem?_getD,
      testBit_symbol h (by omega) hi, show 4 + cr - 1 - (4 + cr - 1 - (j + i) % (4 + cr)) =
        (j + i) % (4 + cr) by omega, decide_eq_true hlow, Bool.true_and]
    exact Bits.testBit_rotateLeft_add hci hpos i hlow
  · rw [decide_eq_false hlow, Bool.false_and, Nat.testBit_lt_two_pow
      (hci.trans_le (Nat.pow_le_pow_right (by omega) (by omega)))]

/-- The codewords received when the symbol `k` was replaced: those sent, but for
    the bit of each that was in the symbol. -/
theorem received_eq (hlt : ∀ c ∈ codewords, c < 2 ^ (4 + cr))
    (h : interleave codewords sf cr reduced = .ok symbols) {k v : ℕ} (hk : k < 4 + cr)
    (hreceived : deinterleave (symbols.set k v) sf cr reduced = .ok received) :
    received.length = codewords.length ∧ ∀ i < codewords.length,
      received.getD i 0 = codewords.getD i 0 ∨
        ∃ p < 4 + cr, received.getD i 0 = codewords.getD i 0 ^^^ (1 <<< p) := by
  obtain ⟨hlength, hbits⟩ := testBit_received_eq hlt h hreceived
  refine ⟨hlength, fun i hi => ?_⟩
  have hpos : 0 < 4 + cr := by omega
  -- The place of the bit that the rotation brings into the column `k`.
  set p := (4 + cr - 1 - k + (4 + cr - i % (4 + cr))) % (4 + cr) with hp
  have hsame : ∀ j, j ≠ p → (received.getD i 0).testBit j = (codewords.getD i 0).testBit j := by
    refine fun j hj => hbits i hi j fun hlow hcol => hj ?_
    have hmod := Nat.mod_lt (j + i) hpos
    rw [hp, show 4 + cr - 1 - k = (j + i) % (4 + cr) by omega, Bits.add_mod_back hpos i hlow]
  rcases Bits.eq_or_eq_xor hsame with heq | heq
  · exact .inl heq
  · exact .inr ⟨p, Nat.mod_lt _ hpos, heq⟩

/-- Without a replacement, the codewords received are those sent. -/
theorem received_eq_sent (hlt : ∀ c ∈ codewords, c < 2 ^ (4 + cr))
    (h : interleave codewords sf cr reduced = .ok symbols)
    (hreceived : deinterleave symbols sf cr reduced = .ok received) : received = codewords := by
  obtain ⟨hlength, _⟩ := length_symbols h
  rw [← set_eq_of_length_le (a := 0) hlength.le] at hreceived
  obtain ⟨hreclen, hbits⟩ := testBit_received_eq hlt h hreceived
  refine ext_getElem hreclen fun i hi hi' => Nat.eq_of_testBit_eq fun j => ?_
  have hbit := hbits i hi' j fun _ => by omega
  rwa [getD_eq_getElem _ _ hi, getD_eq_getElem _ _ hi'] at hbit

/-! ## Blocks -/

/-- A block of nibbles, encoded and interleaved. -/
def encodeBlock (nibbles : List ℕ) (sf : ℤ) (cr : ℕ) (reduced : Bool) :
    Except String (List ℕ) := do
  let codewords ← nibbles.mapM (hammingEncode · cr)
  interleave codewords sf cr reduced

/-- A block of symbols, deinterleaved and decoded. -/
def decodeBlock (symbols : List ℕ) (sf : ℤ) (cr : ℕ) (reduced : Bool) :
    Except String (List (ℕ × ℤ)) := do
  let codewords ← deinterleave symbols sf cr reduced
  codewords.mapM (hammingDecode · cr)

/-- The codewords of a list of nibbles. -/
theorem mapM_hammingEncode {cr : ℕ} (hcr : 1 ≤ cr ∧ cr ≤ 4) {nibbles : List ℕ}
    (hnibbles : ∀ n ∈ nibbles, n < 16) : ∃ codewords, nibbles.mapM (hammingEncode · cr) =
      .ok codewords ∧ Forall₂ (fun n c => n < 16 ∧ hammingEncode n cr = .ok c ∧
        c < 2 ^ (4 + cr)) nibbles codewords := by
  induction nibbles with
  | nil => exact ⟨[], rfl, .nil⟩
  | cons n nibbles ih =>
    obtain ⟨codewords, hcodewords, hall⟩ := ih fun m hm => hnibbles m (mem_cons_of_mem _ hm)
    have hlt := hammingEncode_lt cr (by omega) hcr.1 n (hnibbles n mem_cons_self)
    rcases hn : hammingEncode n cr with e | c
    · rw [hn] at hlt
      cases hlt
    · rw [hn] at hlt
      have hc : c < 2 ^ (4 + cr) := of_decide_eq_true (Except.ok.inj hlt)
      refine ⟨c :: codewords, ?_, .cons ⟨hnibbles n mem_cons_self, hn, hc⟩ hall⟩
      rw [mapM_cons, hn, hcodewords]
      rfl

/-- A loop that succeeds on each element gives the results. -/
theorem mapM_of_forall₂ {α β : Type} {f : α → Except String β} {l : List α} {ys : List β}
    (h : Forall₂ (fun a y => f a = .ok y) l ys) : l.mapM f = .ok ys := by
  induction h with
  | nil => rfl
  | cons ha _ ih =>
    rw [mapM_cons, ha, ih]
    rfl

/-- Codewords that decode to given nibbles, with an error at most, do so in a loop. -/
theorem mapM_hammingDecode {cr : ℕ} {nibbles : List ℕ}
    (h : Forall₂ (fun n c => ∃ e : ℤ, (e = 0 ∨ e = 1) ∧ hammingDecode c cr = .ok (n, e))
      nibbles received) : ∃ decoded, received.mapM (hammingDecode · cr) = .ok decoded ∧
        decoded.map Prod.fst = nibbles ∧ ∀ d ∈ decoded, d.2 = 0 ∨ d.2 = 1 := by
  induction h with
  | nil => exact ⟨[], rfl, rfl, by simp⟩
  | @cons n c _ _ hc _ ih =>
    obtain ⟨e, he, hdecode⟩ := hc
    obtain ⟨decoded, hdecoded, hfst, hsnd⟩ := ih
    refine ⟨(n, e) :: decoded, ?_, by rw [map_cons, hfst], ?_⟩
    · rw [mapM_cons, hdecode, hdecoded]
      rfl
    · rintro d hd
      rcases mem_cons.1 hd with rfl | hd
      · exact he
      · exact hsnd d hd

theorem exists_interleave (cr : ℕ) (h : (codewords.length : ℤ) = rdd sf reduced) :
    ∃ symbols, interleave codewords sf cr reduced = .ok symbols := by
  rw [interleave]
  exact ⟨_, if_neg (not_not.2 h)⟩

theorem exists_deinterleave (sf : ℤ) (reduced : Bool) (h : symbols.length = 4 + cr) :
    ∃ received, deinterleave symbols sf cr reduced = .ok received := by
  rw [deinterleave]
  exact ⟨_, if_neg (not_not.2 h)⟩

/-- A burst in one symbol of a block is corrected at the rates 3 and 4, and a
    block received as it was sent gives its nibbles at every rate, for every
    spreading factor. -/
theorem burst_corrected {sf : ℤ} {reduced : Bool} {cr : ℕ} (hcr : 1 ≤ cr ∧ cr ≤ 4)
    {nibbles : List ℕ} (hlength : (nibbles.length : ℤ) = rdd sf reduced)
    (hnibbles : ∀ n ∈ nibbles, n < 16) :
    ∃ symbols, encodeBlock nibbles sf cr reduced = .ok symbols ∧ symbols.length = 4 + cr ∧
      decodeBlock symbols sf cr reduced = .ok (nibbles.map fun n => (n, 0)) ∧
      (cr = 3 ∨ cr = 4 → ∀ k < 4 + cr, ∀ v, ∃ decoded,
        decodeBlock (symbols.set k v) sf cr reduced = .ok decoded ∧
          decoded.map Prod.fst = nibbles ∧ ∀ d ∈ decoded, d.2 = 0 ∨ d.2 = 1) := by
  obtain ⟨codewords, hcodewords, hall⟩ := mapM_hammingEncode hcr hnibbles
  have hlen : nibbles.length = codewords.length := hall.length_eq
  have hlt : ∀ c ∈ codewords, c < 2 ^ (4 + cr) := fun c hc => by
    obtain ⟨i, hi, rfl⟩ := getElem_of_mem hc
    exact ((forall₂_iff_get.1 hall).2 i (by omega) hi).2.2
  have hcount : (codewords.length : ℤ) = rdd sf reduced := by omega
  obtain ⟨symbols, hsymbols⟩ := exists_interleave cr hcount
  obtain ⟨hsymlen, _⟩ := length_symbols hsymbols
  have hencode : encodeBlock nibbles sf cr reduced = .ok symbols := by
    rw [encodeBlock, hcodewords]
    exact hsymbols
  refine ⟨symbols, hencode, hsymlen, ?_, fun hrate k hk v => ?_⟩
  · obtain ⟨received, hreceived⟩ := exists_deinterleave sf reduced hsymlen
    rw [decodeBlock, hreceived, received_eq_sent hlt hsymbols hreceived]
    refine mapM_of_forall₂ (forall₂_map_right_iff.2 (hall.flip.imp ?_))
    rintro c n ⟨hn, hc, _⟩
    have hdecode := hammingDecode_encode cr (by omega) hcr.1 n hn
    rwa [hc] at hdecode
  · have hsetlen : (symbols.set k v).length = 4 + cr := by rw [length_set, hsymlen]
    obtain ⟨received, hreceived⟩ := exists_deinterleave sf reduced hsetlen
    obtain ⟨hreclen, heq⟩ := received_eq hlt hsymbols hk hreceived
    rw [decodeBlock, hreceived]
    refine mapM_hammingDecode (forall₂_iff_get.2 ⟨by omega, fun i hi hi' => ?_⟩)
    obtain ⟨hn, hc, _⟩ := (forall₂_iff_get.1 hall).2 i hi (by omega)
    rw [get_eq_getElem, get_eq_getElem] at hc ⊢
    have hi'' : i < codewords.length := by omega
    have hbit := heq i hi''
    rw [getD_eq_getElem _ _ hi', getD_eq_getElem _ _ hi''] at hbit
    rcases hbit with hbit | ⟨p, hp, hbit⟩
    · have hdecode := hammingDecode_encode cr (by omega) hcr.1 _ hn
      rw [get_eq_getElem, hc] at hdecode
      exact ⟨0, .inl rfl, hbit ▸ hdecode⟩
    · have hdecode := hammingDecode_flip hrate _ hn p hp
      rw [get_eq_getElem, hc] at hdecode
      exact ⟨1, .inr rfl, hbit ▸ hdecode⟩

theorem burst_corrected_sf7 : ∃ symbols, encodeBlock [1, 2, 4, 8, 15, 0, 9] 7 4 false =
    .ok symbols ∧ ∃ decoded, decodeBlock (symbols.set 5 0x55) 7 4 false = .ok decoded ∧
      decoded.map Prod.fst = [1, 2, 4, 8, 15, 0, 9] := by
  have hlength : (([1, 2, 4, 8, 15, 0, 9] : List ℕ).length : ℤ) = rdd 7 false := by decide
  have hrate : 1 ≤ 4 ∧ 4 ≤ 4 := by decide
  obtain ⟨symbols, hencode, _, _, hburst⟩ := burst_corrected hrate hlength (by decide)
  obtain ⟨decoded, hdecoded, hfst, _⟩ := hburst (.inr rfl) 5 (by decide) 0x55
  exact ⟨symbols, hencode, decoded, hdecoded, hfst⟩

end ReticulumPi.Lora
