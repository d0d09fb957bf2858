import ReticulumPi.Lib.PyStr
import ReticulumPi.Weather.Alerts

/-!
# How the lines of the decoder are read

`multimon-ng` prints a SAME header as it was sent: the locations, separated by
hyphens, then a plus sign and the time of purge. `_SAME_RE` wants a hyphen
before the time of purge. So of the pieces between the hyphens one with four
characters must have two more after it, and in a header as it is sent there is
none (`Standard.length_piece`): every such header is counted as a partial one
(`standard_partial`).

The expression is matched by backtracking: each part takes what it can, and
gives the rest to the next one.
-/

namespace ReticulumPi.Weather

/-! ## Regular expressions -/

section Regex

variable {α : Type} (p : Char → Bool) (least n : ℕ) (s text : List Char)

/-- The text goes on with those characters. -/
def literal (next : List Char → Option α) : Option α :=
  if s.isPrefixOf text then next (text.drop s.length) else none

/-- `n` characters of a class. -/
def times (next : List Char → List Char → Option α) : Option α :=
  if (text.take n).length = n ∧ (text.take n).all p then next (text.take n) (text.drop n) else none

/-- As many characters of a class as possible, and at least so many. -/
def greedy (next : List Char → List Char → Option α) : Option α :=
  (List.range' least ((text.takeWhile p).length + 1 - least)).reverse.findSome? fun k =>
    next (text.take k) (text.drop k)

variable {p least n s text} {a : α}

theorem literal_some {next : List Char → Option α} (h : literal s text next = some a) :
    ∃ rest, text = s ++ rest ∧ next rest = some a := by
  rw [literal] at h
  split_ifs at h with hs
  obtain ⟨rest, rfl⟩ := List.isPrefixOf_iff_prefix.1 hs
  rw [List.drop_left] at h
  exact ⟨rest, rfl, h⟩

theorem times_some {next : List Char → List Char → Option α} (h : times p n text next = some a) :
    ∃ taken rest, text = taken ++ rest ∧ taken.length = n ∧ (∀ c ∈ taken, p c = true) ∧
      next taken rest = some a := by
  rw [times] at h
  split_ifs at h with hn
  exact ⟨_, _, (List.take_append_drop n text).symm, hn.1, List.all_eq_true.1 hn.2, h⟩

theorem greedy_some {next : List Char → List Char → Option α}
    (h : greedy p least text next = some a) :
    ∃ taken rest, text = taken ++ rest ∧ next taken rest = some a := by
  obtain ⟨k, -, h⟩ := List.exists_of_findSome?_eq_some h
  exact ⟨_, _, (List.take_append_drop k text).symm, h⟩

end Regex

/-! ## The expression -/

/-- The class `\d`: the decimal digits of all scripts. -/
structure Decimal where
  isDecimal : Char → Bool
  ascii : ∀ c, c.toNat < 128 → isDecimal c = c.isDigit

/-- The groups of a match of `_SAME_RE`, and all of it. -/
structure Match where
  org : List Char
  event : List Char
  fips : List Char
  purge : List Char
  issued : List Char
  callsign : List Char
  raw : List Char
deriving DecidableEq

variable (d : Decimal)

/-- `_SAME_RE.match` -/
def matchSame (line : List Char) : Option Match :=
  literal "EAS:".toList line fun text =>
  greedy PyStr.isSpace 0 text fun _ text =>
  literal "ZCZC-".toList text fun text =>
  times Char.isUpper 3 text fun org text =>
  literal ['-'] text fun text =>
  times Char.isUpper 3 text fun event text =>
  literal ['-'] text fun text =>
  greedy (fun c => d.isDecimal c || c = '+' || c = '-') 1 text fun fips text =>
  literal ['-'] text fun text =>
  times d.isDecimal 4 text fun purge text =>
  literal ['-'] text fun text =>
  times d.isDecimal 7 text fun issued text =>
  literal ['-'] text fun text =>
  greedy (fun c => c.isAlphanum || c = '/') 1 text fun callsign text =>
  let rest := if text.head? = some '-' then text.tail else text
  some { org, event, fips, purge, issued, callsign, raw := line.take (line.length - rest.length) }

/-- `_SAME_RE.search` -/
def searchSame (text : List Char) : Option Match := text.tails.findSome? (matchSame d)

/-- What becomes of a line. -/
inductive Reading where
  | header (m : Match)
  | partialHeader
  | ignored
deriving DecidableEq

/-- `sub in text` -/
def isIn (sub text : List Char) : Bool := text.tails.any (sub.isPrefixOf ·)

/-- One turn of the loop in `_parser_loop`. -/
def readLine (line : List Char) : Reading :=
  let text := PyStr.strip line
  if text = [] then .ignored
  else match searchSame d text with
    | some m => .header m
    | none =>
      if isIn "EAS:".toList text || isIn "ZCZC".toList text then .partialHeader else .ignored

/-! ## Headers as they are sent -/

structure Standard where
  org : List Char
  event : List Char
  locations : List (List Char)
  purge : List Char
  issued : List Char
  callsign : List Char
  org_letters : org.length = 3 ∧ ∀ c ∈ org, c.isUpper = true
  event_letters : event.length = 3 ∧ ∀ c ∈ event, c.isUpper = true
  locations_ne : locations ≠ []
  locations_digits : ∀ l ∈ locations, l.length = 6 ∧ ∀ c ∈ l, c.isDigit = true
  purge_digits : purge.length = 4 ∧ ∀ c ∈ purge, c.isDigit = true
  issued_digits : issued.length = 7 ∧ ∀ c ∈ issued, c.isDigit = true
  callsign_ne : callsign ≠ []
  callsign_chars : ∀ c ∈ callsign, (c.isAlphanum || c = '/') = true

/-- What the line of a header begins with. -/
def preamble : List Char := ['E', 'A', 'S', ':', ' ', 'Z', 'C', 'Z', 'C']

/-- The line of the header. -/
def Standard.line (h : Standard) : List Char :=
  preamble ++ '-' :: (h.org ++ '-' :: (h.event ++ '-' ::
    (['-'].intercalate h.locations ++ '+' :: (h.purge ++ '-' :: (h.issued ++ '-' ::
      (h.callsign ++ ['-']))))))

/-- The header is received as it was sent. -/
structure Standard.ReceivedAs (h : Standard) (m : Match) : Prop where
  org : m.org = h.org
  event : m.event = h.event
  locations : parseFipsCodes (String.ofList m.fips) = h.locations.map String.ofList
  purge : m.purge = h.purge
  issued : m.issued = h.issued
  callsign : m.callsign = h.callsign

variable {d} {m : Match} {text : List Char} {h : Standard}

theorem hyphen_not_mem {p : Char → Bool} {l : List Char} (hp : p '-' = false)
    (hl : ∀ c ∈ l, p c = true) : '-' ∉ l := fun hmem => by
  rw [hl _ hmem] at hp
  cases hp

/-- Four characters between two hyphens, and another hyphen after them: what a match needs. -/
theorem matchSame_some (hm : matchSame d text = some m) :
    ∃ before purge issued rest, purge.length = 4 ∧ '-' ∉ purge ∧
      text = before ++ '-' :: (purge ++ '-' :: (issued ++ '-' :: rest)) := by
  obtain ⟨text, rfl, hm⟩ := literal_some hm
  obtain ⟨space, text, rfl, hm⟩ := greedy_some hm
  obtain ⟨text, rfl, hm⟩ := literal_some hm
  obtain ⟨org, text, rfl, -, -, hm⟩ := times_some hm
  obtain ⟨text, rfl, hm⟩ := literal_some hm
  obtain ⟨event, text, rfl, -, -, hm⟩ := times_some hm
  obtain ⟨text, rfl, hm⟩ := literal_some hm
  obtain ⟨fips, text, rfl, hm⟩ := greedy_some hm
  obtain ⟨text, rfl, hm⟩ := literal_some hm
  obtain ⟨purge, text, rfl, hlen, hdigits, hm⟩ := times_some hm
  obtain ⟨text, rfl, hm⟩ := literal_some hm
  obtain ⟨issued, text, rfl, -, -, hm⟩ := times_some hm
  obtain ⟨text, rfl, -⟩ := literal_some hm
  have hpurge : '-' ∉ purge := hyphen_not_mem (d.ascii '-' (by decide)) hdigits
  refine ⟨"EAS:".toList ++ (space ++ ("ZCZC-".toList ++ (org ++ '-' :: (event ++ '-' :: fips)))),
    purge, issued, text, hlen, hpurge, ?_⟩
  simp only [List.append_assoc, List.cons_append, List.nil_append]

/-- So one of the pieces between the hyphens has four characters, and two pieces after it. -/
theorem searchSame_some (hm : searchSame d text = some m) :
    ∃ pieces purge last, purge.length = 4 ∧ 2 ≤ last.length ∧
      text.splitOn '-' = pieces ++ purge :: last := by
  obtain ⟨tail, htail, htext⟩ := List.exists_of_findSome?_eq_some hm
  obtain ⟨start, rfl⟩ := (List.mem_tails _ _).1 htail
  obtain ⟨before, purge, issued, rest, hlen, hpurge, rfl⟩ := matchSame_some htext
  have hlast : (issued ++ '-' :: rest).splitOn '-' = issued.splitOn '-' ++ rest.splitOn '-' :=
    List.splitOn_append_cons_self _ _
  refine ⟨(start ++ before).splitOn '-', purge, (issued ++ '-' :: rest).splitOn '-', hlen, ?_, ?_⟩
  · have hissued := List.length_pos_of_ne_nil (List.splitOn_ne_nil '-' issued)
    have hrest := List.length_pos_of_ne_nil (List.splitOn_ne_nil '-' rest)
    rw [hlast, List.length_append]
    omega
  · rw [← List.append_assoc, List.splitOn_append_cons_self,
      List.splitOn_append_cons_self_of_not_mem hpurge]

/-! ## None of them is read -/

/-- The last location is one piece with the time of purge. -/
theorem length_location {locations : List (List Char)} {purge l : List Char}
    (hne : locations ≠ []) (hlocations : ∀ l ∈ locations, l.length = 6 ∧ '-' ∉ l)
    (hpurge : '-' ∉ purge)
    (hl : l ∈ (['-'].intercalate locations ++ '+' :: purge).splitOn '-') : 6 ≤ l.length := by
  induction locations with
  | nil => exact absurd rfl hne
  | cons location locations ih =>
    obtain ⟨hlocation, hrest⟩ := List.forall_mem_cons.1 hlocations
    cases locations with
    | nil =>
      rw [List.intercalate_singleton, List.splitOn_eq_singleton (by simp [hlocation.2, hpurge]),
        List.mem_singleton] at hl
      rw [hl, List.length_append]
      omega
    | cons next locations =>
      rw [List.intercalate_cons_cons, List.append_assoc, List.append_assoc, List.singleton_append,
        List.splitOn_append_cons_self_of_not_mem hlocation.2, List.mem_cons] at hl
      rcases hl with rfl | hl
      · exact hlocation.1.ge
      · exact ih (List.cons_ne_nil _ _) hrest hl

/-- Of the pieces of a header, only the last two may have four characters. -/
theorem Standard.length_piece (h : Standard) : ∃ pieces,
    h.line.splitOn '-' = pieces ++ [h.callsign, []] ∧ ∀ l ∈ pieces, l.length ≠ 4 := by
  have hupper : Char.isUpper '-' = false := by decide
  have hdigit : Char.isDigit '-' = false := by decide
  have hcallsign : '-' ∉ h.callsign := hyphen_not_mem (by decide) h.callsign_chars
  have hpurge := hyphen_not_mem hdigit h.purge_digits.2
  refine ⟨preamble :: h.org :: h.event ::
    ((['-'].intercalate h.locations ++ '+' :: h.purge).splitOn '-' ++ [h.issued]), ?_, ?_⟩
  · rw [line, List.splitOn_append_cons_self_of_not_mem (by decide),
      List.splitOn_append_cons_self_of_not_mem (hyphen_not_mem hupper h.org_letters.2),
      List.splitOn_append_cons_self_of_not_mem (hyphen_not_mem hupper h.event_letters.2),
      ← List.cons_append, ← List.append_assoc, List.splitOn_append_cons_self,
      List.splitOn_append_cons_self_of_not_mem (hyphen_not_mem hdigit h.issued_digits.2),
      List.splitOn_append_cons_self_of_not_mem hcallsign, List.splitOn_nil]
    simp only [List.cons_append, List.append_assoc, List.nil_append]
  · intro l hl
    simp only [List.mem_cons, List.mem_append, List.not_mem_nil, or_false] at hl
    rcases hl with rfl | rfl | rfl | hl | rfl
    · decide
    · rw [h.org_letters.1]
      decide
    · rw [h.event_letters.1]
      decide
    · have hle := length_location h.locations_ne
        (fun l hl => ⟨(h.locations_digits l hl).1, hyphen_not_mem hdigit (h.locations_digits l hl).2⟩)
        hpurge hl
      omega
    · rw [h.issued_digits.1]
      decide

/-- The expression is not found in a header. -/
theorem searchSame_line (d : Decimal) (h : Standard) : searchSame d h.line = none := by
  cases hm : searchSame d h.line with
  | none => rfl
  | some m =>
    obtain ⟨before, purge, last, hlen, hlast, hsplit⟩ := searchSame_some hm
    obtain ⟨pieces, hpieces, hne⟩ := h.length_piece
    refine absurd hlen (hne purge ?_)
    -- The piece is not one of the last two.
    have hpre : before ++ [purge] <+: pieces := by
      have hfirst : before ++ [purge] <+: h.line.splitOn '-' := by
        rw [hsplit]
        exact ⟨last, by rw [List.append_assoc, List.singleton_append]⟩
      refine List.prefix_of_prefix_length_le hfirst ⟨_, hpieces.symm⟩ ?_
      have heq := congrArg List.length (hsplit.symm.trans hpieces)
      simp only [List.length_append, List.length_cons, List.length_nil] at heq ⊢
      omega
    exact hpre.subset (List.mem_append_right _ (List.mem_singleton_self _))

theorem strip_line (h : Standard) : PyStr.strip (h.line ++ ['\n']) = h.line := by
  obtain ⟨init, hline⟩ : ∃ init, h.line = 'E' :: (init ++ ['-']) := by
    refine ⟨preamble.tail ++ '-' :: (h.org ++ '-' :: (h.event ++ '-' ::
      (['-'].intercalate h.locations ++ '+' :: (h.purge ++ '-' :: (h.issued ++ '-' ::
        h.callsign))))), ?_⟩
    simp only [Standard.line, preamble, List.tail_cons, List.append_assoc, List.cons_append]
  have hleft : PyStr.lstrip (h.line ++ ['\n']) = h.line ++ ['\n'] := by
    rw [hline]
    rfl
  rw [PyStr.strip, hleft, PyStr.rstrip, List.rdropWhile_concat_pos _ _ _ (by decide), hline,
    ← List.cons_append, List.rdropWhile_concat_neg _ _ _ (by decide)]

/-- No header as it is sent is read: every one is counted as a partial header. -/
theorem standard_partial (d : Decimal) (h : Standard) :
    (¬ ∃ m, readLine d (h.line ++ ['\n']) = .header m ∧ h.ReceivedAs m) ∧
      readLine d (h.line ++ ['\n']) = .partialHeader := by
  have hread : readLine d (h.line ++ ['\n']) = .partialHeader := by
    have hin : isIn "EAS:".toList h.line = true :=
      List.any_eq_true.2 ⟨h.line, (List.mem_tails _ _).2 (List.suffix_refl _), rfl⟩
    have hne : h.line ≠ [] := List.cons_ne_nil _ _
    rw [readLine, strip_line, if_neg hne, searchSame_line]
    dsimp only
    rw [hin, Bool.true_or, if_pos rfl]
  refine ⟨?_, hread⟩
  rintro ⟨m, hm, -⟩
  cases hread.symm.trans hm

/-- The digits of ASCII only. -/
def asciiDecimal : Decimal := ⟨Char.isDigit, fun _ _ => rfl⟩

/-- A tornado warning for two counties. -/
def tornadoHeader : Standard where
  org := "WXR".toList
  event := "TOR".toList
  locations := ["029510".toList, "029511".toList]
  purge := "0030".toList
  issued := "1231456".toList
  callsign := "KSPD/NWS".toList
  org_letters := by simp
  event_letters := by simp
  locations_ne := by decide
  locations_digits := by simp
  purge_digits := by simp
  issued_digits := by simp
  callsign_ne := by decide
  callsign_chars := by simp

theorem tornado_partial :
    ¬ ∃ m, readLine asciiDecimal (tornadoHeader.line ++ ['\n']) = .header m ∧
      tornadoHeader.ReceivedAs m := by
  have hread : readLine asciiDecimal (tornadoHeader.line ++ ['\n']) = .partialHeader := by
    decide +kernel
  rintro ⟨m, hm, -⟩
  cases hread.symm.trans hm

/-- With a hyphen for the plus sign the time of purge is found. -/
example : (searchSame asciiDecimal
    "EAS: ZCZC-WXR-TOR-029510-029511-0030-1231456-KSPD/NWS-".toList).map Match.fips =
      some "029510-029511".toList := by
  decide

end ReticulumPi.Weather
