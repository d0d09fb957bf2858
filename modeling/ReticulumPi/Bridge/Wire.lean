import ReticulumPi.Lib.Utf8

/-!
# Texts within a byte budget, by their bytes

`mtu.py` once more, as it is written: a text is encoded, its bytes are cut, and
what the cut leaves of them is decoded. A text here is any Python `str`; one
with a lone surrogate has no encoding, and then `none` is returned where Python
raises.

What `truncate_for_mtu` returns fits in the budget, and is as much of the header
and the body as does (`built_truncateForMtu`).
-/

namespace ReticulumPi.Bridge.Wire

open PyJson PyCodec List

/-- `b[:n]` -/
def sliceTo (b : List Byte) (n : ℤ) : List Byte :=
  if 0 ≤ n then b.take n.toNat else b.take (b.length - n.natAbs)

/-- `truncate_bytes` -/
def truncateBytes (text : Text) (maxBytes : ℤ) : Option Text := do
  let encoded ← encode text
  if (encoded.length : ℤ) ≤ maxBytes then some text
  else some (decodeIgnore (sliceTo encoded maxBytes))

def ellipsis : Text := text " ..."

/-- `len(ellipsis.encode("utf-8"))` -/
def ellipsisBytes : ℕ := 4

/-- `truncate_for_mtu` -/
def truncateForMtu (header body : Text) (mtu : ℤ) : Option Text :=
  if mtu ≤ 0 then some []
  else do
    let headerBytes := (← encode header).length
    if mtu ≤ headerBytes then truncateBytes header mtu
    else
      let maxBodyBytes := mtu - headerBytes
      let bodyEncoded ← encode body
      if bodyEncoded.length ≤ maxBodyBytes then some (header ++ body)
      else if maxBodyBytes ≤ ellipsisBytes then
        some (header ++ (← truncateBytes body maxBodyBytes))
      else
        let target := maxBodyBytes - ellipsisBytes
        some (header ++ decodeIgnore (sliceTo bodyEncoded target) ++ ellipsis)

example : encode ellipsis = some [0x20, 0x2e, 0x2e, 0x2e] := by decide

/-! ## What is returned -/

theorem longestPrefix_truncateBytes {t : Text} {b : List Byte} (h : encode t = some b) (n : ℕ) :
    ∃ p, truncateBytes t n = some p ∧ LongestPrefix t n p := by
  rw [truncateBytes, h]
  by_cases hfits : b.length ≤ n
  · exact ⟨t, if_pos (Int.ofNat_le.2 hfits), longestPrefix_self ⟨b, h, hfits⟩⟩
  · refine ⟨_, if_neg fun hle => hfits (Int.ofNat_le.1 hle), ?_⟩
    rw [sliceTo, if_pos (Int.natCast_nonneg n)]
    exact longestPrefix_decodeIgnore h n

/-- What a text for `limit` bytes has to be: it fits; it is the header and the
    body where they fit, else the header with the longest part of the body for
    which there is room, before an ellipsis or at the end; and where not even
    the header fits, the longest part of that. -/
structure Built (header body : Text) (limit : ℕ) (r : Text) : Prop where
  fits : Fits r limit
  whole : Fits (header ++ body) limit → r = header ++ body
  cut : ¬Fits (header ++ body) limit → Fits header limit →
    ∃ p dots, r = header ++ p ++ dots ∧ (dots = [] ∨ dots = ellipsis) ∧ p <+: body ∧
      ∀ q, q <+: body → Fits (header ++ q ++ dots) limit → q <+: p
  header_cut : ¬Fits header limit → LongestPrefix header limit r

/-- A header with what fits after it. -/
theorem Built.of_longestPrefix {header body p dots : Text} {h d : List Byte} {limit : ℕ}
    (hh : encode header = some h) (hd : encode dots = some d) (hle : h.length + d.length ≤ limit)
    (hdots : dots = [] ∨ dots = ellipsis) (hp : LongestPrefix body (limit - h.length - d.length) p)
    (hcut : ¬Fits (header ++ body) limit) : Built header body limit (header ++ p ++ dots) := by
  have happend : ∀ q, Fits (header ++ q ++ dots) limit ↔
      Fits q (limit - h.length - d.length) := by
    intro q
    rw [append_assoc, fits_append hh]
    constructor
    · rintro ⟨-, b, hb, hble⟩
      obtain ⟨e, f, he, hf, rfl⟩ := encode_append.1 hb
      cases hd.symm.trans hf
      rw [length_append] at hble
      exact ⟨e, he, by omega⟩
    · rintro ⟨e, he, hele⟩
      refine ⟨by omega, e ++ d, encode_append.2 ⟨e, d, he, hd, rfl⟩, ?_⟩
      rw [length_append]
      omega
  refine ⟨(happend p).2 hp.fits, fun hfits => absurd hfits hcut, fun _ _ => ?_, fun hheader => ?_⟩
  · exact ⟨p, dots, rfl, hdots, hp.isPrefix, fun q hq hfits => hp.longest q hq ((happend q).1 hfits)⟩
  · exact absurd ⟨h, hh, by omega⟩ hheader

/-- Nothing fits in no bytes. -/
theorem built_zero (header body : Text) : Built header body 0 [] := by
  refine ⟨⟨[], rfl, le_rfl⟩, fun h => h.nil_of_zero.symm, fun _ h => ?_, fun _ => ?_⟩
  · obtain rfl := h.nil_of_zero
    refine ⟨[], [], rfl, .inl rfl, nil_prefix, fun q _ hfits => ?_⟩
    rw [append_nil] at hfits
    exact hfits.nil_of_zero ▸ nil_prefix
  · refine ⟨List.nil_prefix, ⟨[], rfl, le_rfl⟩, fun q _ hfits => ?_⟩
    exact hfits.nil_of_zero ▸ nil_prefix

/-- Where the header leaves no room, what fits of it is returned. -/
theorem Built.of_full {header body r : Text} {h : List Byte} {limit : ℕ}
    (hh : encode header = some h) (hfull : limit ≤ h.length) (hr : LongestPrefix header limit r) :
    Built header body limit r := by
  have hroom : limit - h.length = 0 := Nat.sub_eq_zero_of_le hfull
  have hall : Fits header limit → r = header := fun hfits => hr.unique (longestPrefix_self hfits)
  have hnil : ∀ {q}, Fits (header ++ q) limit → q = [] := fun hfits => by
    rw [fits_append hh, hroom] at hfits
    exact hfits.2.nil_of_zero
  refine ⟨hr.fits, fun hfits => ?_, fun _ hfits => ?_, fun _ => hr⟩
  · obtain rfl := hnil hfits
    rw [append_nil] at hfits ⊢
    exact hall hfits
  · refine ⟨[], [], ?_, .inl rfl, nil_prefix, fun q _ hq => ?_⟩
    · rw [append_nil, append_nil, hall hfits]
    · rw [append_nil] at hq
      exact hnil hq ▸ nil_prefix

/-- What is returned where the header leaves room. -/
theorem truncateForMtu_of_lt {header body : Text} {h b : List Byte} {limit : ℕ}
    (hh : encode header = some h) (hb : encode body = some b) (hlt : h.length < limit) :
    ∃ r, truncateForMtu header body limit = some r ∧ Built header body limit r := by
  have hdots : encode ellipsis = some [0x20, 0x2e, 0x2e, 0x2e] := by decide
  have hroom : (limit : ℤ) - h.length = (limit - h.length : ℕ) := by omega
  rw [truncateForMtu, if_neg (by omega), hh]
  simp only [Option.bind_eq_bind, Option.bind_some, hb]
  rw [if_neg (by omega), hroom]
  by_cases hwhole : b.length ≤ limit - h.length
  · refine ⟨header ++ body, if_pos (Int.ofNat_le.2 hwhole), ?_⟩
    have hfits : Fits (header ++ body) limit := (fits_append hh).2 ⟨hlt.le, b, hb, hwhole⟩
    exact ⟨hfits, fun _ => rfl, fun hcut => absurd hfits hcut,
      fun hheader => absurd ⟨h, hh, hlt.le⟩ hheader⟩
  rw [if_neg fun hle => hwhole (Int.ofNat_le.1 hle)]
  have hcut : ¬Fits (header ++ body) limit := fun hfits => by
    obtain ⟨-, b', hb', hle⟩ := (fits_append hh).1 hfits
    cases hb.symm.trans hb'
    exact hwhole hle
  by_cases hsmall : limit - h.length ≤ ellipsisBytes
  · rw [if_pos (Int.ofNat_le.2 hsmall)]
    obtain ⟨p, hp, hlongest⟩ := longestPrefix_truncateBytes hb (limit - h.length)
    refine ⟨header ++ p, by rw [hp]; rfl, ?_⟩
    have hbuilt := Built.of_longestPrefix hh (show encode [] = some [] from rfl) hlt.le (.inl rfl)
      hlongest hcut
    rwa [append_nil] at hbuilt
  · rw [if_neg fun hle => hsmall (Int.ofNat_le.1 hle)]
    rw [ellipsisBytes, Nat.not_le] at hsmall
    have htarget : ((limit - h.length : ℕ) : ℤ) - ellipsisBytes = (limit - h.length - 4 : ℕ) := by
      rw [ellipsisBytes]
      omega
    refine ⟨_, rfl, ?_⟩
    rw [htarget, sliceTo, if_pos (Int.natCast_nonneg _)]
    exact Built.of_longestPrefix hh hdots (by simp only [length_cons, length_nil]; omega)
      (.inr rfl) (longestPrefix_decodeIgnore hb _) hcut

/-- `truncate_for_mtu` returns a text wherever the header and the body have an
    encoding, and what it returns is what fits. -/
theorem built_truncateForMtu (header body : Text) (limit : ℕ) :
    ((encode header).isSome → (encode body).isSome →
        (truncateForMtu header body limit).isSome) ∧
      ∀ r, truncateForMtu header body limit = some r → Built header body limit r := by
  rcases Nat.eq_zero_or_pos limit with rfl | hpos
  · refine ⟨fun _ _ => rfl, fun r hr => ?_⟩
    cases hr
    exact built_zero header body
  rcases hh : encode header with _ | h
  · -- A header without an encoding: Python raises.
    refine ⟨fun hsome => absurd hsome Bool.false_ne_true, fun r hr => ?_⟩
    rw [truncateForMtu, if_neg (by omega), hh] at hr
    cases hr
  rcases Nat.lt_or_ge h.length limit with hlt | hfull
  · rcases hb : encode body with _ | b
    · refine ⟨fun _ hsome => absurd hsome Bool.false_ne_true, fun r hr => ?_⟩
      rw [truncateForMtu, if_neg (by omega), hh] at hr
      simp only [Option.bind_eq_bind, Option.bind_some, hb] at hr
      rw [if_neg (by omega)] at hr
      cases hr
    · obtain ⟨r, hr, hbuilt⟩ := truncateForMtu_of_lt hh hb hlt
      refine ⟨fun _ _ => by rw [hr]; rfl, fun r' hr' => ?_⟩
      cases hr.symm.trans hr'
      exact hbuilt
  · obtain ⟨p, hp, hlongest⟩ := longestPrefix_truncateBytes hh limit
    have hr : truncateForMtu header body limit = some p := by
      rw [truncateForMtu, if_neg (by omega), hh]
      exact (if_pos (Int.ofNat_le.2 hfull)).trans hp
    refine ⟨fun _ _ => by rw [hr]; rfl, fun r' hr' => ?_⟩
    cases hr.symm.trans hr'
    exact Built.of_full hh hfull hlongest

end ReticulumPi.Bridge.Wire
