import Mathlib.Algebra.GroupWithZero.Nat
import Mathlib.Data.List.Pairwise
import ReticulumPi.Lib.Dict

/-!
# The satellites in view

A receiver lists the satellites of each constellation in a group of numbered GSV
sentences, up to four in each. What a talker has sent since its last sentence
number 1 is gathered, and the sentence n of n, where the sentence number 1 was
one of n, makes everything that has been gathered the satellites in view, of all
talkers.

The sentences between are not counted. So the satellites in view are those of
complete groups in exactly those runs in which, whenever a last sentence comes,
every talker has listed the satellites of a complete group since its last
sentence number 1 (`shows_iff`). One lost sentence is enough to break this.
-/

namespace ReticulumPi.Gps

open List

/-! ## Sentences -/

/-- A place for a satellite in a GSV sentence, as `_int_or_none` reads its fields. -/
structure SvSlot where
  svPrnNum : Option ℤ := none
  elevationDeg : Option ℤ := none
  azimuth : Option ℤ := none
  snr : Option ℤ := none

structure Satellite where
  prn : ℤ
  talker : String
  elevationDeg : Option ℤ
  azimuthDeg : Option ℤ
  snrDb : Option ℤ

/-- A GSV sentence, its two numbers as `int` reads them. -/
structure Gsv where
  talker : String
  numMessages : Option ℤ
  msgNum : Option ℤ
  sv1 : SvSlot := {}
  sv2 : SvSlot := {}
  sv3 : SvSlot := {}
  sv4 : SvSlot := {}

namespace Gsv

variable (msg : Gsv)

def talkerName : String := if msg.talker = "" then "GP" else msg.talker

/-- The number of sentences in the group and the number of this one. -/
def numbers : Option (ℤ × ℤ) :=
  match msg.numMessages, msg.msgNum with
  | some numMsgs, some msgNum => some (numMsgs, msgNum)
  | _, _ => none

def satellites : List Satellite :=
  [msg.sv1, msg.sv2, msg.sv3, msg.sv4].filterMap fun sv => sv.svPrnNum.map fun prn =>
    ⟨prn, msg.talkerName, sv.elevationDeg, sv.azimuth, sv.snr⟩

end Gsv

/-! ## What is gathered -/

/-- What the receiver knows of the satellites in view. -/
structure InView where
  gsvAccum : Dict String (List Satellite) := ∅
  gsvExpected : Dict String ℤ := ∅
  satellitesInView : List Satellite := []

/-- `_gsv_accum` with the satellites of a sentence, in the group `gsvAccum`. -/
def extendAccum (gsvAccum : Dict String (List Satellite)) (msg : Gsv) :
    Dict String (List Satellite) :=
  gsvAccum.set msg.talkerName ((gsvAccum.get? msg.talkerName).getD [] ++ msg.satellites)

/-- `_apply_gsv` -/
def InView.applyGsv (s : InView) (msg : Gsv) : InView :=
  match msg.numbers with
  | none => s
  | some (numMsgs, msgNum) =>
    let accum := if msgNum = 1 then s.gsvAccum.set msg.talkerName [] else s.gsvAccum
    let expected :=
      if msgNum = 1 then s.gsvExpected.set msg.talkerName numMsgs else s.gsvExpected
    let accum := extendAccum accum msg
    if msgNum = numMsgs ∧ expected.get? msg.talkerName = some numMsgs then
      ⟨accum, expected, accum.values.flatten⟩
    else ⟨accum, expected, s.satellitesInView⟩

/-- What is known after these sentences, the last of which stands first. -/
def inViewAfter : List Gsv → InView
  | [] => {}
  | msg :: earlier => (inViewAfter earlier).applyGsv msg

/-! ## Complete groups -/

variable (sentences : List Gsv)

/-- The sentences of a talker. -/
def ofTalker (talker : String) : List Gsv :=
  sentences.filter fun msg => msg.talkerName = talker

/-- The sentences 1 to n of n, in order. -/
def IsGroup (group : List Gsv) : Prop :=
  group ≠ [] ∧ group.map Gsv.numbers =
    (List.range group.length).map fun i : ℕ => some ((group.length : ℤ), (i : ℤ) + 1)
deriving Decidable

/-- The last complete group of a talker, empty where there is none, from all its
    sentences, the last of which stands first. -/
def lastGroup : List Gsv → List Gsv
  | [] => []
  | msg :: earlier =>
    let size := match msg.numbers with
      | some (numMsgs, _) => numMsgs.toNat
      | none => 0
    let group := ((msg :: earlier).take size).reverse
    if IsGroup group then group else lastGroup earlier

/-- The satellites of the last complete group of a talker. -/
def complete (talker : String) : List Satellite :=
  (lastGroup (ofTalker sentences talker)).flatMap Gsv.satellites

/-- What is claimed of the satellites in view after these sentences: they are
    those of the last complete groups; so none occurs twice where none does in a
    group; and there are no more than in a group of each talker. -/
structure Shows (view : List Satellite) : Prop where
  groups : ∃ talkers : List String, talkers.Nodup ∧
    (∀ t, complete sentences t ≠ [] → t ∈ talkers) ∧
    view = talkers.flatMap (complete sentences)
  distinct : (∀ t, ((complete sentences t).map Satellite.prn).Nodup) →
    (view.map fun sat => (sat.talker, sat.prn)).Nodup
  bounded : ∃ talkers : List String, talkers.Nodup ∧
    view.length ≤ 4 * (talkers.map fun t => (lastGroup (ofTalker sentences t)).length).sum

/-! ## What is gathered of a talker -/

/-- The sentences of a talker since its last sentence number 1, or all, the first
    of which stands first. -/
def sinceFirst : List Gsv → List Gsv
  | [] => []
  | msg :: earlier =>
    match msg.numbers with
    | none => sinceFirst earlier
    | some (_, msgNum) => if msgNum = 1 then [msg] else sinceFirst earlier ++ [msg]

/-- How many sentences the last sentence number 1 of a talker announces. -/
def announced : List Gsv → Option ℤ
  | [] => none
  | msg :: earlier =>
    match msg.numbers with
    | none => announced earlier
    | some (numMsgs, msgNum) => if msgNum = 1 then some numMsgs else announced earlier

/-- The satellites that a talker has listed since its last sentence number 1. -/
def gathered (talker : String) : List Satellite :=
  (sinceFirst (ofTalker sentences talker)).flatMap Gsv.satellites

/-- The last sentence is one of number n of n, and so many were announced. -/
def Closes : List Gsv → Prop
  | [] => False
  | msg :: earlier => ∃ n, msg.numbers = some (n, n) ∧
    announced (ofTalker (msg :: earlier) msg.talkerName) = some n

section Talkers

variable {msg : Gsv} {earlier sentences group : List Gsv} {t : String}

theorem ofTalker_cons_self : ofTalker (msg :: earlier) msg.talkerName =
    msg :: ofTalker earlier msg.talkerName := filter_cons_of_pos (by simp)

theorem ofTalker_cons_of_ne (h : t ≠ msg.talkerName) :
    ofTalker (msg :: earlier) t = ofTalker earlier t :=
  filter_cons_of_neg (by simpa using h.symm)

theorem sinceFirst_subset : ∀ sentences : List Gsv, sinceFirst sentences ⊆ sentences
  | [] => Subset.refl _
  | msg :: earlier => by
    have ih := subset_cons_of_subset msg (sinceFirst_subset earlier)
    rw [sinceFirst]
    split
    · exact ih
    · split_ifs
      · simp
      · exact append_subset.2 ⟨ih, by simp⟩

theorem lastGroup_subset : ∀ sentences : List Gsv, lastGroup sentences ⊆ sentences
  | [] => Subset.refl _
  | msg :: earlier => by
    have ih := subset_cons_of_subset msg (lastGroup_subset earlier)
    rw [lastGroup]
    split_ifs
    · exact fun x hx => mem_of_mem_take (mem_reverse.1 hx)
    · exact ih

theorem talker_of_mem_flatMap (h : group ⊆ ofTalker sentences t) {sat : Satellite}
    (hsat : sat ∈ group.flatMap Gsv.satellites) : sat.talker = t := by
  obtain ⟨msg, hmsg, hsat⟩ := mem_flatMap.1 hsat
  obtain ⟨sv, -, hsat⟩ := mem_filterMap.1 hsat
  obtain ⟨prn, -, rfl⟩ := Option.map_eq_some_iff.1 hsat
  exact of_decide_eq_true (mem_filter.1 (h hmsg)).2

theorem talker_of_mem_gathered {sat : Satellite} (h : sat ∈ gathered sentences t) :
    sat.talker = t := talker_of_mem_flatMap (sinceFirst_subset _) h

theorem talker_of_mem_complete {sat : Satellite} (h : sat ∈ complete sentences t) :
    sat.talker = t := talker_of_mem_flatMap (lastGroup_subset _) h

end Talkers

/-! ## The groups -/

section Groups

variable {msg : Gsv} {earlier group : List Gsv}

/-- A complete group begins with its sentence number 1, and no other of it has
    that number. -/
theorem IsGroup.announced (h : IsGroup group) :
    announced (group.reverse ++ earlier) = some (group.length : ℤ) := by
  obtain ⟨hne, hnumbers⟩ := h
  obtain ⟨first, rest, rfl⟩ := exists_cons_of_ne_nil hne
  rw [length_cons, range_succ_eq_map, map_cons, map_cons,
    List.map_map] at hnumbers
  obtain ⟨hfirst, hrest⟩ := List.cons.inj hnumbers
  have hlater : ∀ msg ∈ rest.reverse, ∃ n k : ℤ, msg.numbers = some (n, k) ∧ k ≠ 1 := by
    intro msg hmsg
    have hmem := List.mem_map_of_mem (f := Gsv.numbers) (mem_reverse.1 hmsg)
    rw [hrest] at hmem
    obtain ⟨i, -, hi⟩ := List.mem_map.1 hmem
    exact ⟨_, _, hi.symm, by simp only [Nat.succ_eq_add_one]; omega⟩
  rw [reverse_cons, append_assoc, singleton_append]
  generalize rest.reverse = later at hlater
  induction later with
  | nil =>
    rw [nil_append, Gps.announced, hfirst]
    simp
  | cons msg later ih =>
    obtain ⟨n, k, hmsg, hk⟩ := hlater msg mem_cons_self
    rw [cons_append, Gps.announced, hmsg]
    dsimp only
    rw [if_neg hk]
    exact ih fun msg hmsg => hlater msg (mem_cons_of_mem _ hmsg)

/-- The last sentence of a complete group has the number of its sentences. -/
theorem IsGroup.numbers (h : IsGroup (group ++ [msg])) :
    msg.numbers = some (((group ++ [msg]).length : ℤ), ((group ++ [msg]).length : ℤ)) := by
  have hnumbers := h.2
  rw [length_append, length_singleton, range_succ, map_append, map_append,
    map_singleton, map_singleton] at hnumbers
  have hlast := append_inj_right' hnumbers rfl
  rw [length_append, length_singleton, (List.cons.inj hlast).1]
  simp

/-- Where a group of the talker ends, the sentence closes it. -/
theorem closes_of_lastGroup_ne
    (h : lastGroup (ofTalker (msg :: earlier) msg.talkerName) ≠
      lastGroup (ofTalker earlier msg.talkerName)) :
    Closes (msg :: earlier) := by
  rw [ofTalker_cons_self, lastGroup] at h
  generalize (match msg.numbers with | some (numMsgs, _) => numMsgs.toNat | none => 0) = size at h
  split_ifs at h with hgroup
  rcases size with _ | size
  · exact absurd rfl hgroup.1
  · have hannounced : announced (_ ++ (msg :: ofTalker earlier msg.talkerName).drop (size + 1)) = _ :=
      hgroup.announced
    rw [reverse_reverse, take_append_drop, take_succ_cons, reverse_cons,
      ← ofTalker_cons_self] at hannounced
    rw [take_succ_cons, reverse_cons] at hgroup
    exact ⟨_, hgroup.numbers, hannounced⟩
  · exact absurd rfl h

theorem lastGroup_cons_of_not_closes (h : ¬ Closes (msg :: earlier)) (t : String) :
    lastGroup (ofTalker (msg :: earlier) t) = lastGroup (ofTalker earlier t) := by
  by_cases ht : t = msg.talkerName
  · subst ht
    by_contra hne
    exact h (closes_of_lastGroup_ne hne)
  · rw [ofTalker_cons_of_ne ht]

end Groups

/-! ## The receiver -/

section Receiver

variable {msg : Gsv} {earlier sentences : List Gsv} {t : String}

theorem get?_extendAccum {accum : Dict String (List Satellite)} :
    ((extendAccum accum msg).get? t).getD [] =
      if t = msg.talkerName then (accum.get? t).getD [] ++ msg.satellites
      else (accum.get? t).getD [] := by
  rw [extendAccum, Dict.get?_set]
  split_ifs with ht
  · rw [ht]
    rfl
  · rfl

/-- What is gathered of a talker, and what it has announced. -/
theorem inViewAfter_spec (sentences : List Gsv) (t : String) :
    ((inViewAfter sentences).gsvAccum.get? t).getD [] = gathered sentences t ∧
      (inViewAfter sentences).gsvExpected.get? t = announced (ofTalker sentences t) := by
  induction sentences with
  | nil => exact ⟨rfl, rfl⟩
  | cons msg earlier ih =>
    obtain ⟨haccum, hexpected⟩ := ih
    rw [inViewAfter, InView.applyGsv, gathered]
    rcases hnumbers : msg.numbers with _ | ⟨numMsgs, msgNum⟩
    · -- The sentence cannot be read.
      by_cases ht : t = msg.talkerName
      · rw [ht, ofTalker_cons_self, sinceFirst, announced, hnumbers, ← ht]
        exact ⟨haccum, hexpected⟩
      · rw [ofTalker_cons_of_ne ht]
        exact ⟨haccum, hexpected⟩
    · -- Whether or not it closes a group, the same is gathered.
      rw [apply_ite InView.gsvAccum, apply_ite InView.gsvExpected, ite_self, ite_self,
        get?_extendAccum]
      by_cases ht : t = msg.talkerName
      · rw [if_pos ht, ht, ofTalker_cons_self, sinceFirst, announced, hnumbers, ← ht]
        dsimp only
        split_ifs
        · rw [Dict.get?_set_self, Dict.get?_set_self, flatMap_singleton]
          exact ⟨rfl, rfl⟩
        · rw [haccum, flatMap_append, flatMap_singleton]
          exact ⟨rfl, hexpected⟩
      · rw [if_neg ht, ofTalker_cons_of_ne ht]
        split_ifs
        · rw [Dict.get?_set_of_ne ht, Dict.get?_set_of_ne ht]
          exact ⟨haccum, hexpected⟩
        · exact ⟨haccum, hexpected⟩

theorem closes_iff {numMsgs msgNum : ℤ} (h : msg.numbers = some (numMsgs, msgNum)) :
    Closes (msg :: earlier) ↔ msgNum = numMsgs ∧
      announced (ofTalker (msg :: earlier) msg.talkerName) = some numMsgs := by
  constructor
  · rintro ⟨n, hn, hannounced⟩
    cases h.symm.trans hn
    exact ⟨rfl, hannounced⟩
  · rintro ⟨rfl, hannounced⟩
    exact ⟨_, h, hannounced⟩

/-- The sentence that closes a group makes everything that is gathered the
    satellites in view, and no other does anything to them. -/
theorem satellitesInView_cons (msg : Gsv) (earlier : List Gsv) :
    (Closes (msg :: earlier) ∧ (inViewAfter (msg :: earlier)).satellitesInView =
        (inViewAfter (msg :: earlier)).gsvAccum.values.flatten) ∨
      (¬ Closes (msg :: earlier) ∧ (inViewAfter (msg :: earlier)).satellitesInView =
        (inViewAfter earlier).satellitesInView) := by
  have hexpected := (inViewAfter_spec (msg :: earlier) msg.talkerName).2
  rw [inViewAfter, InView.applyGsv] at hexpected ⊢
  rcases hnumbers : msg.numbers with _ | ⟨numMsgs, msgNum⟩
  · refine .inr ⟨fun hclose => ?_, rfl⟩
    obtain ⟨n, hn, -⟩ := hclose
    cases hnumbers.symm.trans hn
  · rw [hnumbers] at hexpected
    dsimp only at hexpected ⊢
    rw [apply_ite InView.gsvExpected, ite_self] at hexpected
    rw [hexpected, closes_iff hnumbers]
    by_cases hclose : msgNum = numMsgs ∧
        announced (ofTalker (msg :: earlier) msg.talkerName) = some numMsgs
    · rw [if_pos hclose]
      exact .inl ⟨hclose, rfl⟩
    · rw [if_neg hclose]
      exact .inr ⟨hclose, rfl⟩

/-- The satellites in view after the end of a group. -/
theorem flatten_gsvAccum (sentences : List Gsv) :
    (inViewAfter sentences).gsvAccum.values.flatten =
      (inViewAfter sentences).gsvAccum.keys.flatMap (gathered sentences) := by
  rw [Dict.values, Dict.keys, flatMap_map, ← flatMap_def]
  refine flatMap_congr fun e he => ?_
  rw [← (inViewAfter_spec sentences e.1).1, Dict.get?_eq_some_iff.2 he]
  rfl

/-- What was gathered of a talker is of a key. -/
theorem mem_keys_of_gathered_ne (h : gathered sentences t ≠ []) :
    t ∈ (inViewAfter sentences).gsvAccum.keys := by
  rw [Dict.mem_keys]
  rcases hget : (inViewAfter sentences).gsvAccum.get? t with _ | l
  · rw [← (inViewAfter_spec sentences t).1, hget] at h
    exact absurd rfl h
  · exact ⟨l, rfl⟩

end Receiver

/-! ## The result -/

section Result

variable {sentences : List Gsv} {view : List Satellite} {t : String}

/-- The satellites of one of the talkers. -/
theorem filter_flatMap {talkers : List String} {f : String → List Satellite}
    (hnodup : talkers.Nodup) (hf : ∀ t, ∀ sat ∈ f t, sat.talker = t)
    (hall : f t ≠ [] → t ∈ talkers) :
    (talkers.flatMap f).filter (fun sat => sat.talker = t) = f t := by
  rw [List.filter_flatMap]
  have hother : ∀ t' ≠ t, (f t').filter (fun sat => sat.talker = t) = [] := fun t' ht' =>
    List.filter_eq_nil_iff.2 fun sat hsat => by simpa [hf t' sat hsat] using ht'
  have hself : (f t).filter (fun sat => sat.talker = t) = f t :=
    filter_eq_self.2 fun sat hsat => by simpa using hf t sat hsat
  by_cases ht : t ∈ talkers
  · obtain ⟨before, after, rfl⟩ := append_of_mem ht
    have hapart : t ∉ before ∧ t ∉ after := by
      rw [nodup_append, nodup_cons] at hnodup
      exact ⟨fun hb => hnodup.2.2 t hb t mem_cons_self rfl, hnodup.2.1.1⟩
    rw [flatMap_append, flatMap_cons, hself,
      flatMap_eq_nil_iff.2 fun t' h' => hother t' fun heq => hapart.1 (heq ▸ h'),
      flatMap_eq_nil_iff.2 fun t' h' => hother t' fun heq => hapart.2 (heq ▸ h'),
      nil_append, append_nil]
  · rw [not_imp_comm.1 hall ht]
    exact flatMap_eq_nil_iff.2 fun t' h' => hother t' fun heq => ht (heq ▸ h')

/-- What was gathered is of complete groups, where the satellites in view are. -/
theorem Shows.gathered_eq (h : Shows sentences (inViewAfter sentences).satellitesInView)
    (hclose : Closes sentences) (t : String) : gathered sentences t = complete sentences t := by
  obtain ⟨talkers, hnodup, hall, hview⟩ := h.groups
  have hgathered : (inViewAfter sentences).satellitesInView =
      (inViewAfter sentences).gsvAccum.keys.flatMap (gathered sentences) := by
    rcases sentences with _ | ⟨msg, earlier⟩
    · cases hclose
    · rw [← flatten_gsvAccum]
      exact ((satellitesInView_cons msg earlier).resolve_right fun h => h.1 hclose).2
  calc gathered sentences t
    _ = ((inViewAfter sentences).satellitesInView).filter (fun sat => sat.talker = t) := by
      have hkeys : (inViewAfter sentences).gsvAccum.keys.Nodup :=
        (inViewAfter sentences).gsvAccum.nodup
      rw [hgathered, filter_flatMap hkeys
        (fun t sat hsat => talker_of_mem_gathered hsat) mem_keys_of_gathered_ne]
    _ = complete sentences t := by
      rw [hview, filter_flatMap hnodup (fun t sat hsat => talker_of_mem_complete hsat) (hall t)]

theorem length_flatMap_satellites (group : List Gsv) :
    (group.flatMap Gsv.satellites).length ≤ 4 * group.length := by
  induction group with
  | nil => simp
  | cons msg group ih =>
    have hmsg : msg.satellites.length ≤ 4 := length_filterMap_le _ _
    rw [flatMap_cons, length_append, length_cons]
    omega

theorem length_flatMap_complete (talkers : List String) :
    (talkers.flatMap (complete sentences)).length ≤
      4 * (talkers.map fun t => (lastGroup (ofTalker sentences t)).length).sum := by
  induction talkers with
  | nil => simp
  | cons t talkers ih =>
    have ht := length_flatMap_satellites (lastGroup (ofTalker sentences t))
    rw [flatMap_cons, length_append, map_cons, sum_cons, complete]
    omega

/-- Satellites of complete groups have the properties that are claimed. -/
theorem Shows.of_groups {talkers : List String} (hnodup : talkers.Nodup)
    (hall : ∀ t, complete sentences t ≠ [] → t ∈ talkers)
    (hview : view = talkers.flatMap (complete sentences)) : Shows sentences view where
  groups := ⟨talkers, hnodup, hall, hview⟩
  distinct := by
    intro hdistinct
    rw [hview, map_flatMap, List.nodup_flatMap]
    refine ⟨fun t _ => ?_, hnodup.imp fun {t t'} hne sat hsat hsat' => ?_⟩
    · refine Nodup.of_map Prod.snd ?_
      rw [List.map_map]
      exact hdistinct t
    · obtain ⟨sat₁, hmem₁, rfl⟩ := List.mem_map.1 hsat
      obtain ⟨sat₂, hmem₂, heq⟩ := List.mem_map.1 hsat'
      refine hne ?_
      rw [← talker_of_mem_complete hmem₁, ← talker_of_mem_complete hmem₂, (Prod.mk.inj heq).1]
  bounded := ⟨talkers, hnodup, hview ▸ length_flatMap_complete talkers⟩

/-- The sentences between two ends of groups change nothing. -/
theorem Shows.cons {msg : Gsv} (h : Shows sentences view) (hclose : ¬ Closes (msg :: sentences)) :
    Shows (msg :: sentences) view := by
  have hsame : complete (msg :: sentences) = complete sentences := by
    funext t
    rw [complete, lastGroup_cons_of_not_closes hclose t, complete]
  obtain ⟨talkers, hnodup, hall, hview⟩ := h.groups
  rw [← hsame] at hall hview
  exact .of_groups hnodup hall hview

/-- The satellites in view are those of complete groups, after each sentence,
    exactly if at the end of a group every talker has listed, since its last
    sentence number 1, the satellites of its last complete group. -/
theorem shows_iff (sentences : List Gsv) :
    (∀ earlier, earlier <:+ sentences → Shows earlier (inViewAfter earlier).satellitesInView) ↔
      ∀ earlier, earlier <:+ sentences → Closes earlier →
        ∀ t, gathered earlier t = complete earlier t := by
  constructor
  · exact fun h earlier hearlier hclose => (h earlier hearlier).gathered_eq hclose
  · intro h earlier hearlier
    induction earlier with
    | nil => exact .of_groups .nil (fun t ht => absurd rfl ht) rfl
    | cons msg earlier ih =>
      rcases satellitesInView_cons msg earlier with ⟨hclose, hview⟩ | ⟨hclose, hview⟩
      · have hsettled := h _ hearlier hclose
        rw [hview, flatten_gsvAccum]
        refine .of_groups (inViewAfter (msg :: earlier)).gsvAccum.nodup (fun t ht => ?_)
          (flatMap_congr fun t _ => hsettled t)
        rw [← hsettled t] at ht
        exact mem_keys_of_gathered_ne ht
      · rw [hview]
        exact (ih ((suffix_cons msg earlier).trans hearlier)).cons hclose

end Result

/-! ## A lost sentence -/

/-- The sentence of a talker with one satellite. -/
def oneSatellite (numMsgs msgNum prn : ℤ) : Gsv :=
  { talker := "GP", numMessages := some numMsgs, msgNum := some msgNum
    sv1 := { svPrnNum := some prn } }

/-- The second of three sentences is lost. -/
def secondLost : List Gsv := [oneSatellite 3 3 9, oneSatellite 3 1 4]

theorem secondLost_not_shows :
    ¬ ∀ sentences : List Gsv, Shows sentences (inViewAfter sentences).satellitesInView := by
  intro h
  have hclose : Closes secondLost := ⟨3, rfl, by decide +kernel⟩
  have heq := congrArg List.length ((h secondLost).gathered_eq hclose "GP")
  exact absurd heq (by decide +kernel)

end ReticulumPi.Gps
