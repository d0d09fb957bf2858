import Mathlib.Data.List.Induction
import Mathlib.Data.Rat.Defs
import ReticulumPi.Lib.Dict

/-!
# Batched updates of the browser

The browser keeps the panel data of the dashboard in the map `_stash`. An
update message is not applied when it arrives: until the next animation frame
the messages are merged into one pending update, which keeps the last value
sent under each key and collects the keys to drop, and `_applyUpdate` first
drops and then writes. The frame of a hidden tab may be long in coming.

`_applyUpdate` writes truthy values only, and two entries of the map come from
other keys than their own: `mesh_peers` from the value of `mesh`, and
`meshtastic_status` also whenever there are `meshtastic_nodes`. What it shows
on the page is left out.
-/

namespace ReticulumPi.Dashboard

open List

/-! ## Values and updates -/

/-- A value that `JSON.parse` returns. -/
inductive JsValue where
  | null
  | bool (b : Bool)
  | number (x : ℚ)
  | string (s : String)
  | array (items : List JsValue)
  | object (fields : List (String × JsValue))

namespace JsValue

/-- The value counts as true in a condition. -/
def truthy : JsValue → Bool
  | null => false
  | bool b => b
  | number x => decide (x ≠ 0)
  | string s => decide (s ≠ "")
  | array _ => true
  | object _ => true

/-- `value.peers`; values other than objects have no such property. -/
def peers : JsValue → Option JsValue
  | object fields => (fields.find? fun f => f.1 = "peers").map Prod.snd
  | _ => none

end JsValue

/-- The data of an update message: the list under `_removed`, and the values
    under the other keys, none of which is `__proto__`. -/
structure Update where
  data : Dict String JsValue
  removed : Option (List String)

/-- `_stash` -/
abbrev Stash := Dict String JsValue

variable (d : Update)

/-- `d[key]`, where it is truthy. -/
def Update.present (key : String) : Option JsValue :=
  (d.data.get? key).filter JsValue.truthy

/-- The keys that an update drops. -/
def Update.drops : List String := d.removed.getD []

/-! ## `_applyUpdate` -/

/-- `if (d[key]) _stash[key] = d[key];` -/
def stashKey (stash : Stash) (key : String) : Stash :=
  match d.present key with
  | some v => stash.set key v
  | none => stash

/-- The branch of `d.mesh`. -/
def stashMesh (stash : Stash) : Stash :=
  match d.present "mesh" with
  | some mesh =>
    match mesh.peers.filter JsValue.truthy with
    | some peers => (stash.set "mesh" mesh).set "mesh_peers" peers
    | none => stash.set "mesh" mesh
  | none => stash

/-- The branch of `d.meshtastic_nodes`. -/
def stashNodes (stash : Stash) : Stash :=
  match d.present "meshtastic_nodes" with
  | some nodes =>
    (stash.set "meshtastic_status" ((d.present "meshtastic_status").getD (.object []))).set
      "meshtastic_nodes" nodes
  | none => stash

/-- The panels that are written before those of the Meshtastic nodes. -/
def panelsBefore : List String :=
  ["sensors", "emergency", "routing", "meshtastic_device", "meshtastic_status"]

/-- The panels that are written after them. -/
def panelsAfter : List String :=
  ["meshtastic_lora_neighbors", "meshcore_status", "meshcore_contacts", "meshcore_device",
    "meshcore_observer", "mesh_bridge", "messaging", "space", "gps", "adsb", "ntp", "hotspot",
    "captive_portal", "fm_receiver", "link_tester", "weather_alert", "ais", "acars", "radiosonde",
    "noaa_apt"]

/-- `_applyUpdate` -/
def applyUpdate (stash : Stash) : Stash :=
  let stash := d.drops.foldl Dict.erase stash
  let stash := stashKey d stash "interfaces"
  let stash := stashMesh d stash
  let stash := panelsBefore.foldl (stashKey d) stash
  let stash := stashNodes d stash
  panelsAfter.foldl (stashKey d) stash

/-! ## The pending update -/

/-- What `ws.onmessage` makes of the pending update when `data` arrives. -/
def mergeUpdate (pending data : Update) : Update where
  data := data.data.entries.foldl (fun d e => d.set e.1 e.2) pending.data
  removed :=
    match data.removed with
    | some keys => some (pending.removed.getD [] ++ keys).eraseDups
    | none => pending.removed

variable (ds : List Update)

/-- The pending update after the messages `ds`. -/
def pendingUpdate : Update := ds.foldl mergeUpdate ⟨∅, none⟩

/-- The messages applied one by one. -/
def applyEach (stash : Stash) : Stash :=
  ds.foldl (fun stash d => applyUpdate d stash) stash

/-- Batching the messages leaves the map that applying each of them leaves. -/
def BatchedAsSent (stash : Stash) : Prop :=
  ∀ key, (applyUpdate (pendingUpdate ds) stash).get? key = (applyEach ds stash).get? key

/-! ## What an update writes -/

/-- The keys that are written with their own values only. -/
def plainKeys : List String :=
  "interfaces" :: "mesh" :: "meshtastic_nodes" ::
    (panelsBefore.filter (· ≠ "meshtastic_status") ++ panelsAfter)

/-- What is written under `key`, when `look` has the values of the update. -/
def written (look : String → Option JsValue) (key : String) : Option JsValue :=
  if key = "mesh_peers" then
    ((look "mesh").filter JsValue.truthy).bind fun mesh => mesh.peers.filter JsValue.truthy
  else if key = "meshtastic_status" then
    match (look "meshtastic_nodes").filter JsValue.truthy with
    | some _ => some (((look "meshtastic_status").filter JsValue.truthy).getD (.object []))
    | none => (look "meshtastic_status").filter JsValue.truthy
  else if key ∈ plainKeys then (look key).filter JsValue.truthy
  else none

/-- What an update writes under `key`. -/
def Update.writes : String → Option JsValue := written d.data.get?

section Apply

variable {d : Update} {stash : Stash} {key k : String}

theorem get?_stashKey :
    (stashKey d stash k).get? key =
      if key = k then (d.present key).or (stash.get? key) else stash.get? key := by
  rw [stashKey]
  split
  next v hv =>
    rw [Dict.get?_set]
    split_ifs with h
    · rw [h, hv, Option.some_or]
    · rfl
  next hv =>
    split_ifs with h
    · rw [h, hv, Option.none_or]
    · rfl

theorem get?_foldl_stashKey {l : List String} :
    (l.foldl (stashKey d) stash).get? key =
      if key ∈ l then (d.present key).or (stash.get? key) else stash.get? key := by
  induction l generalizing stash with
  | nil => simp
  | cons k l ih =>
    rw [foldl_cons, ih, get?_stashKey]
    by_cases hk : key = k
    · by_cases hl : key ∈ l
      · rw [if_pos hl, if_pos hk, if_pos (hk ▸ mem_cons_self), ← Option.or_assoc,
          Option.or_self]
      · rw [if_neg hl, if_pos hk, if_pos (hk ▸ mem_cons_self)]
    · simp [hk]

theorem get?_stashMesh :
    (stashMesh d stash).get? key =
      (if key = "mesh_peers" then d.writes "mesh_peers"
        else if key = "mesh" then d.present "mesh" else none).or (stash.get? key) := by
  have hw : d.writes "mesh_peers" =
      (d.present "mesh").bind fun mesh => mesh.peers.filter JsValue.truthy := rfl
  rw [stashMesh, hw]
  rcases hm : d.present "mesh" with _ | mesh
  · simp
  · rcases hp : mesh.peers.filter JsValue.truthy with _ | peers
    · simp only [Option.bind_some, hp, Dict.get?_set]
      split_ifs with h h' h' <;> simp_all
    · simp only [Option.bind_some, hp, Dict.get?_set]
      split_ifs with h h' <;> simp_all

theorem get?_stashNodes :
    (stashNodes d stash).get? key =
      (if (d.present "meshtastic_nodes").isSome then
          if key = "meshtastic_status" then d.writes "meshtastic_status"
          else if key = "meshtastic_nodes" then d.present "meshtastic_nodes" else none
        else none).or (stash.get? key) := by
  have hw : d.writes "meshtastic_status" =
      match d.present "meshtastic_nodes" with
      | some _ => some ((d.present "meshtastic_status").getD (.object []))
      | none => d.present "meshtastic_status" := rfl
  rw [stashNodes, hw]
  rcases hn : d.present "meshtastic_nodes" with _ | nodes
  · simp
  · simp only [Dict.get?_set, Option.isSome_some, if_true]
    split_ifs with h h' <;> simp_all

theorem writes_of_mem_plainKeys (h : key ∈ plainKeys) : d.writes key = d.present key := by
  have hne : key ≠ "mesh_peers" ∧ key ≠ "meshtastic_status" := by
    constructor <;> rintro rfl <;> exact absurd h (by decide)
  rw [Update.writes, written, if_neg hne.1, if_neg hne.2, if_pos h]
  rfl

theorem panelsBefore_disjoint : ∀ key ∈ panelsBefore, key ∉ panelsAfter := by decide

theorem mem_plainKeys : key ∈ plainKeys ↔ key = "interfaces" ∨ key = "mesh" ∨
    key = "meshtastic_nodes" ∨ (key ∈ panelsBefore ∧ key ≠ "meshtastic_status") ∨
      key ∈ panelsAfter := by
  simp [plainKeys]

/-- An update drops what it lists, and then writes. -/
theorem get?_applyUpdate :
    (applyUpdate d stash).get? key =
      (d.writes key).or (if key ∈ d.drops then none else stash.get? key) := by
  rw [applyUpdate]
  simp only [get?_foldl_stashKey, get?_stashNodes, get?_stashMesh, get?_stashKey,
    Dict.get?_foldl_erase]
  obtain ⟨old, hold⟩ : ∃ old, old = if key ∈ d.drops then none else stash.get? key := ⟨_, rfl⟩
  rw [← hold]
  by_cases hpeers : key = "mesh_peers"
  · subst hpeers
    simp [panelsBefore, panelsAfter]
  by_cases hstatus : key = "meshtastic_status"
  · -- The branch of the nodes writes it over the branch of the status.
    subst hstatus
    have hw : d.writes "meshtastic_status" =
        match d.present "meshtastic_nodes" with
        | some _ => some ((d.present "meshtastic_status").getD (.object []))
        | none => d.present "meshtastic_status" := rfl
    rw [hw]
    rcases d.present "meshtastic_nodes" with _ | nodes <;> simp [panelsBefore, panelsAfter]
  by_cases hplain : key ∈ plainKeys
  · rw [writes_of_mem_plainKeys hplain]
    rcases mem_plainKeys.1 hplain with rfl | rfl | rfl | ⟨h, -⟩ | h
    · simp [panelsBefore, panelsAfter]
    · simp [panelsBefore, panelsAfter]
    · rcases hn : d.present "meshtastic_nodes" with _ | nodes <;> simp [panelsBefore, panelsAfter]
    · have hne : key ≠ "interfaces" ∧ key ≠ "mesh" ∧ key ≠ "meshtastic_nodes" := by
        refine ⟨?_, ?_, ?_⟩ <;> rintro rfl <;> exact absurd h (by decide)
      simp [h, hne, panelsBefore_disjoint key h, hpeers, hstatus]
    · have hne : key ≠ "interfaces" ∧ key ≠ "mesh" ∧ key ≠ "meshtastic_nodes" := by
        refine ⟨?_, ?_, ?_⟩ <;> rintro rfl <;> exact absurd h (by decide)
      have hbefore : key ∉ panelsBefore := fun h' => panelsBefore_disjoint key h' h
      simp [h, hne, hbefore, hpeers, hstatus]
  · have hnot := mt mem_plainKeys.2 hplain
    push Not at hnot
    have hw : d.writes key = none := by
      rw [Update.writes, written, if_neg hpeers, if_neg hstatus, if_neg hplain]
    have hbefore : key ∉ panelsBefore := fun h => hstatus (hnot.2.2.2.1 h)
    simp [hw, hnot.1, hnot.2.1, hnot.2.2.1, hbefore, hnot.2.2.2.2, hpeers, hstatus]

end Apply

/-! ## One by one -/

/-- One of the messages drops the key. -/
def Dropped (key : String) : Prop := ∃ d ∈ ds, key ∈ d.drops
deriving Decidable

/-- The last write of the key is `v`, before the messages `later`. -/
structure LastWrite (key : String) (v : JsValue) (later : List Update) :
    Prop where
  split : ∃ earlier d, ds = earlier ++ d :: later ∧ d.writes key = some v
  unwritten : ∀ d ∈ later, d.writes key = none

section Each

variable {ds later : List Update} {stash : Stash} {key : String} {v : JsValue}

theorem applyEach_append {ds' : List Update} :
    applyEach (ds ++ ds') stash = applyEach ds' (applyEach ds stash) := foldl_append

theorem get?_applyEach_of_unwritten (h : ∀ d ∈ ds, d.writes key = none) :
    (applyEach ds stash).get? key = if Dropped ds key then none else stash.get? key := by
  induction ds generalizing stash with
  | nil => simp [applyEach, Dropped]
  | cons d ds ih =>
    have hd := h d mem_cons_self
    rw [applyEach, foldl_cons, ← applyEach, ih fun d hd => h d (mem_cons_of_mem _ hd),
      get?_applyUpdate, hd, Option.none_or]
    have hcons : Dropped (d :: ds) key ↔ key ∈ d.drops ∨ Dropped ds key := by
      simp [Dropped]
    by_cases hk : key ∈ d.drops <;> simp [hcons, hk]

/-- What was written last is there unless it was dropped afterwards. -/
theorem LastWrite.get?_applyEach (h : LastWrite ds key v later) :
    (applyEach ds stash).get? key = if Dropped later key then none else some v := by
  obtain ⟨earlier, d, rfl, hd⟩ := h.split
  rw [applyEach_append, applyEach, foldl_cons, ← applyEach,
    get?_applyEach_of_unwritten h.unwritten, get?_applyUpdate, hd, Option.some_or]

/-- Either no message writes the key, or one is the last to do so. -/
theorem unwritten_or_lastWrite (ds : List Update) (key : String) :
    (∀ d ∈ ds, d.writes key = none) ∨ ∃ v later, LastWrite ds key v later := by
  induction ds with
  | nil => exact .inl fun d hd => absurd hd not_mem_nil
  | cons d ds ih =>
    rcases ih with hnone | ⟨v, later, ⟨earlier, e, rfl, he⟩, hlater⟩
    · rcases hd : d.writes key with _ | v
      · refine .inl fun e he => ?_
        rcases mem_cons.1 he with rfl | he
        · exact hd
        · exact hnone e he
      · exact .inr ⟨v, ds, ⟨[], d, rfl, hd⟩, hnone⟩
    · exact .inr ⟨v, later, ⟨d :: earlier, e, rfl, he⟩, hlater⟩

end Each

/-! ## At once -/

/-- The last value sent under `key`. -/
def lastSent (key : String) : Option JsValue :=
  ds.foldl (fun last d => (d.data.get? key).or last) none

section Pending

variable {ds later : List Update} {stash : Stash} {key : String} {v : JsValue}

theorem mem_drops_mergeUpdate {pending d : Update} :
    key ∈ (mergeUpdate pending d).drops ↔ key ∈ pending.drops ∨ key ∈ d.drops := by
  rcases hd : d.removed with _ | keys
  · simp [mergeUpdate, Update.drops, hd]
  · simp [mergeUpdate, Update.drops, hd, mem_eraseDups]

theorem get?_mergeUpdate {pending d : Update} :
    (mergeUpdate pending d).data.get? key = (d.data.get? key).or (pending.data.get? key) := by
  rw [mergeUpdate, Dict.get?_foldl_entries (f := fun _ v => v), Option.map_id']

theorem mem_drops_foldl {pending : Update} :
    key ∈ (ds.foldl mergeUpdate pending).drops ↔ key ∈ pending.drops ∨ Dropped ds key := by
  induction ds generalizing pending with
  | nil => simp [Dropped]
  | cons d ds ih =>
    rw [foldl_cons, ih, mem_drops_mergeUpdate]
    simp [Dropped, or_assoc]

theorem mem_drops_pendingUpdate : key ∈ (pendingUpdate ds).drops ↔ Dropped ds key := by
  rw [pendingUpdate, mem_drops_foldl]
  simp [Update.drops]

theorem get?_foldl_mergeUpdate {pending : Update} :
    (ds.foldl mergeUpdate pending).data.get? key =
      ds.foldl (fun last d => (d.data.get? key).or last) (pending.data.get? key) := by
  induction ds generalizing pending with
  | nil => rfl
  | cons d ds ih => rw [foldl_cons, foldl_cons, ih, get?_mergeUpdate]

theorem get?_pendingUpdate : (pendingUpdate ds).data.get? key = lastSent ds key :=
  get?_foldl_mergeUpdate

/-- The merged messages write what the last values sent call for. -/
theorem writes_pendingUpdate : (pendingUpdate ds).writes key = written (lastSent ds) key := by
  rw [Update.writes]
  congr 1
  exact funext fun key => get?_pendingUpdate

theorem get?_applyUpdate_pending :
    (applyUpdate (pendingUpdate ds) stash).get? key =
      (written (lastSent ds) key).or (if Dropped ds key then none else stash.get? key) := by
  rw [get?_applyUpdate, writes_pendingUpdate]
  simp only [mem_drops_pendingUpdate]

theorem lastSent_concat {d : Update} :
    lastSent (ds ++ [d]) key = (d.data.get? key).or (lastSent ds key) := foldl_append

theorem lastSent_append {ds' : List Update} :
    lastSent (ds ++ ds') key = (lastSent ds' key).or (lastSent ds key) := by
  induction ds' using List.reverseRecOn with
  | nil =>
    rw [append_nil]
    exact Option.none_or.symm
  | append_singleton ds' d ih =>
    rw [← append_assoc, lastSent_concat, lastSent_concat, ih, Option.or_assoc]

/-- The last value sent under a key was sent by a message. -/
theorem exists_of_lastSent {x : JsValue} (h : lastSent ds key = some x) :
    ∃ d ∈ ds, d.data.get? key = some x := by
  induction ds using List.reverseRecOn with
  | nil => cases h
  | append_singleton ds d ih =>
    rw [lastSent_concat] at h
    rcases Option.or_eq_some_iff.1 h with h | ⟨-, h⟩
    · exact ⟨d, mem_append_right _ mem_cons_self, h⟩
    · obtain ⟨e, he, hx⟩ := ih h
      exact ⟨e, mem_append_left _ he, hx⟩

theorem not_mem_keys_of_lastSent (h : lastSent ds key = none) {d : Update} (hd : d ∈ ds) :
    key ∉ d.data.keys := by
  obtain ⟨earlier, later, rfl⟩ := append_of_mem hd
  rw [append_cons, lastSent_append, lastSent_concat, Option.or_eq_none_iff,
    Option.or_eq_none_iff] at h
  rw [Dict.mem_keys, h.2.1]
  rintro ⟨v, hv⟩
  cases hv

end Pending

/-! ## When the two agree -/

/-- The key whose value decides what is written under `key`. -/
def sourceKey (key : String) : String := if key = "mesh_peers" then "mesh" else key

section Written

variable {ds later : List Update} {stash : Stash} {key : String} {v : JsValue}
  {look look' : String → Option JsValue}

/-- What is written depends on the value of the source alone. -/
theorem written_congr (hkey : key ≠ "meshtastic_status")
    (h : look (sourceKey key) = look' (sourceKey key)) : written look key = written look' key := by
  rw [written, written]
  by_cases hpeers : key = "mesh_peers"
  · rw [sourceKey, if_pos hpeers] at h
    rw [if_pos hpeers, if_pos hpeers, h]
  · rw [sourceKey, if_neg hpeers] at h
    rw [if_neg hpeers, if_neg hpeers, if_neg hkey, if_neg hkey, h]

theorem written_of_source_none (hkey : key ≠ "meshtastic_status")
    (h : look (sourceKey key) = none) : written look key = none := by
  have hempty : written look key = written (fun _ => none) key := written_congr hkey h
  rw [hempty, written]
  simp [hkey]

/-- Values that no message writes are not written by the last values sent. -/
theorem written_lastSent_of_unwritten (h : ∀ d ∈ ds, d.writes key = none) :
    written (lastSent ds) key = none := by
  by_cases hkey : key = "meshtastic_status"
  · subst hkey
    -- A truthy value of either source would have been written by its message.
    have hfalsy : ∀ k, k = "meshtastic_nodes" ∨ k = "meshtastic_status" →
        (lastSent ds k).filter JsValue.truthy = none := by
      intro k hk
      rcases hl : lastSent ds k with _ | x
      · rfl
      · obtain ⟨d, hd, hx⟩ := exists_of_lastSent hl
        have hd := h d hd
        rw [Update.writes, written, if_neg (by decide), if_pos rfl] at hd
        split at hd
        · cases hd
        next hn =>
          rcases hk with rfl | rfl
          · rwa [hx] at hn
          · rwa [hx] at hd
    rw [written, if_neg (by decide), if_pos rfl, hfalsy _ (.inl rfl), hfalsy _ (.inr rfl)]
  · rcases hl : lastSent ds (sourceKey key) with _ | x
    · exact written_of_source_none hkey hl
    · obtain ⟨d, hd, hx⟩ := exists_of_lastSent hl
      rw [written_congr hkey (hl.trans hx.symm)]
      exact h d hd

/-- The last value sent is the one that was written, unless the source was
    sent again. -/
theorem LastWrite.written_lastSent (h : LastWrite ds key v later)
    (hkey : key ≠ "meshtastic_status") :
    written (lastSent ds) key =
      if ∃ d ∈ later, sourceKey key ∈ d.data.keys then none else some v := by
  obtain ⟨earlier, d, rfl, hd⟩ := h.split
  have hsent : lastSent (earlier ++ d :: later) (sourceKey key) =
      (lastSent later (sourceKey key)).or
        ((d.data.get? (sourceKey key)).or (lastSent earlier (sourceKey key))) := by
    rw [append_cons, lastSent_append, lastSent_concat]
  rcases hl : lastSent later (sourceKey key) with _ | x
  · rw [if_neg fun ⟨e, he, hk⟩ => not_mem_keys_of_lastSent hl he hk]
    rw [hl, Option.none_or] at hsent
    rcases hx : d.data.get? (sourceKey key) with _ | x
    · rw [Update.writes, written_of_source_none hkey hx] at hd
      cases hd
    · rw [hx, Option.some_or] at hsent
      exact (written_congr hkey (hsent.trans hx.symm)).trans hd
  · obtain ⟨e, he, hx⟩ := exists_of_lastSent hl
    rw [if_pos ⟨e, he, Dict.mem_keys.2 ⟨x, hx⟩⟩]
    rw [hl, Option.some_or] at hsent
    exact (written_congr hkey (hsent.trans hx.symm)).trans (h.unwritten e he)

end Written

/-- The last values sent no longer call for the key. -/
def Forgotten (ds later : List Update) (key : String) : Prop :=
  if key = "meshtastic_status" then written (lastSent ds) key = none
  else ∃ d ∈ later, sourceKey key ∈ d.data.keys

/-- The last values sent still call for `v` under the key. -/
def Remembered (ds later : List Update) (key : String) (v : JsValue) : Prop :=
  if key = "meshtastic_status" then written (lastSent ds) key = some v
  else ∀ d ∈ later, sourceKey key ∉ d.data.keys

/-- A key that was last written with `v`, before the messages `later`, keeps its
    place in the order: if it is dropped later, then its source is sent again
    later; else its source is not, or nothing drops the key and the map has the
    value already. -/
def OrderKept (stash : Stash) (key : String) (v : JsValue)
    (later : List Update) : Prop :=
  if Dropped later key then Forgotten ds later key
  else Remembered ds later key v ∨
    Forgotten ds later key ∧ ¬ Dropped ds key ∧ stash.get? key = some v

section Agree

variable {ds later : List Update} {stash : Stash} {key : String} {v : JsValue}

variable (h : LastWrite ds key v later)
include h

theorem LastWrite.forgotten_iff : Forgotten ds later key ↔ written (lastSent ds) key = none := by
  rw [Forgotten]
  split_ifs with hkey
  · exact Iff.rfl
  · rw [h.written_lastSent hkey]
    split_ifs with hsent <;> simp [hsent]

theorem LastWrite.remembered_iff :
    Remembered ds later key v ↔ written (lastSent ds) key = some v := by
  rw [Remembered]
  split_ifs with hkey
  · exact Iff.rfl
  · rw [h.written_lastSent hkey]
    split_ifs with hsent
    all_goals simpa using hsent

/-- A key that is dropped after its last write is dropped by a message. -/
theorem LastWrite.dropped (hlater : Dropped later key) : Dropped ds key := by
  obtain ⟨earlier, d, rfl, -⟩ := h.split
  obtain ⟨e, he, hk⟩ := hlater
  exact ⟨e, mem_append_right _ (mem_cons_of_mem _ he), hk⟩

theorem LastWrite.orderKept_iff : OrderKept ds stash key v later ↔
      (applyUpdate (pendingUpdate ds) stash).get? key = (applyEach ds stash).get? key := by
  rw [OrderKept, h.forgotten_iff, h.remembered_iff, get?_applyUpdate_pending, h.get?_applyEach]
  by_cases hlater : Dropped later key
  · rw [if_pos hlater, if_pos hlater, if_pos (h.dropped hlater), Option.or_none]
  · rw [if_neg hlater, if_neg hlater, Option.or_eq_some_iff]
    by_cases hds : Dropped ds key <;> simp [hds]

omit h

/-- Batching changes nothing exactly when every key that is written keeps its
    place in the order. -/
theorem batchedAsSent_iff (ds : List Update) (stash : Stash) :
    BatchedAsSent ds stash ↔
      ∀ key v later, LastWrite ds key v later → OrderKept ds stash key v later := by
  constructor
  · exact fun h key v later hlast => hlast.orderKept_iff.2 (h key)
  · intro h key
    rcases unwritten_or_lastWrite ds key with hnone | ⟨v, later, hlast⟩
    · rw [get?_applyUpdate_pending, written_lastSent_of_unwritten hnone,
        get?_applyEach_of_unwritten hnone, Option.none_or]
    · exact hlast.orderKept_iff.1 (h key v later hlast)

end Agree

/-- A panel that is shown and dropped again within one frame. -/
def shownThenDropped : List Update :=
  [⟨Dict.empty.set "gps" (.object []), none⟩, ⟨∅, some ["gps"]⟩]

/-- The panel comes back: the pending update drops before it writes. -/
theorem shownThenDropped_not_batchedAsSent :
    ¬ ∀ ds stash, BatchedAsSent ds stash := by
  intro h
  have hgps := h shownThenDropped ∅ "gps"
  rw [show (applyEach shownThenDropped ∅).get? "gps" = none from rfl] at hgps
  cases (show (applyUpdate (pendingUpdate shownThenDropped) ∅).get? "gps" =
    some (.object []) from rfl).symm.trans hgps

end ReticulumPi.Dashboard
