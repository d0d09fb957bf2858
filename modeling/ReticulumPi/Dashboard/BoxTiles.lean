import Mathlib.Data.Int.ConditionallyCompleteOrder
import Mathlib.Data.Rat.Floor
import Mathlib.Tactic.Positivity

/-!
# The tiles of a box

The map tiles that the dashboard fetches ahead for a box (`tile_prefetch.py`),
which goes from `west` to `east` and from `south` to `north`. A longitude is
turned into the number of a column, modulo the number of columns: to the east
edge of the world belongs the column `0`, not the last one.
-/

namespace ReticulumPi.Dashboard

open List

/-- A tile: the zoom, the column and the row. -/
abbrev Tile := ℕ × ℤ × ℤ

/-- `int(q)`. -/
def truncate (q : ℚ) : ℤ := if 0 ≤ q then ⌊q⌋ else ⌈q⌉

/-- The place of a longitude, in columns from the west edge of the world. -/
def columnPlace (zoom : ℕ) (lon : ℚ) : ℚ := (lon + 180) / 360 * 2 ^ zoom

/-- `_lat_lon_to_tile`, the column. -/
def lonToColumn (lon : ℚ) (zoom : ℕ) : ℤ := truncate (columnPlace zoom lon) % 2 ^ zoom

/-- `range(first, last + 1)`. -/
def rangeTo (first last : ℤ) : List ℤ :=
  (List.range (last + 1 - first).toNat).map fun i : ℕ => first + i

section
variable (row : ℕ → ℚ → ℤ)

/-- The body of the innermost loop in `_tile_list_bbox`; the error is the
    `return`. -/
def addTile (limit : Option ℕ) (z : ℕ) (x y : ℤ) (tiles : List Tile) :
    Except (List Tile) (List Tile) :=
  if 0 ≤ y ∧ y < 2 ^ z then
    let tiles := tiles ++ [(z, x % 2 ^ z, y)]
    if limit.any (· ≤ tiles.length) then .error tiles else .ok tiles
  else .ok tiles

/-- The loops over the zooms, the columns and the rows. -/
def zoomLoop (south west north east : ℚ) (minZoom maxZoom : ℕ) (limit : Option ℕ) :
    List Tile → Except (List Tile) (List Tile) :=
  (List.range' minZoom (maxZoom + 1 - minZoom)).foldlM fun tiles z =>
    (rangeTo (lonToColumn west z) (lonToColumn east z)).foldlM (fun tiles x =>
      (rangeTo (row z north) (row z south)).foldlM (fun tiles y =>
        addTile limit z x y tiles) tiles) tiles

/-- `_tile_list_bbox`, with the row of a latitude as a parameter. -/
def tileListBbox (south west north east : ℚ) (minZoom maxZoom : ℕ) (limit : Option ℕ) :
    List Tile :=
  match zoomLoop row south west north east minZoom maxZoom limit [] with
  | .error tiles => tiles
  | .ok tiles => tiles

end

/-! ## The columns -/

/-- The column that a longitude is in; the edge of the world is in the last one. -/
def columnOf (z : ℕ) (lon : ℚ) : ℤ := min ⌊columnPlace z lon⌋ (2 ^ z - 1)

/-- The columns that `[west, east]` meets. -/
def MeetsColumn (west east : ℚ) (z : ℕ) (x : ℤ) : Prop :=
  ∃ lon, west ≤ lon ∧ lon ≤ east ∧ columnOf z lon = x

variable {row : ℕ → ℚ → ℤ} {south west north east lon : ℚ} {z minZoom maxZoom : ℕ} {x : ℤ}

theorem columnPlace_le_iff : columnPlace z west ≤ columnPlace z east ↔ west ≤ east := by
  have hpos : (0 : ℚ) < 2 ^ z := by positivity
  rw [columnPlace, columnPlace, mul_le_mul_iff_left₀ hpos, div_le_div_iff_of_pos_right (by norm_num),
    add_le_add_iff_right]

theorem columnPlace_nonneg (h : -180 ≤ lon) : 0 ≤ columnPlace z lon := by
  have : 0 ≤ lon + 180 := by linarith
  unfold columnPlace
  positivity

theorem columnOf_mono (h : west ≤ east) : columnOf z west ≤ columnOf z east :=
  min_le_min_right _ (Int.floor_le_floor (columnPlace_le_iff.2 h))

theorem columnOf_nonneg (h : -180 ≤ lon) : 0 ≤ columnOf z lon :=
  le_min (Int.floor_nonneg.2 (columnPlace_nonneg h))
    (by have : (0 : ℤ) < 2 ^ z := by positivity
        omega)

theorem meetsColumn_iff (h : west ≤ east) :
    MeetsColumn west east z x ↔ columnOf z west ≤ x ∧ x ≤ columnOf z east := by
  refine ⟨fun ⟨lon, hwest, heast, hx⟩ => hx ▸ ⟨columnOf_mono hwest, columnOf_mono heast⟩,
    fun ⟨hwest, heast⟩ => ?_⟩
  rcases hwest.eq_or_lt with hx | hx
  · exact ⟨west, le_rfl, h, hx⟩
  · -- The west edge of a column that is not the first.
    have hplace : columnPlace z (x * 360 / 2 ^ z - 180) = x := by
      rw [columnPlace]
      field_simp
      ring
    obtain ⟨hfloor, hlast⟩ := le_min_iff.1 heast
    refine ⟨x * 360 / 2 ^ z - 180, ?_, ?_, ?_⟩
    · rw [← columnPlace_le_iff (z := z), hplace]
      by_contra hlt
      exact absurd (le_min (Int.le_floor.2 (not_le.1 hlt).le) hlast) (not_le.2 hx)
    · rw [← columnPlace_le_iff (z := z), hplace]
      exact Int.le_floor.1 hfloor
    · rw [columnOf, hplace, Int.floor_intCast, min_eq_left hlast]

theorem lonToColumn_eq (hwest : -180 ≤ lon) (heast : lon < 180 ∨ z = 0) :
    lonToColumn lon z = columnOf z lon := by
  have hnonneg := columnPlace_nonneg (z := z) hwest
  have hfloor := Int.floor_nonneg.2 hnonneg
  rw [lonToColumn, columnOf, truncate, if_pos hnonneg]
  rcases heast with heast | rfl
  · have hlt : ⌊columnPlace z lon⌋ < 2 ^ z := by
      have hedge : columnPlace z 180 = 2 ^ z := by norm_num [columnPlace]
      rw [Int.floor_lt]
      push_cast
      rw [← hedge]
      exact not_le.1 (mt columnPlace_le_iff.1 (not_le.2 heast))
    rw [Int.emod_eq_of_lt hfloor hlt, min_eq_left (Int.le_sub_one_of_lt hlt)]
  · rw [pow_zero, Int.emod_one, sub_self, min_eq_right hfloor]

theorem columnOf_edge : columnOf z 180 = 2 ^ z - 1 := by
  have hedge : columnPlace z 180 = (2 ^ z : ℤ) := by norm_num [columnPlace]
  rw [columnOf, hedge, Int.floor_intCast, min_eq_right (by omega)]

/-- The east edge of the world is taken for the west edge. -/
theorem lonToColumn_edge : lonToColumn 180 z = 0 := by
  have hedge : columnPlace z 180 = (2 ^ z : ℤ) := by norm_num [columnPlace]
  rw [lonToColumn, truncate, if_pos (columnPlace_nonneg (by norm_num)), hedge, Int.floor_intCast,
    Int.emod_self]

/-! ## The loops -/

/-- There is room for another tile. -/
def Room (limit : Option ℕ) (tiles : List Tile) : Prop := ∀ l, limit = some l → tiles.length < l

variable {limit : Option ℕ} {tiles : List Tile} {y : ℤ} {α : Type}

/-- A part of the loops adds these tiles, or returns when there is no more room. -/
def Adds (limit : Option ℕ) (f : List Tile → Except (List Tile) (List Tile))
    (new : List Tile) : Prop :=
  ∀ tiles, Room limit tiles → Room limit (tiles ++ new) ∧ f tiles = .ok (tiles ++ new) ∨
    ∃ l, limit = some l ∧ l ≤ (tiles ++ new).length ∧ f tiles = .error ((tiles ++ new).take l)

theorem adds_addTile (hy : 0 ≤ y ∧ y < 2 ^ z) :
    Adds limit (addTile limit z x y) [(z, x % 2 ^ z, y)] := by
  intro tiles hroom
  rw [addTile, if_pos hy]
  cases limit with
  | none => exact .inl ⟨fun l hl => (Option.some_ne_none l hl.symm).elim, rfl⟩
  | some l =>
    have hlt := hroom l rfl
    by_cases hle : l ≤ (tiles ++ [(z, x % 2 ^ z, y)]).length
    · refine .inr ⟨l, rfl, hle, ?_⟩
      rw [take_of_length_le (by simpa using Nat.succ_le_of_lt hlt)]
      simpa using hle
    · refine .inl ⟨fun l' hl' => Option.some.inj hl' ▸ not_le.1 hle, ?_⟩
      simpa using hle

theorem adds_foldlM {g : List Tile → α → Except (List Tile) (List Tile)} {new : α → List Tile}
    {l : List α} (h : ∀ a ∈ l, Adds limit (g · a) (new a)) :
    Adds limit (l.foldlM g) (l.flatMap new) := by
  induction l with
  | nil => exact fun tiles hroom => .inl (by simpa using ⟨hroom, rfl⟩)
  | cons a l ih =>
    intro tiles hroom
    have ih := ih fun a ha => h a (mem_cons_of_mem _ ha)
    rw [flatMap_cons, ← append_assoc]
    change _ ∧ (g tiles a >>= l.foldlM g) = _ ∨ ∃ l', _ ∧ _ ∧ (g tiles a >>= l.foldlM g) = _
    rcases h a mem_cons_self tiles hroom with ⟨hroom, hok⟩ | ⟨m, hm, hle, herror⟩
    · dsimp only at hok
      rw [hok]
      exact ih _ hroom
    · refine .inr ⟨m, hm, hle.trans (by simp), ?_⟩
      dsimp only at herror
      rw [herror, take_append_of_le_length hle]
      rfl

/-- All the tiles, as the loops come to them. -/
def allTiles (row : ℕ → ℚ → ℤ) (south west north east : ℚ) (minZoom maxZoom : ℕ) : List Tile :=
  (List.range' minZoom (maxZoom + 1 - minZoom)).flatMap fun z =>
    (rangeTo (lonToColumn west z) (lonToColumn east z)).flatMap fun x =>
      (rangeTo (row z north) (row z south)).flatMap fun y => [(z, x % 2 ^ z, y)]

theorem mem_rangeTo {first last i : ℤ} : i ∈ rangeTo first last ↔ first ≤ i ∧ i ≤ last := by
  rw [rangeTo, List.mem_map]
  constructor
  · rintro ⟨k, hk, rfl⟩
    have := mem_range.1 hk
    omega
  · exact fun h => ⟨(i - first).toNat, mem_range.2 (by omega), by omega⟩

theorem adds_zoomLoop (hrow : ∀ z lat, 0 ≤ row z lat ∧ row z lat < 2 ^ z) :
    Adds limit (zoomLoop row south west north east minZoom maxZoom limit)
      (allTiles row south west north east minZoom maxZoom) :=
  adds_foldlM fun z _ => adds_foldlM fun _ _ => adds_foldlM fun _ hy =>
    adds_addTile ⟨(hrow z north).1.trans (mem_rangeTo.1 hy).1,
      (mem_rangeTo.1 hy).2.trans_lt (hrow z south).2⟩

theorem tileListBbox_eq (hrow : ∀ z lat, 0 ≤ row z lat ∧ row z lat < 2 ^ z)
    (hlimit : limit ≠ some 0) :
    tileListBbox row south west north east minZoom maxZoom limit =
      let all := allTiles row south west north east minZoom maxZoom
      limit.elim all all.take := by
  have hroom : Room limit [] := fun l hl =>
    Nat.pos_of_ne_zero fun hzero : l = 0 => hlimit (hzero ▸ hl)
  rw [tileListBbox]
  have hadds : Adds limit (zoomLoop row south west north east minZoom maxZoom limit) _ :=
    adds_zoomLoop hrow
  rcases hadds [] hroom with ⟨hroom, hok⟩ | ⟨l, rfl, hle, herror⟩
  · rw [hok]
    cases limit with
    | none => rfl
    | some l => exact (take_of_length_le (hroom l rfl).le).symm
  · rw [herror]
    rfl

/-- A limit of no tiles is taken for one of one tile. -/
theorem tileListBbox_zero :
    tileListBbox row south west north east minZoom maxZoom (some 0) =
      tileListBbox row south west north east minZoom maxZoom (some 1) := by
  have hadd : addTile (some 0) = addTile (some 1) := by
    funext z x y tiles
    simp [addTile]
  rw [tileListBbox, tileListBbox, zoomLoop, zoomLoop, hadd]

theorem nodup_flatMap {β : Type} {f : α → List β} (key : β → α) {l : List α} (hl : l.Nodup)
    (hf : ∀ a ∈ l, (f a).Nodup) (hkey : ∀ a ∈ l, ∀ b ∈ f a, key b = a) : (l.flatMap f).Nodup := by
  refine List.nodup_flatMap.2 ⟨hf, hl.imp_of_mem fun ha hb hne => ?_⟩
  exact disjoint_left.2 fun c hc hc' => hne ((hkey _ ha c hc).symm.trans (hkey _ hb c hc'))

/-! ## The tiles -/

/-- Without a limit, the tiles of the zooms that the box meets are listed, each
    of them once; with a limit, as many of the first of them. -/
def CoversBox (row : ℕ → ℚ → ℤ) (south west north east : ℚ) (minZoom maxZoom : ℕ)
    (limit : Option ℕ) : Prop :=
  let tiles := tileListBbox row south west north east minZoom maxZoom
  (tiles none).Nodup ∧
    (∀ z x y, (z, x, y) ∈ tiles none ↔ (minZoom ≤ z ∧ z ≤ maxZoom) ∧ MeetsColumn west east z x ∧
      row z north ≤ y ∧ y ≤ row z south) ∧
    ∀ l, limit = some l → tiles limit = (tiles none).take l

theorem mem_allTiles {t : Tile} : t ∈ allTiles row south west north east minZoom maxZoom ↔
    ∃ z, (minZoom ≤ z ∧ z ≤ maxZoom) ∧ ∃ x, (lonToColumn west z ≤ x ∧ x ≤ lonToColumn east z) ∧
      ∃ y, (row z north ≤ y ∧ y ≤ row z south) ∧ t = (z, x % 2 ^ z, y) := by
  have hzoom : ∀ z, z ∈ List.range' minZoom (maxZoom + 1 - minZoom) ↔
      minZoom ≤ z ∧ z ≤ maxZoom := fun z => by
    rw [mem_range'_1]
    omega
  simp [allTiles, mem_flatMap, mem_rangeTo, hzoom]

theorem lonToColumn_range (lon : ℚ) (z : ℕ) : 0 ≤ lonToColumn lon z ∧ lonToColumn lon z < 2 ^ z :=
  ⟨Int.emod_nonneg _ (by positivity), Int.emod_lt_of_pos _ (by positivity)⟩

theorem emod_column {a b : ℚ} (h : lonToColumn a z ≤ x ∧ x ≤ lonToColumn b z) : x % 2 ^ z = x :=
  Int.emod_eq_of_lt ((lonToColumn_range a z).1.trans h.1) (h.2.trans_lt (lonToColumn_range b z).2)

theorem nodup_rangeTo (first last : ℤ) : (rangeTo first last).Nodup :=
  nodup_range.map fun _ _ h => by simpa using h

theorem nodup_allTiles : (allTiles row south west north east minZoom maxZoom).Nodup := by
  refine nodup_flatMap Prod.fst nodup_range' (fun z _ => ?_) fun z _ t ht => ?_
  rotate_left
  · simp only [mem_flatMap, mem_singleton] at ht
    obtain ⟨x, -, y, -, rfl⟩ := ht
    rfl
  refine nodup_flatMap (·.2.1) (nodup_rangeTo _ _) (fun x _ => ?_) fun x hx t ht => ?_
  · exact nodup_flatMap (·.2.2) (nodup_rangeTo _ _) (by simp) (by simp)
  · obtain ⟨y, -, ht⟩ := mem_flatMap.1 ht
    rw [mem_singleton.1 ht]
    exact emod_column (mem_rangeTo.1 hx)

/-- The tiles of a box are listed as they should be if and only if it does not
    go to the east edge of the world, unless all of the world is one tile, and
    the limit is not zero. -/
theorem coversBox_iff (hrow : ∀ z lat, 0 ≤ row z lat ∧ row z lat < 2 ^ z)
    (hanti : ∀ z, Antitone (row z)) (hwest : -180 ≤ west) (hbox : west ≤ east) (heast : east ≤ 180)
    (hlat : south ≤ north) :
    CoversBox row south west north east minZoom maxZoom limit ↔
      (east < 180 ∨ maxZoom = 0 ∨ maxZoom < minZoom) ∧ (limit ≠ some 0 ∨ maxZoom < minZoom) := by
  have hnone := @tileListBbox_eq row south west north east minZoom maxZoom none hrow
    (Option.some_ne_none 0).symm
  simp only [CoversBox, hnone, Option.elim_none]
  constructor
  · rintro ⟨-, hmem, hlimit⟩
    constructor
    · by_contra hcon
      obtain ⟨hle, hzero, hzoom⟩ : 180 ≤ east ∧ maxZoom ≠ 0 ∧ minZoom ≤ maxZoom := by
        simpa only [not_or, not_lt] using hcon
      obtain rfl := le_antisymm heast hle
      -- The last column is missing.
      obtain ⟨z, -, x, hx, y, -, heq⟩ := mem_allTiles.1 ((hmem maxZoom (2 ^ maxZoom - 1) _).2
        ⟨⟨hzoom, le_rfl⟩, ⟨180, hbox, le_rfl, columnOf_edge⟩, le_rfl, hanti _ hlat⟩)
      obtain ⟨rfl, hlast, rfl⟩ : maxZoom = z ∧ 2 ^ maxZoom - 1 = x % 2 ^ z ∧ row maxZoom north = y := by
        simpa using heq
      have hone : (2 : ℤ) ^ 1 ≤ 2 ^ maxZoom := pow_le_pow_right₀ (by norm_num) (by omega)
      rw [emod_column hx] at hlast
      rw [lonToColumn_edge] at hx
      omega
    · by_contra hcon
      obtain ⟨rfl, hzoom⟩ : limit = some 0 ∧ minZoom ≤ maxZoom := by
        simpa only [not_or, not_not, not_lt] using hcon
      have hin := (hmem maxZoom (columnOf maxZoom west) _).2
        ⟨⟨hzoom, le_rfl⟩, ⟨west, le_rfl, hbox, rfl⟩, le_rfl, hanti _ hlat⟩
      have hone := hlimit 0 rfl
      rw [tileListBbox_zero, tileListBbox_eq hrow (by simp)] at hone
      have hempty : allTiles row south west north east minZoom maxZoom = [] := by simpa using hone
      rw [hempty] at hin
      cases hin
  · rintro ⟨hedge, hlimit⟩
    refine ⟨nodup_allTiles, fun z x y => ?_, fun l hl => ?_⟩
    · have hcolumn : minZoom ≤ z ∧ z ≤ maxZoom →
          lonToColumn west z = columnOf z west ∧ lonToColumn east z = columnOf z east := by
        intro hz
        have hin : east < 180 ∨ z = 0 := hedge.imp_right (by omega)
        exact ⟨lonToColumn_eq hwest (hin.imp_left hbox.trans_lt),
          lonToColumn_eq (hwest.trans hbox) hin⟩
      rw [mem_allTiles, meetsColumn_iff hbox]
      constructor
      · rintro ⟨z, hz, x, hx, y, hy, heq⟩
        obtain ⟨rfl, rfl, rfl⟩ := by simpa using heq
        obtain ⟨hw, he⟩ := hcolumn hz
        exact ⟨hz, by rwa [emod_column hx, ← hw, ← he], hy⟩
      · rintro ⟨hz, hx, hy⟩
        obtain ⟨hw, he⟩ := hcolumn hz
        rw [← hw, ← he] at hx
        exact ⟨z, hz, x, hx, y, hy, by rw [emod_column hx]⟩
    · subst hl
      rcases l with _ | l
      · have hempty : allTiles row south west north east minZoom maxZoom = [] := by
          have hzoom : maxZoom < minZoom := by simpa using hlimit
          simp [allTiles, show maxZoom + 1 - minZoom = 0 by omega]
        rw [tileListBbox_zero, tileListBbox_eq hrow (by simp)]
        simp [hempty]
      · exact tileListBbox_eq hrow (by simp)

/-- The whole world in four tiles: only those of the first column are listed. -/
theorem not_coversBox_world :
    ¬ CoversBox (fun z lat => if lat < 0 then 2 ^ z - 1 else 0) (-85) (-180) 85 180 1 1 none :=
  fun h => absurd ((h.2.1 1 1 0).2 ⟨by decide, ⟨180, by decide +kernel⟩, by decide +kernel⟩)
    (by decide +kernel)

/-- The western half of it. -/
theorem coversBox_west :
    CoversBox (fun z lat => if lat < 0 then 2 ^ z - 1 else 0) (-85) (-180) 85 0 1 3 (some 5) := by
  refine (coversBox_iff (fun z lat => ?_) (fun z a b hab => ?_) le_rfl (by norm_num) (by norm_num)
    (by norm_num)).2 ⟨.inl (by norm_num), .inl (by decide)⟩
  · have hpos : (0 : ℤ) < 2 ^ z := by positivity
    split_ifs <;> omega
  · have hpos : (0 : ℤ) < 2 ^ z := by positivity
    split_ifs with hb ha ha
    · exact le_rfl
    · exact absurd (hab.trans_lt hb) ha
    · omega
    · exact le_rfl

end ReticulumPi.Dashboard
