import Mathlib.Data.Nat.Basic
import SpriteFormula.TileGrid

/-!
The tiles of a grid as a table of its columns and rows. Writing a tile changes the table at one
place, so that the columns written one by one make up the grid with its columns moved, and no write
leaves the tiles. All of this is for grids whose tiles can be held: their places are less than the
limit, so that no product or sum of the places wraps around.
-/

namespace SpriteFormula

namespace TileGrid

/-- The list holds the table row after row. -/
structure Tabulates (width height : Nat) (table : Nat → Nat → Option Nat)
    (tiles : List (Option Nat)) : Prop where
  length : tiles.length = width * height
  entry : ∀ column row, column < width → row < height →
    tiles[row * width + column]? = some (table column row)

section
variable {width height column row : Nat}

theorem index_lt (hc : column < width) (hr : row < height) :
    row * width + column < width * height := by
  calc row * width + column < row * width + width := Nat.add_lt_add_left hc _
    _ = width * (row + 1) := by rw [Nat.mul_add, Nat.mul_one, Nat.mul_comm]
    _ ≤ width * height := Nat.mul_le_mul_left _ hr

theorem index_inj {otherColumn otherRow : Nat} (hc : column < width)
    (ho : otherColumn < width) (h : row * width + column = otherRow * width + otherColumn) :
    column = otherColumn ∧ row = otherRow := by
  have hw : 0 < width := Nat.zero_lt_of_lt hc
  have hrow := congrArg (· / width) h
  have hcolumn := congrArg (· % width) h
  simp only [Nat.mul_add_div, Nat.mul_comm _ width, hw, Nat.div_eq_of_lt hc, Nat.div_eq_of_lt ho,
    Nat.add_zero] at hrow
  simp only [Nat.mul_comm _ width, Nat.mul_add_mod, Nat.mod_eq_of_lt hc,
    Nat.mod_eq_of_lt ho] at hcolumn
  exact ⟨hcolumn, hrow⟩

theorem Tabulates.congr {table other : Nat → Nat → Option Nat} {tiles : List (Option Nat)}
    (h : Tabulates width height table tiles)
    (he : ∀ column row, column < width → row < height → table column row = other column row) :
    Tabulates width height other tiles := by
  refine ⟨h.length, fun column row hc hr => ?_⟩
  rw [h.entry column row hc hr, he column row hc hr]

/-- A write inside of the grid goes ahead, and changes the table where it writes. -/
theorem Tabulates.write {table : Nat → Nat → Option Nat} {tiles : List (Option Nat)}
    (h : Tabulates width height table tiles) (hc : column < width) (hr : row < height)
    (tile : Option Nat) :
    ∃ next, write? tiles (row * width + column) tile = some next ∧
      Tabulates width height
        (fun c r => if c = column ∧ r = row then tile else table c r) next := by
  have hi := index_lt hc hr
  refine ⟨_, by rw [write?, if_pos (by rw [h.length]; exact hi)], ?_, fun c r hc' hr' => ?_⟩
  · rw [List.length_set, h.length]
  · rw [List.getElem?_set]
    by_cases he : row * width + column = r * width + c
    · obtain ⟨rfl, rfl⟩ := index_inj hc hc' he
      rw [if_pos rfl, if_pos (by rw [h.length]; exact hi), if_pos ⟨rfl, rfl⟩]
    · rw [if_neg he, h.entry c r hc' hr', if_neg]
      rintro ⟨rfl, rfl⟩
      exact he rfl

end

/-! ### Grids that can be held -/

section
variable {grid : TileGrid} {column row : Nat}

theorem mod_size_eq {place : Nat} (h : place < tileLimit) : place % UInt64.size = place :=
  Nat.mod_eq_of_lt (Nat.lt_trans h (by decide))

theorem empty?_eq {width height : Nat} (h : width * height < tileLimit) :
    empty? width height = some ⟨width, height, List.replicate (width * height) none⟩ := by
  simp only [empty?, mod_size_eq h, if_pos h]

theorem tabulates_replicate (width height : Nat) :
    Tabulates width height (fun _ _ => none) (List.replicate (width * height) none) := by
  refine ⟨List.length_replicate, fun column row hc hr => ?_⟩
  rw [List.getElem?_replicate_of_lt (index_lt hc hr)]

theorem index_eq (h : grid.width * grid.height < tileLimit) (hc : column < grid.width)
    (hr : row < grid.height) : grid.index column row = row * grid.width + column :=
  mod_size_eq (Nat.lt_trans (index_lt hc hr) h)

theorem height_lt (h : grid.width * grid.height < tileLimit) (hc : column < grid.width) :
    grid.height < 2 ^ 63 :=
  calc grid.height ≤ grid.width * grid.height := Nat.le_mul_of_pos_left _ (Nat.zero_lt_of_lt hc)
    _ < tileLimit := h
    _ < 2 ^ 63 := by decide

theorem get_of_tabulates {table : Nat → Nat → Option Nat} {tiles : List (Option Nat)}
    (h : grid.width * grid.height < tileLimit)
    (ht : Tabulates grid.width grid.height table tiles) (hc : column < grid.width)
    (hr : row < grid.height) : get { grid with tiles } column row = table column row := by
  rw [get, if_pos ⟨hc, hr⟩]
  change (tiles[grid.index column row]?).join = _
  rw [index_eq h hc hr, ht.entry column row hc hr]
  rfl

end

/-! ### Landing -/

theorem toInt_ofIntClamp (n : Int) :
    (Int64.ofIntClamp n).toInt = max Int64.minValue.toInt (min n Int64.maxValue.toInt) := by
  have hmin : Int64.minValue.toInt = -2 ^ 63 := Int64.toInt_minValue
  have hmax : Int64.maxValue.toInt = 2 ^ 63 - 1 := Int64.toInt_maxValue
  rw [hmin, hmax, Int64.ofIntClamp]
  split
  · split
    · rw [Int64.toInt_ofIntLE]
      omega
    · omega
  · omega

/-- A row is moved by the number of rows, although the number is cut off and the sum may wrap
around: where they do the row leaves the grid. -/
theorem landing_eq {height row : Nat} (hh : height < 2 ^ 63) (hr : row < height) (down : Int) :
    landing? height row down =
      if 0 ≤ (row : Int) + down ∧ (row : Int) + down < height then some ((row : Int) + down).toNat
      else none := by
  have hsum : (Int64.ofNat row + Int64.ofIntClamp down).toInt =
      ((row : Int) + max (-2 ^ 63) (min down (2 ^ 63 - 1))).bmod (2 ^ 64) := by
    rw [Int64.toInt_add, Int64.toInt_ofNat_of_lt (by omega), toInt_ofIntClamp,
      Int64.toInt_minValue, Int64.toInt_maxValue]
  rw [Int.bmod_def] at hsum
  unfold landing?
  simp only [Int64.lt_iff_toInt_lt, Int64.le_iff_toInt_le, Int64.toInt_ofNat_of_lt hh,
    Int64.toInt_zero, Int64.toNatClampNeg]
  generalize (Int64.ofNat row + Int64.ofIntClamp down).toInt = target at hsum ⊢
  by_cases hd : 0 ≤ (row : Int) + down ∧ (row : Int) + down < height
  · have ht : target = row + down := by
      split at hsum <;> omega
    rw [if_pos hd, if_neg (by omega), ht]
  · rw [if_neg hd, if_pos]
    split at hsum <;> omega

/-! ### Columns -/

/-- The tile that a column moved down by some rows has in a row. -/
def moved (grid : TileGrid) (column row : Nat) (down : Int) : Option Nat :=
  if 0 ≤ (row : Int) - down then grid.get column ((row : Int) - down).toNat else none

section
variable {grid : TileGrid} {table : Nat → Nat → Option Nat} {column : Nat}
  {tiles : List (Option Nat)}

/-- A tile changes the table at the row it is moved down to. -/
theorem Tabulates.writeTile (h : Tabulates grid.width grid.height table tiles)
    (hsize : grid.width * grid.height < tileLimit) (hc : column < grid.width) (down : Int)
    {row : Nat} (hr : row < grid.height) :
    ∃ next, grid.writeTile? column down tiles row = some next ∧
      Tabulates grid.width grid.height
        (fun c r => if c = column ∧ (r : Int) - down = row then grid.get column row
          else table c r) next := by
  have hland := landing_eq (height_lt hsize hc) hr down
  unfold writeTile?
  by_cases hd : 0 ≤ (row : Int) + down ∧ (row : Int) + down < grid.height
  · rw [if_pos hd] at hland
    have ht : ((row : Int) + down).toNat < grid.height := by omega
    simp only [hland, index_eq hsize hc ht]
    obtain ⟨next, hn, hnext⟩ := h.write hc ht (grid.get column row)
    refine ⟨next, hn, hnext.congr fun c r _ _ => if_congr ?_ rfl rfl⟩
    refine and_congr_right fun _ => ?_
    omega
  · rw [if_neg hd] at hland
    simp only [hland]
    refine ⟨tiles, rfl, h.congr fun c r _ hr' => ?_⟩
    rw [if_neg]
    rintro ⟨-, he⟩
    omega

/-- The rows written so far are the ones whose tiles have moved in the column. -/
theorem Tabulates.writeRows (h : Tabulates grid.width grid.height table tiles)
    (hsize : grid.width * grid.height < tileLimit) (hc : column < grid.width) (down : Int)
    {row count : Nat} (hr : row + count ≤ grid.height) :
    ∃ next, grid.writeRows? column down tiles row count = some next ∧
      Tabulates grid.width grid.height
        (fun c r => if c = column ∧ (row : Int) ≤ r - down ∧ (r : Int) - down < row + count then
          grid.get column ((r : Int) - down).toNat else table c r) next := by
  induction count generalizing row tiles table with
  | zero =>
    refine ⟨tiles, rfl, h.congr fun c r _ _ => ?_⟩
    rw [if_neg]
    rintro ⟨-, hge, hlt⟩
    omega
  | succ count ih =>
    obtain ⟨written, hw, hwritten⟩ := h.writeTile hsize hc down (by omega : row < grid.height)
    obtain ⟨next, hn, hnext⟩ := ih hwritten (by omega : row + 1 + count ≤ grid.height)
    refine ⟨next, by simp only [writeRows?, hw, hn], hnext.congr fun c r _ _ => ?_⟩
    by_cases he : c = column ∧ (r : Int) - down = row
    · have hrow : ((r : Int) - down).toNat = row := by omega
      rw [if_pos he, if_neg (by omega), if_pos (by omega), hrow]
    · rw [if_neg he]
      refine if_congr ?_ rfl rfl
      omega

/-- A column that was empty is the grid's own column moved down. -/
theorem Tabulates.writeColumn (h : Tabulates grid.width grid.height table tiles)
    (hsize : grid.width * grid.height < tileLimit) (hc : column < grid.width)
    (hn : ∀ row, table column row = none) (down : Int) :
    ∃ next, grid.writeRows? column down tiles 0 grid.height = some next ∧
      Tabulates grid.width grid.height
        (fun c r => if c = column then grid.moved column r down else table c r) next := by
  obtain ⟨next, hw, hnext⟩ := h.writeRows hsize hc down (Nat.le_of_eq (Nat.zero_add _))
  refine ⟨next, hw, hnext.congr fun c r _ _ => ?_⟩
  by_cases he : c = column
  · subst he
    rw [if_pos rfl, moved]
    by_cases hpos : 0 ≤ (r : Int) - down
    · rw [if_pos hpos]
      by_cases hlt : ((r : Int) - down).toNat < grid.height
      · rw [if_pos (by omega)]
      · rw [if_neg (by omega), hn, get, if_neg fun hm => hlt hm.2]
    · rw [if_neg hpos, if_neg fun hm => hpos hm.2.1, hn]
  · rw [if_neg he, if_neg fun hm => he hm.1]

/-- The columns written so far are the grid's own ones moved down, the others are empty. -/
theorem Tabulates.writeColumns {program : Program} {downs : Nat → Int}
    (hsize : grid.width * grid.height < tileLimit)
    (hd : ∀ column, shift program column = .ok (downs column)) {count : Nat}
    (hc : column + count ≤ grid.width)
    (h : Tabulates grid.width grid.height
      (fun c r => if c < column then grid.moved c r (downs c) else none) tiles) :
    ∃ next, grid.writeColumns program tiles column count = .moved { grid with tiles := next } ∧
      Tabulates grid.width grid.height
        (fun c r => if c < column + count then grid.moved c r (downs c) else none) next := by
  induction count generalizing column tiles with
  | zero => exact ⟨tiles, rfl, h⟩
  | succ count ih =>
    have hlt : column < grid.width := by omega
    obtain ⟨written, hw, hwritten⟩ := h.writeColumn hsize hlt
      (fun _ => if_neg (Nat.lt_irrefl column)) (downs column)
    have htable : Tabulates grid.width grid.height
        (fun c r => if c < column + 1 then grid.moved c r (downs c) else none) written := by
      apply hwritten.congr
      intro c r _ _
      by_cases he : c = column
      · subst he
        rw [if_pos rfl, if_pos (Nat.lt_succ_self c)]
      · rw [if_neg he]
        exact if_congr (by omega) rfl rfl
    obtain ⟨next, hn, hnext⟩ := ih (by omega) htable
    refine ⟨next, by simp only [TileGrid.writeColumns, hd, hw, hn], hnext.congr fun c r _ _ => ?_⟩
    exact if_congr (by omega) rfl rfl

end

end TileGrid

end SpriteFormula
