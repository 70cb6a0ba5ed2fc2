import Mathlib.Algebra.Ring.Int.Defs
import SpriteFormula.Formula
import SpriteFormula.Proofs.StackDisciplines
import SpriteFormula.Proofs.TileWrites

/-!
Programs that move the columns of a grid, one after another. Whether a program moves them is the
same for all columns, only how far is not. Each column moves as one block: a row of the result is a
row of the first grid, unless one of the moves took it out of the grid. A grid whose places are too
many for 64-bit words is not moved so.
-/

namespace SpriteFormula

namespace TileGrid

section
variable {program : Program} {fault : Underflow} {downs : Nat → Int}

/-! ### Shifts -/

theorem shift_of_underflow (h : program.validate = .error (.underflow fault)) (column : Nat) :
    shift program column = .error fault := by
  have hf : (columnRun program column).fault = some fault :=
    (Program.fault_runOn_iff _ _).mpr (Program.validate_underflow.mp h)
  rw [shift, Outcome.number, Outcome.result, hf]
  rfl

theorem exists_shift (h : ∀ fault, program.validate ≠ .error (.underflow fault)) :
    ∃ downs : Nat → Int, ∀ column, shift program column = .ok (downs column) := by
  have hc : ∀ column, ∃ down, shift program column = .ok down := by
    intro column
    cases hf : (columnRun program column).fault with
    | none =>
      rw [shift, Outcome.number, Outcome.result, hf]
      exact ⟨_, rfl⟩
    | some fault =>
      have hd := (Program.fault_runOn_iff _ _).mp hf
      exact absurd (Program.validate_underflow.mpr hd) (h fault)
  exact Classical.axiomOfChoice hc

/-- A program ends in the same underflow at every column, or at none. -/
theorem shift_cases (program : Program) :
    (∃ fault, program.validate = .error (.underflow fault) ∧
      ∀ column, shift program column = .error fault) ∨
    (∀ fault, program.validate ≠ .error (.underflow fault)) ∧
      ∃ downs : Nat → Int, ∀ column, shift program column = .ok (downs column) := by
  by_cases h : ∃ fault, program.validate = .error (.underflow fault)
  · obtain ⟨fault, hf⟩ := h
    exact .inl ⟨fault, hf, shift_of_underflow hf⟩
  · rw [not_exists] at h
    exact .inr ⟨h, exists_shift h⟩

/-! ### One program -/

variable {grid shaped : TileGrid} {column row : Nat}

/-- A grid that can be held is reshaped from an empty one, column by column. -/
theorem reshape_eq (hsize : grid.width * grid.height < tileLimit) :
    grid.reshape program =
      grid.writeColumns program (List.replicate (grid.width * grid.height) none) 0 grid.width := by
  rw [reshape, empty?_eq hsize]

/-- Without columns nothing is run, and nothing can fail. -/
theorem reshape_of_no_columns (h : grid.width = 0) :
    grid.reshape program = .moved { grid with tiles := [] } := by
  obtain ⟨width, height, tiles⟩ := grid
  cases h
  exact (reshape_eq (by rw [Nat.zero_mul]; decide)).trans (by rw [Nat.zero_mul]; rfl)

theorem reshape_of_underflow (hsize : grid.width * grid.height < tileLimit)
    (hd : ∀ column, shift program column = .error fault) (h : 0 < grid.width) :
    grid.reshape program = .stopped fault := by
  obtain ⟨count, hw⟩ := Nat.exists_eq_add_one.mpr h
  rw [reshape_eq hsize, hw, writeColumns, hd]

theorem reshape_of_shifts (hsize : grid.width * grid.height < tileLimit)
    (hd : ∀ column, shift program column = .ok (downs column)) :
    ∃ tiles, grid.reshape program = .moved { grid with tiles } ∧
      Tabulates grid.width grid.height (fun c r => grid.moved c r (downs c)) tiles := by
  have hempty : Tabulates grid.width grid.height
      (fun c r => if c < 0 then grid.moved c r (downs c) else none)
      (List.replicate (grid.width * grid.height) none) :=
    tabulates_replicate grid.width grid.height
  obtain ⟨tiles, hn, ht⟩ := hempty.writeColumns hsize hd (Nat.le_of_eq (Nat.zero_add _))
  refine ⟨tiles, (reshape_eq hsize).trans hn, ht.congr fun c r hc _ => ?_⟩
  rw [if_pos (by rwa [Nat.zero_add])]

/-- A reshape ends at the underflow of its program, or else with a grid of the same size. -/
theorem reshape_cases (hsize : grid.width * grid.height < tileLimit) (program : Program) :
    (∃ fault, (0 < grid.width ∧ program.validate = .error (.underflow fault)) ∧
      grid.reshape program = .stopped fault) ∨
    (∀ fault, ¬ (0 < grid.width ∧ program.validate = .error (.underflow fault))) ∧
      ∃ tiles, tiles.length = grid.width * grid.height ∧
        grid.reshape program = .moved { grid with tiles } := by
  rcases shift_cases program with ⟨fault, hv, hd⟩ | ⟨hv, downs, hd⟩
  · by_cases hw : 0 < grid.width
    · exact .inl ⟨fault, ⟨hw, hv⟩, reshape_of_underflow hsize hd hw⟩
    · have hz := Nat.eq_zero_of_not_pos hw
      exact .inr ⟨fun _ h => hw h.1, [], by rw [hz, Nat.zero_mul]; rfl, reshape_of_no_columns hz⟩
  · obtain ⟨tiles, hm, ht⟩ := reshape_of_shifts hsize hd
    exact .inr ⟨fun other h => hv other h.2, tiles, ht.length, hm⟩

theorem reshape_stopped_iff (hsize : grid.width * grid.height < tileLimit) :
    grid.reshape program = .stopped fault ↔
      0 < grid.width ∧ program.validate = .error (.underflow fault) := by
  rcases reshape_cases hsize program with ⟨found, ⟨hw, hv⟩, hr⟩ | ⟨hn, tiles, -, hr⟩
  · rw [hr, hv]
    simp [hw]
  · rw [hr]
    refine ⟨fun h => ?_, fun h => absurd h (hn fault)⟩
    cases h

theorem reshape_moved (hsize : grid.width * grid.height < tileLimit)
    (h : grid.reshape program = .moved shaped) :
    shaped.width = grid.width ∧ shaped.height = grid.height ∧
      shaped.tiles.length = grid.width * grid.height := by
  rcases reshape_cases hsize program with ⟨found, -, hr⟩ | ⟨-, tiles, hl, hr⟩
  · rw [hr] at h
    cases h
  · rw [hr] at h
    cases h
    exact ⟨rfl, rfl, hl⟩

/-- The tiles can be held, and no write leaves them. -/
theorem reshape_inside (hsize : grid.width * grid.height < tileLimit) (program : Program) :
    grid.reshape program ≠ .tooLarge ∧ grid.reshape program ≠ .outside := by
  rcases reshape_cases hsize program with ⟨found, -, hr⟩ | ⟨-, tiles, -, hr⟩
  · simp [hr]
  · simp [hr]

end

/-! ### Programs one after another -/

/-- The grid after a program, which leaves it as it is where it fails. -/
def reshapeOrKeep (grid : TileGrid) (program : Program) : TileGrid :=
  match grid.reshape program with
  | .moved shaped => shaped
  | .stopped _ | .tooLarge | .outside => grid

def reshapeAll (grid : TileGrid) (programs : List Program) : TileGrid :=
  programs.foldl reshapeOrKeep grid

/-- How far a column is moved by each of the programs that do not fail. -/
def columnShifts (programs : List Program) (column : Nat) : List Int :=
  programs.filterMap fun program => (shift program column).toOption

/-- Going back over the moves from the last one, a row is in the grid before each of them. -/
def StaysWithin (height row : Nat) (downs : List Int) : Prop :=
  ∀ later, later <:+ downs → 0 ≤ (row : Int) - later.sum ∧ (row : Int) - later.sum < height

theorem staysWithin_nil {height row : Nat} : StaysWithin height row [] ↔ row < height := by
  constructor
  · intro h
    have := h [] List.suffix_rfl
    rw [List.sum_nil] at this
    omega
  · intro hr later hl
    rw [List.suffix_nil.mp hl, List.sum_nil]
    omega

theorem staysWithin_cons {height row : Nat} {down : Int} {downs : List Int} :
    StaysWithin height row (down :: downs) ↔
      StaysWithin height row downs ∧
        0 ≤ (row : Int) - downs.sum - down ∧ (row : Int) - downs.sum - down < height := by
  have hsum : (row : Int) - (down :: downs).sum = (row : Int) - downs.sum - down := by
    rw [List.sum_cons]
    omega
  constructor
  · intro h
    refine ⟨fun later hl => h later (hl.trans (List.suffix_cons _ _)), ?_⟩
    have := h _ List.suffix_rfl
    rwa [hsum] at this
  · rintro ⟨h, hd⟩ later hl
    rcases List.suffix_cons_iff.mp hl with rfl | hl
    · rwa [hsum]
    · exact h later hl

section
variable {grid : TileGrid} {column row : Nat}

theorem reshapeOrKeep_size (hsize : grid.width * grid.height < tileLimit) (program : Program) :
    (grid.reshapeOrKeep program).width = grid.width ∧
      (grid.reshapeOrKeep program).height = grid.height := by
  unfold reshapeOrKeep
  rcases reshape_cases hsize program with ⟨fault, -, hr⟩ | ⟨-, tiles, -, hr⟩
  · rw [hr]
    exact ⟨rfl, rfl⟩
  · rw [hr]
    exact ⟨rfl, rfl⟩

/-- One program moves a column as far as its value there says, or not at all. -/
theorem get_reshapeOrKeep (hsize : grid.width * grid.height < tileLimit) (program : Program)
    (hc : column < grid.width) (hr : row < grid.height) :
    (grid.reshapeOrKeep program).get column row =
      match shift program column with
      | .ok down => grid.moved column row down
      | .error _ => grid.get column row := by
  unfold reshapeOrKeep
  rcases shift_cases program with ⟨fault, -, hd⟩ | ⟨-, downs, hd⟩
  · rw [reshape_of_underflow hsize hd (Nat.zero_lt_of_lt hc), hd]
  · obtain ⟨tiles, hm, ht⟩ := reshape_of_shifts hsize hd
    rw [hm, hd]
    exact get_of_tabulates hsize ht hc hr

/-- A tile of a moved column is one of the column before, at its own row, or there is none. -/
theorem moved_of_within {down : Int}
    (h : 0 ≤ (row : Int) - down ∧ (row : Int) - down < grid.height) :
    grid.moved column row down = grid.get column ((row : Int) - down).toNat := by
  rw [moved, if_pos h.1]

theorem moved_of_not_within {down : Int}
    (h : ¬ (0 ≤ (row : Int) - down ∧ (row : Int) - down < grid.height)) :
    grid.moved column row down = none := by
  unfold moved
  by_cases hn : 0 ≤ (row : Int) - down
  · rw [if_pos hn, get, if_neg]
    rintro ⟨-, hlt⟩
    omega
  · rw [if_neg hn]

/-- A tile that one move takes out of the grid does not come back with a later one. -/
theorem get_reshapeAll (hsize : grid.width * grid.height < tileLimit) (programs : List Program)
    (hc : column < grid.width) (hr : row < grid.height) :
    (StaysWithin grid.height row (columnShifts programs column) →
      (grid.reshapeAll programs).get column row =
        grid.get column ((row : Int) - (columnShifts programs column).sum).toNat) ∧
    (¬ StaysWithin grid.height row (columnShifts programs column) →
      (grid.reshapeAll programs).get column row = none) := by
  -- the moves are undone from the last one on, so the row to go on with is that of the rest
  induction programs generalizing grid with
  | nil =>
    refine ⟨fun _ => ?_, fun h => absurd (staysWithin_nil.mpr hr) h⟩
    change grid.get column row = grid.get column ((row : Int) - 0).toNat
    rw [Int.sub_zero, Int.toNat_natCast]
  | cons program rest ih =>
    obtain ⟨hwidth, hheight⟩ := reshapeOrKeep_size hsize program
    have ihn := @ih (grid.reshapeOrKeep program) (by rwa [hwidth, hheight]) (by rwa [hwidth])
      (by rwa [hheight])
    rw [hheight] at ihn
    change (_ → ((grid.reshapeOrKeep program).reshapeAll rest).get column row = _) ∧
      (_ → ((grid.reshapeOrKeep program).reshapeAll rest).get column row = _)
    cases hs : shift program column with
    | error fault =>
      have hshifts : columnShifts (program :: rest) column = columnShifts rest column := by
        rw [columnShifts, List.filterMap_cons, hs]
        rfl
      rw [hshifts]
      refine ⟨fun h => ?_, ihn.2⟩
      have hlast := h _ List.suffix_rfl
      rw [ihn.1 h, get_reshapeOrKeep hsize program hc (by omega), hs]
    | ok down =>
      have hshifts : columnShifts (program :: rest) column = down :: columnShifts rest column := by
        rw [columnShifts, List.filterMap_cons, hs]
        rfl
      rw [hshifts, staysWithin_cons]
      by_cases h : StaysWithin grid.height row (columnShifts rest column)
      · have hlast := h _ List.suffix_rfl
        have hcast : ((((row : Int) - (columnShifts rest column).sum).toNat : Nat) : Int) =
            (row : Int) - (columnShifts rest column).sum := Int.toNat_of_nonneg hlast.1
        rw [ihn.1 h, get_reshapeOrKeep hsize program hc (by omega), hs]
        refine ⟨fun hin => ?_, fun hout => ?_⟩
        · refine (moved_of_within (by rw [hcast]; exact hin.2)).trans ?_
          rw [hcast, List.sum_cons, Int.sub_sub, Int.add_comm down]
        · apply moved_of_not_within
          rw [hcast]
          exact fun hin => hout ⟨h, hin⟩
      · exact ⟨fun hin => absurd hin.1 h, fun _ => ihn.2 h⟩

end

end TileGrid

/-- Of a grid whose tiles can be held, a reshape fails where there is a column and its program
underflows, and otherwise makes a grid of the same size; no tile is written past the end. Over any
programs, each column moves as one block, and what leaves the grid on the way is lost. -/
theorem reshapes_move_columns_rigidly (grid : TileGrid) (programs : List Program)
    (h : grid.width * grid.height < TileGrid.tileLimit) :
    (∀ program fault, grid.reshape program = .stopped fault ↔
      0 < grid.width ∧ program.validate = .error (.underflow fault)) ∧
    (∀ program shaped, grid.reshape program = .moved shaped →
      shaped.width = grid.width ∧ shaped.height = grid.height ∧
        shaped.tiles.length = grid.width * grid.height) ∧
    (∀ program, grid.reshape program ≠ .tooLarge ∧ grid.reshape program ≠ .outside) ∧
    ∀ column row, column < grid.width → row < grid.height →
      let downs := TileGrid.columnShifts programs column
      (TileGrid.StaysWithin grid.height row downs →
        (grid.reshapeAll programs).get column row =
          grid.get column ((row : Int) - downs.sum).toNat) ∧
      (¬ TileGrid.StaysWithin grid.height row downs →
        (grid.reshapeAll programs).get column row = none) := by
  refine ⟨fun program fault => TileGrid.reshape_stopped_iff h, fun program shaped hs => ?_,
    fun program => TileGrid.reshape_inside h program, fun column row hc hr => ?_⟩
  · exact TileGrid.reshape_moved h hs
  · exact TileGrid.get_reshapeAll h programs hc hr

/-- Moved down and up again, past a program that fails, the upper tile is where it was and the lower
one is lost. -/
theorem clipped_tile_does_not_return :
    let grid : TileGrid := ⟨1, 2, [some 7, some 8]⟩
    let programs : List Program :=
      [[.constant .one], [.negative], [.constant .one, .negative]]
    grid.width * grid.height < TileGrid.tileLimit ∧
      (∃ fault, grid.reshape [.negative] = .stopped fault) ∧
      (∃ shaped, grid.reshape [.constant .one] = .moved shaped ∧ shaped.tiles.length = 2) ∧
      (grid.reshapeAll programs).get 0 0 = some 7 ∧ (grid.reshapeAll programs).get 0 1 = none := by
  intro grid programs
  have hsize : grid.width * grid.height < TileGrid.tileLimit := by decide
  obtain ⟨hfail, hshape, -, hget⟩ := reshapes_move_columns_rigidly grid programs hsize
  have hdowns : TileGrid.columnShifts programs 0 = [1, -1] := by decide +kernel
  have hshaped : grid.reshape [.constant .one] = .moved ⟨1, 2, [none, some 7]⟩ := by
    decide +kernel
  refine ⟨hsize, ⟨⟨0, .negative⟩, (hfail _ _).mpr ⟨by decide, rfl⟩⟩,
    ⟨_, hshaped, (hshape _ _ hshaped).2.2⟩, ?_, ?_⟩
  · have hrow := hget 0 0 (by decide) (by decide)
    rw [hdowns] at hrow
    refine hrow.1 ?_
    simp [TileGrid.staysWithin_cons, TileGrid.staysWithin_nil, grid]
  · have hrow := hget 0 1 (by decide) (by decide)
    rw [hdowns] at hrow
    refine hrow.2 ?_
    simp [TileGrid.staysWithin_cons, grid]

/-- The number of places of a grid may wrap around to none: a program that moves no column then
writes its first tile past the end. Fewer places may still be too many to be held, which comes before
any underflow. -/
theorem wrapped_grid_is_written_outside :
    let program : Program := [.constant .zero]
    let short : Program := [.negative]
    let wrapped : TileGrid := ⟨2 ^ 33, 2 ^ 31, []⟩
    let crowded : TileGrid := ⟨2 ^ 31, 2 ^ 30, []⟩
    (Program.parse "0" = .ok program ∧ program.validate = .ok 1 ∧
      TileGrid.shift program 0 = .ok 0 ∧
      TileGrid.empty? wrapped.width wrapped.height = some wrapped ∧
      wrapped.reshape program = .outside) ∧
    short.validate = .error (.underflow ⟨0, .negative⟩) ∧ 0 < crowded.width ∧
      crowded.reshape short = .tooLarge := by
  intro program short wrapped crowded
  have hread : Program.parse "0" = .ok program := by decide +kernel
  have hshift : TileGrid.shift program 0 = .ok 0 := by decide +kernel
  have hempty : TileGrid.empty? wrapped.width wrapped.height = some wrapped := by decide +kernel
  have hwrapped : wrapped.reshape program = .outside := by decide +kernel
  have hcrowded : crowded.reshape short = .tooLarge := by decide +kernel
  exact ⟨⟨hread, rfl, hshift, hempty, hwrapped⟩, rfl, Nat.two_pow_pos 31, hcrowded⟩

end SpriteFormula
