import SpriteFormula.Machine

/-!
Grids of tiles whose columns a program moves up and down, by writing the tiles one by one into an
empty grid. Sizes and places are 64-bit words, and rows signed ones; their products and sums wrap
around.
-/

namespace SpriteFormula

/-- A grid of tile numbers, row after row. A place past the end of the list is empty. -/
structure TileGrid where
  width : Nat
  height : Nat
  tiles : List (Option Nat)
  deriving DecidableEq, Repr

/-- How moving the columns of a grid ends: with a grid, at an underflow, before tiles that are too
many to be held, or at a write past the end of the tiles. -/
inductive Moving where
  | moved (grid : TileGrid)
  | stopped (fault : Underflow)
  | tooLarge
  | outside
  deriving DecidableEq, Repr

namespace TileGrid

/-- A tile takes 8 bytes, and tiles are held in less than 2 ^ 63. -/
def tileLimit : Nat := 2 ^ 60

/-- A grid without tiles, unless its places are too many. -/
def empty? (width height : Nat) : Option TileGrid :=
  let count := width * height % UInt64.size
  if count < tileLimit then some ⟨width, height, List.replicate count none⟩ else none

/-- Where the tile of a place is in the list. -/
def index (grid : TileGrid) (column row : Nat) : Nat :=
  (row * grid.width + column) % UInt64.size

/-- The tile at a place; outside of the grid there is none. -/
def get (grid : TileGrid) (column row : Nat) : Option Nat :=
  if column < grid.width ∧ row < grid.height then (grid.tiles[grid.index column row]?).join
  else none

/-- The whole number of rows that a value moves a column down by; what is not finite moves it
nowhere. -/
def shiftOf (value : Binary64) : Int := if value.isFinite then value.round else 0

def columnRun (program : Program) (column : Nat) : Outcome := program.runAt (.ofNat column)

def shift (program : Program) (column : Nat) : Except Underflow Int :=
  (columnRun program column).number.map shiftOf

/-- The row that a row is moved down to, unless it is none of the grid. A number of rows that is too
large for 64 bits is the largest or least one that is not. -/
def landing? (height row : Nat) (down : Int) : Option Nat :=
  let target := Int64.ofNat row + Int64.ofIntClamp down
  if target < 0 ∨ Int64.ofNat height ≤ target then none else some target.toNatClampNeg

def write? (tiles : List (Option Nat)) (index : Nat) (tile : Option Nat) :
    Option (List (Option Nat)) :=
  if index < tiles.length then some (tiles.set index tile) else none

/-- Writes the tile of a place to the row it is moved down to, if it is moved to one. -/
def writeTile? (grid : TileGrid) (column : Nat) (down : Int) (tiles : List (Option Nat))
    (row : Nat) : Option (List (Option Nat)) :=
  match landing? grid.height row down with
  | none => some tiles
  | some target => write? tiles (grid.index column target) (grid.get column row)

/-- Writes as many tiles of a column, from a row on. -/
def writeRows? (grid : TileGrid) (column : Nat) (down : Int) (tiles : List (Option Nat))
    (row : Nat) : Nat → Option (List (Option Nat))
  | 0 => some tiles
  | count + 1 =>
    match grid.writeTile? column down tiles row with
    | none => none
    | some next => grid.writeRows? column down next (row + 1) count

/-- Writes as many columns, from one on, each moved down by the program's value there. -/
def writeColumns (grid : TileGrid) (program : Program) (tiles : List (Option Nat))
    (column : Nat) : Nat → Moving
  | 0 => .moved { grid with tiles }
  | count + 1 =>
    match shift program column with
    | .error fault => .stopped fault
    | .ok down =>
      match grid.writeRows? column down tiles 0 grid.height with
      | none => .outside
      | some next => grid.writeColumns program next (column + 1) count

/-- The grid with each column moved down by the program's value there. Tiles moved out of the grid
are lost, and the places they leave are empty. -/
def reshape (grid : TileGrid) (program : Program) : Moving :=
  match empty? grid.width grid.height with
  | none => .tooLarge
  | some shaped => grid.writeColumns program shaped.tiles 0 grid.width

/-- What moving a column records beside its run. -/
def keptRecords (column : Nat) (outcome : Outcome) : List Record :=
  match outcome.number with
  | .ok value => if value.isFinite then [] else [.columnKept column value]
  | .error _ => []

/-- What moving as many columns records, from one on and up to the first run that ends in an
underflow. -/
def columnRecords (program : Program) (column : Nat) : Nat → List Record
  | 0 => []
  | count + 1 =>
    let outcome := columnRun program column
    outcome.records ++ keptRecords column outcome ++
      if outcome.fault.isNone then columnRecords program (column + 1) count else []

/-- What a reshape records that ends with a grid or at an underflow. -/
def reshapeRecords (grid : TileGrid) (program : Program) : List Record :=
  columnRecords program 0 grid.width

end TileGrid

end SpriteFormula
