import SpriteFormula.Bytecode.File
import SpriteFormula.Fault
import SpriteFormula.Machine
import SpriteFormula.Render

/-!
From text to results: the value of a formula, and the report on declarations that are run on a new
sprite.
-/

namespace SpriteFormula

namespace Program

def evaluate (env : Environment) (formula : String) : Except Fault Binary64 :=
  match Program.parse formula with
  | .error error => .error (.parse error)
  | .ok program => (program.run env none).number.mapError fun fault => .stack (.underflow fault)

def evaluateRecords (env : Environment) (formula : String) : List Record :=
  match Program.parse formula with
  | .error _ => []
  | .ok program => (program.run env none).records

/-- The run of declarations on a new sprite, the positional parameter being zero. -/
def declarationRun (program : Program) : Outcome := program.run {} (some {})

/-- The sprite that declarations leave, and the declarations as source text. -/
def report (profile : Profile) (text : String) : Except Fault String :=
  match Program.parseDeclarations text with
  | .error error => .error (.parse error)
  | .ok program =>
    match program.declarationRun.fault with
    | some fault => .error (.stack (.underflow fault))
    | none =>
      match program.render profile with
      | .error fault => .error fault
      | .ok source =>
        .ok ((program.declarationRun.machine.sprite.getD {}).text ++ "\n" ++ source)

def reportRecords (text : String) : List Record :=
  (Program.skippedLines text).map .skipped ++
    match Program.parseDeclarations text with
    | .error _ => []
    | .ok program => program.declarationRun.records

def compile (formula : String) : Except Fault (List UInt8) :=
  match Program.parse formula with
  | .error error => .error (.parse error)
  | .ok program => program.toFile.mapError Fault.encode

end Program

end SpriteFormula
