import SpriteFormula.Instruction

/-!
Target languages of rendered source: how each differs from the syntax of formulas.
-/

namespace SpriteFormula

/-- Departures from the syntax of formulas. A kind without a spelling or priority of its own keeps
the one it has in formulas. -/
structure Profile where
  name : String
  spellings : Kind → Option String := fun _ => none
  priorities : Kind → Option Priority := fun _ => none
  /-- Follows a literal that is not whole. -/
  floatSuffix : Option String := none
  /-- Ends an assignment. -/
  statementEnd : String := ""

namespace Profile

/-- The spelling of a kind, unless its payload spells it. -/
def spelling? (profile : Profile) (kind : Kind) : Option String :=
  profile.spellings kind <|> kind.symbol?

/-- How tightly an instruction's construct binds in the target language. -/
def priority? (profile : Profile) (i : Instruction) : Option Priority :=
  profile.priorities i.kind <|> i.priority?

/-- The syntax of formulas itself. -/
def generic : Profile := { name := "Generic" }

/-- Powers are calls in the target languages. -/
def powerAsCall (kind : Kind) : Option Priority :=
  if kind = .pow then some .function else none

def c : Profile where
  name := "C"
  spellings
    | .cos => some "cosf"
    | .sin => some "sinf"
    | .sqrt => some "sqrtf"
    | .pow => some "powf"
    | .pi => some "M_PI"
    | .e => some "M_E"
    | _ => none
  priorities := powerAsCall
  floatSuffix := some "f"
  statementEnd := ";"

def swift : Profile where
  name := "Swift"
  spellings
    | .pow => some "pow"
    | .pi => some "Double.pi"
    | .e => some "M_E"
    | _ => none
  priorities := powerAsCall

def javaScript : Profile where
  name := "JavaScript"
  spellings
    | .cos => some "Math.cos"
    | .sin => some "Math.sin"
    | .sqrt => some "Math.sqrt"
    | .min => some "Math.min"
    | .max => some "Math.max"
    | .pow => some "Math.pow"
    | .pi => some "Math.PI"
    | .e => some "Math.E"
    | _ => none
  priorities := powerAsCall
  statementEnd := ";"

end Profile

inductive Language where
  | generic
  | c
  | swift
  | javaScript
  deriving DecidableEq, Repr

namespace Language

def profile : Language → Profile
  | .generic => .generic
  | .c => .c
  | .swift => .swift
  | .javaScript => .javaScript

/-- The language of a name; the case of ASCII letters does not matter. -/
def ofName? (name : String) : Option Language :=
  let lower := String.ofList (name.toList.map Char.toLower)
  if lower = "generic" then some .generic
  else if lower = "c" then some .c
  else if lower = "swift" then some .swift
  else if lower = "javascript" ∨ lower = "js" then some .javaScript
  else none

end Language

end SpriteFormula
