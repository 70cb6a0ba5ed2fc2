import Std.Data.ExtTreeMap
import SpriteFormula.Instruction

/-!
The state of a sprite, which directives write.
-/

namespace SpriteFormula

inductive Direction where
  | left
  | right
  deriving DecidableEq, Repr

namespace Direction

/-- A value below one half faces left. -/
def ofValue (value : Binary64) : Direction := if value.lt .half then .left else .right

def name : Direction → String
  | .left => "Left"
  | .right => "Right"

end Direction

/-- A sprite. Its variables are kept by name, in the order of names. -/
structure Sprite where
  direction : Direction := .right
  vars : Std.ExtTreeMap String Binary64 := ∅
  hitboxTop : Binary64 := .zero
  animation : Option Nat := none

/-- The largest index of an animation; larger values stand for it. -/
def Sprite.lastAnimation : Nat := 2 ^ 64 - 1

/-- The sprite after a value is written to a part of it, or nothing if the part cannot take the
value: a NaN is no direction, and an animation has a finite index that is not below zero. -/
def Directive.write? (sprite : Sprite) (value : Binary64) : Directive → Option Sprite
  | .direction =>
    if value.isNaN then none else some { sprite with direction := .ofValue value }
  | .var name => some { sprite with vars := sprite.vars.insert name value }
  | .hitboxTop => some { sprite with hitboxTop := value }
  | .animation =>
    if value.isFinite && !value.lt .zero then
      some { sprite with animation := some (Nat.min Sprite.lastAnimation value.round.toNat) }
    else none

namespace Sprite

def variableLine (name : String) (value : Binary64) : String :=
  "variables[" ++ Text.quoted name ++ "]: " ++ value.text ++ "\n"

/-- The state in lines of text, each with its line break. -/
def text (sprite : Sprite) : String :=
  "direction: " ++ sprite.direction.name ++ "\n" ++
  "hitbox top: " ++ sprite.hitboxTop.text ++ "\n" ++
  "animation: " ++ (sprite.animation.map toString).getD "none" ++ "\n" ++
  String.join (sprite.vars.toList.map fun (name, value) => variableLine name value)

end Sprite

end SpriteFormula
