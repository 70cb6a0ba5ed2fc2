import SpriteFormula.Main
import SpriteFormula.TileGrid
import SpriteFormula.Formula
import SpriteFormula.Grammar
import SpriteFormula.Proofs.StackOutline
import SpriteFormula.Proofs.FormulaGrammar
import SpriteFormula.Proofs.CodecRoundTrip
import SpriteFormula.Proofs.DecimalRoundTrip
import SpriteFormula.Proofs.TokenSeams
import SpriteFormula.Proofs.FormulaRoundTrip
import SpriteFormula.Proofs.DeclarationLines
import SpriteFormula.Proofs.DeclarationRoundTrip
import SpriteFormula.Expr.Value
import SpriteFormula.Proofs.ProgramRuns
import SpriteFormula.Proofs.PostfixEvaluation
import SpriteFormula.Proofs.StackDisciplines
import SpriteFormula.Proofs.ReadingBalance
import SpriteFormula.Bytecode.Layout
import SpriteFormula.Bytecode.Reader
import SpriteFormula.Proofs.InstructionLayout
import SpriteFormula.Proofs.ReaderBounds
import SpriteFormula.Proofs.DecodingExact
import SpriteFormula.Proofs.CanonicalBytes
import SpriteFormula.Proofs.RefusalPlaces
import SpriteFormula.Proofs.TextPlaces
import SpriteFormula.Proofs.LineLocality
import SpriteFormula.Proofs.ColumnShifts
import SpriteFormula.Proofs.Retargeting
import SpriteFormula.Proofs.SpriteWrites
import SpriteFormula.Proofs.LineEnds
import SpriteFormula.Proofs.LineOrder
import SpriteFormula.Proofs.RenderedEffect
import SpriteFormula.Proofs.CompiledFiles
import SpriteFormula.Proofs.FormulaBlanks
import SpriteFormula.Dialogue
import SpriteFormula.Proofs.SessionDialogue
import SpriteFormula.Proofs.SessionEntries
import SpriteFormula.Proofs.TokenCuts
import SpriteFormula.Proofs.FormulaBeginnings
import SpriteFormula.Proofs.RefusedFormulas
import SpriteFormula.Proofs.ValidPrefixes
import SpriteFormula.Proofs.ErrorPlaces
import SpriteFormula.Proofs.ReadingAlike
import SpriteFormula.Proofs.LeftSides
import SpriteFormula.Proofs.RightSides
import SpriteFormula.Proofs.TokenDepths
import SpriteFormula.Proofs.LayoutDepths
import SpriteFormula.Proofs.NeededParentheses
import SpriteFormula.Proofs.RunComposition
import SpriteFormula.Proofs.EnvironmentAgreement
import SpriteFormula.Proofs.ValidCode
import SpriteFormula.Proofs.ProgramListings
import SpriteFormula.Token.Cursor
import SpriteFormula.Proofs.CursorTokens
import SpriteFormula.Proofs.TokenTiling
import SpriteFormula.Proofs.SpacedTokens
import SpriteFormula.Formula.Reader
import SpriteFormula.Proofs.CursorFormulas
import SpriteFormula.Proofs.ReadingProgress
import SpriteFormula.Proofs.LocationOrder
