import InPlace.Tsx.Grammar.Element
import InPlace.Tsx.Grammar.Statement

/-!
# The TSX grammar

`Grammar.rules` gives every rule its pattern, and `parse` reads a source with them.
-/

namespace InPlace.Tsx

namespace Grammar

/-- The pattern of a rule. -/
def rules : Rule → Pattern Rule
  | .program => program
  | .statement => statement
  | .declaration => declaration
  | .block => block
  | .classBody => classBody
  | .classMember => classMember
  | .expressions .enclosed => expressions .enclosed
  | .expressions .expression => expressions .expression
  | .expressions .type => expressions .type
  | .expression .enclosed => expression .enclosed
  | .expression .expression => expression .expression
  | .expression .type => expression .type
  | .operand .enclosed => operand .enclosed
  | .operand .expression => operand .expression
  | .operand .type => operand .type
  | .arguments => arguments
  | .template => template
  | .objectMember => objectMember
  | .propertyName => propertyName
  | .parameters => parameters
  | .callSignature => callSignature
  | .bindingTarget => bindingTarget
  | .decorator => decorator
  | .type .enclosed => type .enclosed
  | .type .expression => type .expression
  | .type .type => type .type
  | .typeOperand .enclosed => typeOperand .enclosed
  | .typeOperand .expression => typeOperand .expression
  | .typeOperand .type => typeOperand .type
  | .typeArguments => typeArguments
  | .typeParameters => typeParameters
  | .objectType => objectType
  | .element => element
  | .elementHead => elementHead
  | .tagAttribute => tagAttribute
  | .elementChild => elementChild
  | .insertion => insertion

/-- No chain of rules and patterns that moves no cursor is longer. -/
def depth : Nat := 1000

end Grammar

/-- The tags of a source, if it is a TSX program. -/
def parse (source : String) : Option Node :=
  (Pattern.parse Grammar.rules Lexeme.wideGap Grammar.depth (.rule .program) source).map fun nodes =>
    .mk .program none ⟨0, source.utf8ByteSize⟩ nodes

end InPlace.Tsx
