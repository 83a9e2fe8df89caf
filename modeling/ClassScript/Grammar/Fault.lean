import ClassScript.Token
/-!
# Why a list of tokens is no program
-/

namespace ClassScript.Grammar

/-- What a rule needs next. -/
inductive Expected where
  | symbol (text : String)
  | name
  | variable
  | namespaceName
  | className
  | memberName
  | memberAfterColons
  | expression
  | catchOrFinally
deriving DecidableEq, Repr

def Expected.describe : Expected → String
  | symbol text => "'" ++ text ++ "'"
  | name => "a name"
  | .variable => "a variable"
  | namespaceName => "a namespace name"
  | className => "a class name"
  | memberName => "a member name"
  | memberAfterColons => "a member name after '::'"
  | expression => "an expression"
  | catchOrFinally => "'catch' or 'finally'"

/-- A construct that is known and refused. -/
inductive Feature where
  | word (text : String)
  | importedFunctions
  | groupUse
  | traitAdaptation
  | combinedTypes
  | alternativeBlocks
  | heredoc
  | multiLevelExit
  | staticVariables
  | referenceKeys
  | catchWithoutVariable
  | destructuring
  | assignByReference
  | nullCoalescing
  | errorSuppression
  | references
  | variableStaticCalls
  | namedArguments
  | callables
  | throwExpressions
deriving DecidableEq, Repr

def Feature.describe : Feature → String
  | word text => "'" ++ text ++ "'"
  | importedFunctions => "importing functions or constants"
  | groupUse => "group use declarations"
  | traitAdaptation => "trait adaptation"
  | combinedTypes => "union and intersection types"
  | alternativeBlocks => "alternative control-structure syntax"
  | heredoc => "heredoc syntax"
  | multiLevelExit => "multi-level break/continue"
  | staticVariables => "static variables"
  | referenceKeys => "by-reference foreach keys"
  | catchWithoutVariable => "catch without a variable"
  | destructuring => "array destructuring"
  | assignByReference => "assignment by reference"
  | nullCoalescing => "the null coalescing operator"
  | errorSuppression => "the error suppression operator"
  | references => "references"
  | variableStaticCalls => "variable static method calls"
  | namedArguments => "named arguments"
  | callables => "first-class callable syntax"
  | throwExpressions => "throw as an expression"

inductive Cause where
  /-- The next token, none at the end of the text, is not the one a rule needs. -/
  | expected (what : Expected) (found : Option TokenKind)
  | unsupported (feature : Feature)
  | assignTarget
  | interfaceProperty (interface property : String)
deriving DecidableEq, Repr

/-- A cause and the position of the token that shows it, none for the end of the text. -/
structure Fault where
  cause : Cause
  pos : Option Position
deriving DecidableEq, Repr

namespace Cause

def kind : Cause → Diagnostic.Kind
  | expected .. => .parse
  | _ => .unsupported

def message : Cause → String
  | expected what found =>
    "expected " ++ what.describe ++ ", found " ++ (found.map TokenKind.describe).getD "end of file"
  | unsupported feature => feature.describe ++ " is not supported"
  | assignTarget => "cannot assign to this expression"
  | interfaceProperty i p => "interface " ++ i ++ " cannot declare property $" ++ p

end Cause

/-- The diagnostic of a fault in a text that ends at `finish`. -/
def Fault.diagnostic (finish : Position) (f : Fault) : Diagnostic :=
  { kind := f.cause.kind, message := f.cause.message, pos := f.pos.getD finish }

end ClassScript.Grammar
