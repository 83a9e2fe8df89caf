import ClassScript.Decimal.Shortest
import ClassScript.Script.Fault
import ClassScript.Script.Node
import ClassScript.Text.Quoted
/-!
# Printing nodes

The text of a node is made of the texts of its children, which are put in parentheses where they
would group differently. Lines below a brace are indented by one unit more than the brace, by
putting the unit behind every newline of what stands between the braces.
-/

namespace ClassScript.Script

/-! ## Layout -/

/-- The text with the unit behind every newline. -/
def indented (unit text : String) : String :=
  String.ofList (text.toList.flatMap fun c => if c = '\n' then '\n' :: unit.toList else [c])

/-- The lines between braces, each indented. -/
def braced (unit separator : String) (entries : List String) : String :=
  if entries.isEmpty then "\x7b\x7d"
  else "\x7b\n" ++ unit ++ indented unit (separator.intercalate entries) ++ "\n\x7d"

def parenthesised (wrap : Bool) (text : String) : String :=
  if wrap then "(" ++ text ++ ")" else text

/-! ## Where parentheses are needed -/

namespace Node

def wrapsAsOperand : Node → Bool
  | binary .. | ternary .. | assign .. | function .. | object _ => true
  | _ => false

def wrapsUnderUnary : Node → Bool
  | unary .. => true
  | n => n.wrapsAsOperand

def wrapsInTernary : Node → Bool
  | ternary .. | assign .. | function .. | object _ => true
  | _ => false

def wrapsAsObject : Node → Bool
  | int _ | float _ => true
  | n => n.wrapsUnderUnary

def wrapsAsCallee : Node → Bool
  | new .. => true
  | n => n.wrapsUnderUnary

def wrapsAsClass : Node → Bool
  | call .. | function .. | binary .. | unary .. | ternary .. | assign .. => true
  | _ => false

def wrapsAsStatement : Node → Bool
  | function .. | object _ => true
  | _ => false

end Node

/-! ## Shape -/

/-- Fails unless the body is a block. -/
def needBlock (owner : String) (body : Node) : Built Unit :=
  if body.isBlock then .ok () else .error (.malformedBody owner body.tag)

/-- Fails unless the else branch is a block or another branch. -/
def needElse (otherwise : Option Node) : Built Unit :=
  otherwise.forM fun n => if n.isBlock || n.isBranch then .ok () else .error (.malformedElse n.tag)

/-! ## Nodes -/

mutual

/-- The text of a node with lines indented by `unit`. All children are printed before the shape of
the node itself is checked. -/
def Node.printWith (unit : String) : Node → Built String
  | .identifier name => return name
  | .int v => return toString v
  | .float v => return Decimal.literal v
  | .string v => return Quoted.quote v
  | .assign t v => do
    let target ← t.printWith unit
    let value ← v.printWith unit
    return target ++ " = " ++ value
  | .declare name value => do
    match ← printOption unit value with
    | some value => return "var " ++ name ++ " = " ++ value ++ ";"
    | none => return "var " ++ name ++ ";"
  | .binary op l r => do
    let left ← l.printWith unit
    let right ← r.printWith unit
    return parenthesised l.wrapsAsOperand left ++ " " ++ op.symbol ++ " "
      ++ parenthesised r.wrapsAsOperand right
  | .unary op x => do
    let operand := parenthesised x.wrapsUnderUnary (← x.printWith unit)
    return if op.isWord then op.symbol ++ " " ++ operand else op.symbol ++ operand
  | .ternary c t o => do
    let test ← c.printWith unit
    let whenTrue ← t.printWith unit
    let otherwise ← o.printWith unit
    return parenthesised c.wrapsInTernary test ++ " ? " ++ parenthesised t.wrapsInTernary whenTrue
      ++ " : " ++ parenthesised o.wrapsInTernary otherwise
  | .property o k => do
    let object := parenthesised o.wrapsAsObject (← o.printWith unit)
    let key ← k.printWith unit
    return if k.isIdentifier then object ++ "." ++ key else object ++ "[" ++ key ++ "]"
  | .call c as => do
    let callee := parenthesised c.wrapsAsCallee (← c.printWith unit)
    return callee ++ "(" ++ ", ".intercalate (← printAll unit as) ++ ")"
  | .new c as => do
    let cls := parenthesised c.wrapsAsClass (← c.printWith unit)
    return "new " ++ cls ++ "(" ++ ", ".intercalate (← printAll unit as) ++ ")"
  | .function ps b => do
    let params ← printAll unit ps
    let body ← b.printWith unit
    needBlock "Function" b
    return "function (" ++ ", ".intercalate params ++ ") " ++ body
  | .block ss => do
    return braced unit "\n" ((← printAll unit ss).filter (!·.isEmpty))
  | .statement e => do
    return parenthesised e.wrapsAsStatement (← e.printWith unit) ++ ";"
  | .object fs => do
    return braced unit ",\n" (← printFields unit fs)
  | .ret value => do
    match ← printOption unit value with
    | some value => return "return " ++ value ++ ";"
    | none => return "return;"
  | .branch c t o => do
    let test ← c.printWith unit
    let body ← t.printWith unit
    let otherwise ← printOption unit o
    needBlock "If" t
    needElse o
    return "if (" ++ test ++ ") " ++ body ++ (otherwise.map (" else " ++ ·)).getD ""
  | .whileLoop c b => do
    let test ← c.printWith unit
    let body ← b.printWith unit
    needBlock "While" b
    return "while (" ++ test ++ ") " ++ body
  | .forLoop i c s b => do
    let init ← printOption unit i
    let test ← printOption unit c
    let step ← printOption unit s
    let body ← b.printWith unit
    needBlock "For" b
    return "for (" ++ init.getD "" ++ "; " ++ test.getD "" ++ "; " ++ step.getD "" ++ ") " ++ body
  | .tryCatch b h f => do
    let body ← b.printWith unit
    let handler ← printHandler unit h
    let cleanup ← printOption unit f
    needBlock "Try" b
    return "try " ++ body ++ handler ++ (cleanup.map (" finally " ++ ·)).getD ""
  | .throwValue v => do return "throw " ++ (← v.printWith unit) ++ ";"
  | .breakLoop => return "break;"
  | .continueLoop => return "continue;"
  | .nop => return ""

def printAll (unit : String) : List Node → Built (List String)
  | [] => return []
  | n :: ns => do
    let text ← n.printWith unit
    return text :: (← printAll unit ns)

def printOption (unit : String) : Option Node → Built (Option String)
  | none => return none
  | some n => do return some (← n.printWith unit)

def printFields (unit : String) : List Field → Built (List String)
  | [] => return []
  | ⟨key, value⟩ :: fs => do
    let text ← value.printWith unit
    return (Quoted.quote key ++ ": " ++ text) :: (← printFields unit fs)

def printHandler (unit : String) : Option Handler → Built String
  | none => return ""
  | some ⟨binding, body⟩ => do return " catch (" ++ binding ++ ") " ++ (← body.printWith unit)

end

/-- The unit of indentation of an emitted program. -/
def indentUnit : String := "    "

/-- The text of a node. -/
def Node.print (n : Node) : Built String := n.printWith indentUnit

end ClassScript.Script
