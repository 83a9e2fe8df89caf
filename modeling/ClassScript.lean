import ClassScript.Annotate
import ClassScript.Annotate.Access
import ClassScript.Command
import ClassScript.Compile
import ClassScript.Dependencies
import ClassScript.Emit.Builtin
import ClassScript.Emit.Class
import ClassScript.Emit.Interface
import ClassScript.Grammar
import ClassScript.Json.Print
import ClassScript.Json.Read
import ClassScript.Locator
import ClassScript.Main
import ClassScript.Program
import ClassScript.Registry.Hierarchy
import ClassScript.Registry.Order
import ClassScript.Session
import ClassScript.Simplify
import ClassScript.Subset
import ClassScript.Proofs.Tree.Rebuilt
import ClassScript.Proofs.Tree.Through
import ClassScript.Proofs.Tree.Throughout
import ClassScript.Proofs.Simplify.Names
import ClassScript.Proofs.Simplify.Owner
import ClassScript.Proofs.Simplify.Guard
import ClassScript.Proofs.Simplify.Arrays
import ClassScript.Proofs.Simplify.Initialise
import ClassScript.Proofs.Simplify.NormalForm
import ClassScript.Proofs.Script.Build
import ClassScript.Proofs.Emit.Safe
import ClassScript.Proofs.Emit.Ready
import ClassScript.Proofs.Annotate.Marks
import ClassScript.Proofs.Emit.Method
import ClassScript.Proofs.Annotate.Scope
import ClassScript.Proofs.Grammar.Gives
import ClassScript.Proofs.Simplify.Zone
import ClassScript.Proofs.Grammar.Written
import ClassScript.Proofs.Grammar.Statement
import ClassScript.Proofs.Annotate.Locals
import ClassScript.Proofs.Session.Run
import ClassScript.Proofs.Registry.Names
import ClassScript.Proofs.Session.Complete
import ClassScript.Proofs.Registry.Order
import ClassScript.Proofs.Annotate.Access
import ClassScript.Proofs.Session.Worklist
import ClassScript.Proofs.Program.Namespaces
import ClassScript.Proofs.Program.Declarations
import ClassScript.Proofs.Registry.Lineage
import ClassScript.Proofs.Emit.Keeps
import ClassScript.Proofs.Script.Made
import ClassScript.Proofs.Emit.Instance
import ClassScript.Proofs.Script.Printable
import ClassScript.Proofs.Script.Constructed
import ClassScript.Proofs.Emit.Printable
import ClassScript.Proofs.Emit.Construct
import ClassScript.Proofs.Text.Quoted
import ClassScript.Proofs.Script.Lexeme
import ClassScript.Proofs.Script.Plain
import ClassScript.Proofs.Script.Spelling
import ClassScript.Proofs.Script.Reading
import ClassScript.Proofs.Script.Unambiguous
import ClassScript.Proofs.Emit.InstanceCheck
import ClassScript.Proofs.Registry.Reach
import ClassScript.Proofs.Tree.Signature
import ClassScript.Proofs.Registry.Records
import ClassScript.Proofs.Registry.Constants
import ClassScript.Proofs.Registry.Behind
import ClassScript.Proofs.Script.Load
import ClassScript.Proofs.Emit.Load
import ClassScript.Proofs.Emit.Section
import ClassScript.Proofs.Emit.Table
import ClassScript.Proofs.Session.Merged
import ClassScript.Proofs.Session.Prepared
import ClassScript.Proofs.Program.Compiled
import ClassScript.Proofs.Program.LoadOrder
import ClassScript.Proofs.Program.Entry
import ClassScript.Proofs.Grammar.Precedence
import ClassScript.Proofs.Tree.Contains
import ClassScript.Proofs.Subset
import ClassScript.Proofs.Grammar.Progress
import ClassScript.Proofs.Simplify.Idempotent
import ClassScript.Proofs.Registry.Memo
import ClassScript.Proofs.Simplify.Again
import ClassScript.Proofs.Simplify.Prologue
import ClassScript.Proofs.Registry.Topological
import ClassScript.Proofs.Registry.Inheritance
import ClassScript.Proofs.Simplify.Jumps
import ClassScript.Proofs.Simplify.Iteration
import ClassScript.Proofs.Registry.Growth
import ClassScript.Proofs.Registry.Hierarchy
import ClassScript.Proofs.Simplify.TypeCheck
import ClassScript.Proofs.Emit.Declaration
import ClassScript.Proofs.Emit.Initialiser
import ClassScript.Proofs.Text.Word
import ClassScript.Proofs.Emit.Constructor
import ClassScript.Proofs.Session.Reference
import ClassScript.Proofs.Locator.LongestPrefix
import ClassScript.Proofs.Script.Mentions
import ClassScript.Proofs.Emit.Hygiene
import ClassScript.Proofs.Program.PrefixTree
import ClassScript.Proofs.Token.StringLiteral
import ClassScript.Proofs.Script.Indentation
import ClassScript.Proofs.Emit.Dispatch
import ClassScript.Proofs.Name
import ClassScript.Proofs.Text.Position
import ClassScript.Proofs.Token.Location
import ClassScript.Proofs.Tree.Traversal
import ClassScript.Proofs.Tree.Composition
import ClassScript.Proofs.Annotate.Decoration
