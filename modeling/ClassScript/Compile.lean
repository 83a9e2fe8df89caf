import ClassScript.Annotate.Access
import ClassScript.Emit.Class
import ClassScript.Emit.Interface
import ClassScript.Program
import ClassScript.Registry.Order
import ClassScript.Session
/-!
# Compiling a program

The class that a program starts from is the only one that has the script interface. All declarations
that the program depends on are emitted, interfaces first, each behind those it builds on.
-/

namespace ClassScript

namespace Compile

inductive Fault where
  | noEntry (scriptInterface : String)
  | severalEntries (scriptInterface : String) (classes : List String)
  | noEntryMethod (cls method : String)
  | undeclared (what name : String)
deriving DecidableEq, Repr

def Fault.diagnostic : Fault → Diagnostic
  | noEntry script =>
    { kind := .entryPoint
      message := "no class implements " ++ script
      hints := ["the entry file must declare the script class"] }
  | severalEntries script classes =>
    { kind := .entryPoint
      message := toString classes.length ++ " classes implement " ++ script ++ ": "
        ++ ", ".intercalate classes }
  | noEntryMethod cls method =>
    { kind := .entryPoint, message := cls ++ " has no method " ++ method ++ "()" }
  | undeclared what name =>
    { kind := .internal, message := what ++ " " ++ name ++ " has no declaration" }

/-- Whether a class or one of its ancestors declares a method. -/
def hasMethod (r : Registry) (cls method : String) : Bool :=
  r.anyAncestor (fun c => (c.methods.lookup method).isSome) [] cls

/-- The class that a program starts from. -/
def entryClass (r : Registry) (o : Options) : Except Fault String :=
  match r.implementing o.scriptInterface with
  | [entry] =>
    if hasMethod r entry o.entryMethod then .ok entry
    else .error (.noEntryMethod entry o.entryMethod)
  | [] => .error (.noEntry o.scriptInterface)
  | classes => .error (.severalEntries o.scriptInterface classes)

/-- The classes of some files, each with the path of its file. -/
def classesOf (units : List SourceFile) : List (Class × String) :=
  units.flatMap fun f => f.classes.map (·, f.path)

/-- The interfaces of some files, each with the path of its file. -/
def interfacesOf (units : List SourceFile) : List (Interface × String) :=
  units.flatMap fun f => f.interfaces.map (·, f.path)

def emitInterface (r : Registry) (units : List SourceFile) (name : String) :
    Result (String × List Script.Node) :=
  match (interfacesOf units).find? (·.1.qualifiedName == name) with
  | some (i, path) => do return (name, ← (i.emit r).mapError (·.inFile path))
  | none => .error (Fault.undeclared "interface" name).diagnostic

def emitClass (r : Registry) (units : List SourceFile) (name : String) :
    Result (String × Script.Node) :=
  match (classesOf units).find? (·.1.qualifiedName == name) with
  | some (c, path) => do return (name, ← (c.emit r).mapError (·.inFile path))
  | none => .error (Fault.undeclared "class" name).diagnostic

/-- The script APIs that the constructor of a class takes. -/
def scriptApisOf (units : List SourceFile) (cls : String) : List String :=
  match (classesOf units).find? (·.1.qualifiedName == cls) with
  | some (c, _) => c.scriptApis.getD []
  | none => []

/-- The parts of a program that starts from a class. -/
def parts (r : Registry) (o : Options) (units : List SourceFile) (entry : String) :
    Result Program.Parts := do
  let interfaces ← (← r.interfaceOrder).mapM (emitInterface r units)
  let classes ← (← r.classOrder).mapM (emitClass r units)
  return {
    namespaces := r.namespaces
    interfaces
    classes
    entryClass := entry
    scriptApis := scriptApisOf units entry
    entryMethod := o.entryMethod }

/-- The program of a finished session. -/
def program (o : Options) (s : Session) : Result Program := do
  let (marked, r) := (s.units.mapM SourceFile.markAccess).run s.registry
  let units ← marked
  let entry ← (entryClass r o).mapError Fault.diagnostic
  Program.assemble (← parts r o units entry)

end Compile

/-- The stages of a lone file before emission: the file to emit, and the declarations known by then. -/
def SourceFile.stages (pipeline : Pipeline) (scriptInterface : String) (f : SourceFile) :
    Result (SourceFile × Registry) := do
  let simple ← f.simplify pipeline scriptInterface
  let annotated ← simple.violation?.elim (simple.annotate scriptInterface) fun v => .error v.diagnostic
  let (added, registry) := (Registry.addFile annotated false).run.run {}
  let _ ← added
  let marked ← (annotated.markAccess.run.run registry).1
  return (marked, registry)

/-- The program whose entry class is declared in a file. -/
def compile (files : FileSystem) (options : Options) (entry : Path) : Result Program := do
  let options := options.withEntry entry
  let env : Setting := { files, options, locator := .standard files options }
  Compile.program options (← Session.run env entry)

end ClassScript
