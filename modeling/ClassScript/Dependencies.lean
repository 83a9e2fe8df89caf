import ClassScript.ScriptApi
import ClassScript.Tree.Part
/-!
# Dependencies

The classes, interfaces and functions that a file mentions, each once, in source order. Types and
parents count, but `X::class` does not mention `X`.
-/

namespace ClassScript

/-- The class that a reference names. -/
def ClassRef.mentions : ClassRef → List Name
  | .named n => [n]
  | _ => []

/-- What an expression itself mentions. -/
def Expr.mentions : Expr → List Name
  | .new _ c _ | .instanceOf _ _ c => c.mentions
  | .classConst _ c n => if sameWord n "class" then [] else c.mentions
  | .call _ (.named n) _ => [n]
  | _ => []

def Param.mentions (p : Param) : List Name :=
  match p.type with
  | some t => if t.name.isScalar then [] else [t.name]
  | none => []

/-- The names that stand for the given ones; a name without segments stands for nothing. -/
def joinedNames (ns : List Name) : List String :=
  (ns.filter (!·.parts.isEmpty)).map Name.joined

/-- A script API and, before it, the class that implements it. -/
def apiMentions (api : String) : List String := (ScriptApi.implementation? api).toList ++ [api]

/-- What a part itself mentions, whatever stands below it. -/
def Part.mentions : Part → List String
  | expr e => joinedNames e.mentions
  | param p => joinedNames p.mentions
  | clause c => joinedNames c.types
  | cls c =>
    joinedNames (c.parent.toList ++ c.interfaces) ++ (c.scriptApis.getD []).flatMap apiMentions
  | iface i => joinedNames i.parents
  | stmt _ | closure _ | method _ => []

/-- The names that a file depends on. -/
def SourceFile.dependencies (f : SourceFile) : List String :=
  firsts (f.parts.flatMap Part.mentions)

end ClassScript
