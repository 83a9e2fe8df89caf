import ClassScript.Diagnostic
import ClassScript.Registry.Visibility
import ClassScript.Tree.Pass
/-!
# Access to members of `$this`

Every access to a member of `$this` inside of a class is marked with the bucket the member lives in,
which is its visibility. The registry has to know all ancestors for that.
-/

namespace ClassScript.Annotate

/-- The member of `$this` that an expression reads or calls. -/
def thisMember? : Expr → Option MemberName
  | .property _ o n _ => if o.isThis then some n else none
  | .methodCall _ o n _ _ => if o.isThis then some n else none
  | _ => none

def withBucket (bucket : Visibility) : Expr → Expr
  | .property p o n _ => .property p o n (some bucket)
  | .methodCall p o n as _ => .methodCall p o n as (some bucket)
  | e => e

/-- The name of a member of `$this` is computed. -/
def computedAccess : Diagnostic :=
  { kind := .unsupported
    message := "cannot compile access to this with variable expression" }

/-- The bucket of a member of `$this` in a class, for an access at a position. -/
def bucketOf (cls : String) (pos : Position) : MemberName → Registry.Query Visibility
  | .ident n => ExceptT.adapt (·.placed pos) (Registry.visibility cls n)
  | .dynamic _ => throw (computedAccess.placed pos)

/-- The pass that marks the access to members of `$this`; it reads the class around a place. -/
def access : Pass (ReaderT (Option String) Registry.Query) where
  expr e below := do
    match thisMember? e, ← read with
    | some n, some cls =>
      let bucket ← bucketOf cls e.pos n
      return withBucket bucket (← below)
    | _, _ => below
  cls c below := fun _ => below.run (some c.qualifiedName)

end ClassScript.Annotate

namespace ClassScript

/-- The file with the access to members of `$this` marked. -/
def SourceFile.markAccess (f : SourceFile) : Registry.Query SourceFile :=
  ExceptT.adapt (·.inFile f.path) ((f.through Annotate.access).run none)

end ClassScript
