import ClassScript.Text.Word
/-!
# Namespace trees

The namespaces of a program as nested objects, one level for each segment. The children of a node
are in the order of their segments.
-/

namespace ClassScript

inductive NamespaceTree where
  | node (children : List (String × NamespaceTree))

namespace NamespaceTree

def children : NamespaceTree → List (String × NamespaceTree)
  | node cs => cs

def empty : NamespaceTree := node []

instance : Inhabited NamespaceTree := ⟨empty⟩

def isEmpty (t : NamespaceTree) : Bool := t.children.isEmpty

/-- Changes the child at a segment, which is put in its place if it is not there yet. -/
def modifyChild (segment : String) (f : NamespaceTree → NamespaceTree) :
    List (String × NamespaceTree) → List (String × NamespaceTree)
  | [] => [(segment, f empty)]
  | (s, t) :: rest =>
    if segment = s then (s, f t) :: rest
    else if segment < s then (segment, f empty) :: (s, t) :: rest
    else (s, t) :: modifyChild segment f rest

/-- Adds a path of segments. -/
def insertPath : List String → NamespaceTree → NamespaceTree
  | [], t => t
  | s :: path, t => node (modifyChild s (insertPath path) t.children)

/-- The segments of a text that are not empty. -/
def pathOf (pieces : List (List Char)) : List String :=
  (pieces.filter (!·.isEmpty)).map String.ofList

/-- Adds a namespace. -/
def insert (t : NamespaceTree) (name : String) : NamespaceTree :=
  insertPath (pathOf (segments '\\' name.toList)) t

/-- Adds the namespace around a declaration: all but the last segment of its name. -/
def insertDeclaration (t : NamespaceTree) (qualified : String) : NamespaceTree :=
  insertPath (pathOf (segments '\\' qualified.toList).dropLast) t

/-- The namespaces around the given declarations. -/
def ofDeclarations (names : List String) : NamespaceTree := names.foldl insertDeclaration empty

end NamespaceTree

end ClassScript
