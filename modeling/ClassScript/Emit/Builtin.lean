import ClassScript.Emit.Fault
import ClassScript.Script.Build
import ClassScript.Tree.Operator
/-!
# Builtin functions and constants

A builtin function has no declaration; a call to it is spelled out in terms of its arguments. The
table gives each function by the number of arguments it takes, so that what it expands to never
lacks one. Function names are compared without regard to case, names of constants with it.
-/

namespace ClassScript.Emit

open Script

/-- What a call expands to, by the number of arguments. -/
inductive Expansion where
  | one (f : Node → Built Node)
  | two (f : Node → Node → Built Node)
  | three (f : Node → Node → Node → Built Node)
  | twoOrThree (f : Node → Node → List Node → Built Node)
  | oneOrMore (f : Node → List Node → Built Node)
  | twoOrMore (f : Node → Node → List Node → Built Node)

namespace Expansion

/-- The numbers of arguments, in words. -/
def arity : Expansion → String
  | one _ => "1"
  | two _ => "2"
  | three _ => "3"
  | twoOrThree _ => "2 to 3"
  | oneOrMore _ => "at least 1"
  | twoOrMore _ => "at least 2"

/-- The expansion for these arguments; `none` if there are too few or too many. -/
def on? : Expansion → List Node → Option (Built Node)
  | one f, [a] => some (f a)
  | two f, [a, b] => some (f a b)
  | three f, [a, b, c] => some (f a b c)
  | twoOrThree f, [a, b] => some (f a b [])
  | twoOrThree f, [a, b, c] => some (f a b [c])
  | oneOrMore f, a :: rest => some (f a rest)
  | twoOrMore f, a :: b :: rest => some (f a b rest)
  | _, _ => none

end Expansion

namespace Builtin

/-- A call of a function of the prelude. -/
def helper (name : String) (args : List Node) : Built Node := do call (← ident name) args

def helper1 (name : String) : Expansion := .one fun a => helper name [a]

def typeTest (type : String) : Expansion := .one fun a => helper "__isType" [a, .string type]

def method1 (name : String) : Expansion := .one fun a => methodCall a name []

def method2 (name : String) : Expansion := .two fun a b => methodCall a name [b]

/-- The second argument receives the call. -/
def swapped (name : String) : Expansion := .two fun a b => methodCall b name [a]

def math (name : String) (args : List Node) : Built Node := do call (← path ["Math", name]) args

def math1 (name : String) : Expansion := .one fun a => math name [a]

def replace (search replacement subject : Node) : Built Node := do
  methodCall (← methodCall subject "split" [search]) "join" [replacement]

def explode (separator text : Node) : Built Node := do
  helper "__toPhpArray" [← methodCall text "split" [separator]]

/-- The conversion functions, which casts apply as well. -/
def convert : CastType → Node → Built Node
  | .int, a => helper "__intval" [a]
  | .float, a => helper "__floatval" [a]
  | .string, a => helper "__strval" [a]
  | .bool, a => helper "__boolval" [a]

/-- The functions by name, in small letters. -/
def functions : List (String × Expansion) :=
  [("is_string", typeTest "string"),
    ("is_int", typeTest "int"),
    ("is_integer", typeTest "int"),
    ("is_float", typeTest "float"),
    ("is_bool", typeTest "bool"),
    ("is_array", typeTest "array"),
    ("is_object", typeTest "object"),
    ("is_numeric", typeTest "numeric"),
    ("is_callable", typeTest "callable"),
    ("is_null", .one fun a => binary "===" a null),
    ("gettype", helper1 "__gettype"),
    ("empty", helper1 "__empty"),
    ("intval", .one (convert .int)),
    ("floatval", .one (convert .float)),
    ("strval", .one (convert .string)),
    ("boolval", .one (convert .bool)),
    ("strlen", .one fun a => member a "length"),
    ("strtoupper", method1 "toUpperCase"),
    ("strtolower", method1 "toLowerCase"),
    ("trim", method1 "trim"),
    ("ltrim", method1 "trimStart"),
    ("rtrim", method1 "trimEnd"),
    ("str_repeat", method2 "repeat"),
    ("substr", .twoOrThree fun a b more => methodCall a "substr" (b :: more)),
    ("strpos", .two fun a b => helper "__strpos" [a, b]),
    ("str_contains", method2 "includes"),
    ("str_starts_with", method2 "startsWith"),
    ("str_ends_with", method2 "endsWith"),
    ("str_replace", .three replace),
    ("explode", .two explode),
    ("implode", swapped "join"),
    ("count", method1 "count"),
    ("in_array", swapped "contains"),
    ("array_key_exists", swapped "hasItemAt"),
    ("array_keys", method1 "keys"),
    ("array_values", method1 "values"),
    ("array_push", .twoOrMore fun a b more => methodCall a "push" (b :: more)),
    ("abs", math1 "abs"),
    ("floor", math1 "floor"),
    ("ceil", math1 "ceil"),
    ("round", math1 "round"),
    ("sqrt", math1 "sqrt"),
    ("pow", .two fun a b => math "pow" [a, b]),
    ("max", .oneOrMore fun a more => math "max" (a :: more)),
    ("min", .oneOrMore fun a more => math "min" (a :: more))]

def constants : List (String × Built Node) :=
  [("PHP_EOL", .ok (.string "\n")),
    ("PHP_INT_MAX", .ok (.int 9007199254740991)),
    ("M_PI", path ["Math", "PI"])]

/-- Functions that the prelude defines under their own names. -/
def preludeFunctions : List String := ["print_r", "var_dump"]

def function? (name : String) : Option Expansion := functions.lookup (lower name)

def constant? (name : String) : Option (Built Node) := constants.lookup name

/-- Whether the name is that of a builtin function or constant. -/
def isBuiltin (name : String) : Bool := (function? name).isSome || (constant? name).isSome

/-- Whether the prelude defines the name as it is. -/
def inPrelude (name : String) : Bool := preludeFunctions.contains name

/-- The call of a builtin function; `none` if the name is none of them. -/
def call? (name : String) (args : List Node) : Option (Result Node) :=
  (function? name).map fun f => match f.on? args with
    | some node => liftM node
    | none => .error (Fault.arity (lower name) f.arity args.length).diagnostic

end Builtin

end ClassScript.Emit
