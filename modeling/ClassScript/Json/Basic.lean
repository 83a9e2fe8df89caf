import ClassScript.Text.Dictionary
/-!
# JSON values

A text of a JSON document may escape half of a surrogate pair. Such a text has no characters; it is
kept as `none`, since a reader can skip it but not use it. Numbers are kept as they are spelled, and
the fields of an object as they are listed.
-/

namespace ClassScript

mutual

inductive Json where
  | null
  | bool (value : Bool)
  | number (spelling : String)
  | string (value : Option String)
  | array (items : List Json)
  | object (fields : List JsonField)

structure JsonField where
  key : Option String
  value : Json

end

namespace Json

instance : Inhabited Json := ⟨.null⟩

def text? : Json → Option String
  | string s => s
  | _ => none

def bool? : Json → Option Bool
  | bool b => some b
  | _ => none

def array? : Json → Option (List Json)
  | array js => some js
  | _ => none

end Json

/-! ## Properties under keys -/

/-- JSON values under text keys. -/
abbrev Properties := Dictionary Json

namespace Properties

def text? (ps : Properties) (key : String) : Option String := ps.get? key >>= Json.text?

def bool? (ps : Properties) (key : String) : Option Bool := ps.get? key >>= Json.bool?

/-- Whether the value is `true`. -/
def flag (ps : Properties) (key : String) : Bool := (ps.bool? key).getD false

/-- The texts in the array under a key; other entries of it do not count. -/
def texts? (ps : Properties) (key : String) : Option (List String) :=
  (ps.get? key >>= Json.array?).map (·.filterMap Json.text?)

end Properties

end ClassScript
