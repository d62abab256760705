import Mathlib.Tactic.Common

/-! # JSON values

What a JSON text holds, with the reads of the server: a key of an object and the text of a
string. A key that is absent is written out as `null`.
-/
namespace Epistl

inductive Json
  | null
  | bool (b : Bool)
  | number (digits : String)
  | string (text : String)
  | array (items : List Json)
  | object (fields : List (String × Json))

namespace Json

/-- `Value::get` at a key. -/
def get : Json → String → Option Json
  | object fields, key => (fields.find? fun field => field.1 = key).map Prod.snd
  | _, _ => none

def asStr : Json → Option String
  | string text => some text
  | _ => none

/-- How `json!` writes an `Option<&Value>`. -/
def ofOption : Option Json → Json
  | none => null
  | some v => v

theorem asStr_eq_some {v : Json} {text : String} : v.asStr = some text ↔ v = .string text := by
  cases v <;> simp [asStr]

@[simp] theorem ofOption_asStr (v : Option Json) : (ofOption v).asStr = v.bind asStr := by
  cases v <;> rfl

end Json
end Epistl
