/-
LiveProbe/Json.lean

JSON values, as `JSON.parse` builds them and `JSON.stringify` reads them.
A number is the rational it denotes; every number of a JSON text is finite and
the two zeros are one.  An object is its list of members in order.

`stripKey` is the replacer of a `JSON.stringify` call that leaves one member
name out at every depth, arrays included.
-/
import LiveProbe.JsString
import Mathlib.Data.Rat.Defs

/-- A JSON value. -/
inductive Json
  | null
  | bool (b : Bool)
  | num (q : ℚ)
  | str (s : JsString)
  | arr (items : List Json)
  | obj (members : List (JsString × Json))
  deriving Inhabited

namespace Json

mutual

/-- Remove the members named `key`, at every depth. -/
def stripKey (key : JsString) : Json → Json
  | null => null
  | bool b => bool b
  | num q => num q
  | str s => str s
  | arr items => arr (stripKeyItems key items)
  | obj members => obj (stripKeyMembers key members)

def stripKeyItems (key : JsString) : List Json → List Json
  | [] => []
  | v :: t => stripKey key v :: stripKeyItems key t

def stripKeyMembers (key : JsString) : List (JsString × Json) → List (JsString × Json)
  | [] => []
  | (k, v) :: t =>
    if k = key then stripKeyMembers key t else (k, stripKey key v) :: stripKeyMembers key t

end

/-- `value[key]`; `none` is `undefined`. -/
def get? (v : Json) (key : JsString) : Option Json :=
  match v with
  | obj members => (members.find? fun m => m.1 = key).map Prod.snd
  | _ => none

end Json
