import ChatCommands.Decimal
import ChatCommands.Text.Quoted

/-!
# Settings and their display

A setting is what a settings file can hold: a scalar, a list or a table of settings. Settings also
identify users, roles, channels and servers, which the chat backend chooses, and are what a
command is called with and may answer with.

Two settings are the same if they are written alike once their numbers are: a truth value counts
as the number one or zero, and a fraction without places as a whole number.

## Main definitions

* `Scalar`, `Setting`: values without and with structure
* `Setting.shown`, `Setting.written`: the displayed form, and the form inside another setting
* `Setting.same`: whether two settings are the same
* `Setting.counts`, `Setting.typeName`: whether a setting is given, and of what type it is

## Main results

* `Setting.same_equivalence`: being the same is an equivalence
-/

namespace ChatCommands

/-- A value without structure. -/
inductive Scalar where
  | null
  | bool (b : Bool)
  | int (i : Int)
  | decimal (d : Decimal)
  | text (s : String)
  deriving DecidableEq, Repr, Inhabited

namespace Scalar

/-- The displayed form. -/
def shown : Scalar → String
  | null => "None"
  | bool true => "True"
  | bool false => "False"
  | int i => toString i
  | decimal d => d.shown
  | text s => s

/-- The form inside another value: texts are quoted. -/
def written : Scalar → String
  | text s => quoted s
  | v => v.shown

/-- The number that the value stands for, if it stands for one. -/
def number? : Scalar → Option Decimal
  | bool b => some (.ofInt b.toInt)
  | int i => some (.ofInt i)
  | decimal d => some d.exact
  | _ => none

/-- The value with its number written in the only way there is for it: whole numbers without
places, and fractions without idle zeros. -/
def normal : Scalar → Scalar
  | bool b => int b.toInt
  | decimal d =>
    match d.whole? with
    | some i => int i
    | none => decimal d.trimmed
  | v => v

/-- Whether the value counts as given: nothing, zero and the empty text do not. -/
def counts : Scalar → Bool
  | null => false
  | bool b => b
  | int i => i ≠ 0
  | decimal d => d.digits ≠ 0
  | text s => s ≠ ""

/-- The text, or no text. -/
def ofText? : Option String → Scalar
  | none => null
  | some s => text s

end Scalar

/-- A value that a settings file can hold. -/
inductive Setting where
  | scalar (v : Scalar)
  | list (items : List Setting)
  | table (fields : List (String × Setting))
  deriving Repr, Inhabited

/-- Named settings, each name at most once. -/
abbrev Fields := List (String × Setting)

/-- Fields with one of them set, in its place if it has one. -/
def Fields.put (fields : Fields) (name : String) (v : Setting) : Fields :=
  if fields.any fun f => f.1 = name then
    fields.map fun f => if f.1 = name then (name, v) else f
  else fields ++ [(name, v)]

namespace Setting

mutual

/-- Settings can be told apart. -/
def decEq : (a b : Setting) → Decidable (a = b)
  | .scalar v, .scalar w => decidable_of_iff (v = w) (by simp)
  | .list xs, .list ys =>
    match decEqItems xs ys with
    | .isTrue h => .isTrue (by rw [h])
    | .isFalse h => .isFalse (by simpa using h)
  | .table xs, .table ys =>
    match decEqFields xs ys with
    | .isTrue h => .isTrue (by rw [h])
    | .isFalse h => .isFalse (by simpa using h)
  | .scalar _, .list _ | .scalar _, .table _ | .list _, .scalar _ | .list _, .table _
  | .table _, .scalar _ | .table _, .list _ => .isFalse (by simp)

/-- The items of lists can be told apart. -/
def decEqItems : (a b : List Setting) → Decidable (a = b)
  | [], [] => .isTrue rfl
  | x :: xs, y :: ys =>
    match decEq x y, decEqItems xs ys with
    | .isTrue h, .isTrue k => .isTrue (by rw [h, k])
    | .isFalse h, _ => .isFalse (by simp [h])
    | _, .isFalse k => .isFalse (by simp [k])
  | [], _ :: _ | _ :: _, [] => .isFalse (by simp)

/-- The fields of tables can be told apart. -/
def decEqFields : (a b : Fields) → Decidable (a = b)
  | [], [] => .isTrue rfl
  | (n, x) :: xs, (m, y) :: ys =>
    match decEq x y, decEqFields xs ys with
    | .isTrue h, .isTrue k => decidable_of_iff (n = m) (by simp [h, k])
    | .isFalse h, _ => .isFalse (by simp [h])
    | _, .isFalse k => .isFalse (by simp [k])
  | [], _ :: _ | _ :: _, [] => .isFalse (by simp)

end

instance : DecidableEq Setting := decEq

/-- The empty setting. -/
abbrev null : Setting := .scalar .null

/-- A text as a setting. -/
abbrev text (s : String) : Setting := .scalar (.text s)

/-- A whole number as a setting. -/
abbrev int (i : Int) : Setting := .scalar (.int i)

/-- A truth value as a setting. -/
abbrev bool (b : Bool) : Setting := .scalar (.bool b)

instance : Coe String Setting := ⟨text⟩

/-- A text, or no text. -/
def ofText? (s : Option String) : Setting := .scalar (.ofText? s)

/-- Whether the setting is empty. -/
def isNull : Setting → Bool
  | .scalar .null => true
  | _ => false

/-- The text that the setting is, if it is one. -/
def text? : Setting → Option String
  | .scalar (.text s) => some s
  | _ => none

/-- The number that the setting stands for, if it stands for one. -/
def number? : Setting → Option Decimal
  | .scalar v => v.number?
  | _ => none

mutual

/-- The form inside another setting. -/
def written : Setting → String
  | .scalar v => v.written
  | .list items => "[" ++ ", ".intercalate (writtenItems items) ++ "]"
  | .table fields => "\x7b" ++ ", ".intercalate (writtenFields fields) ++ "\x7d"

/-- The forms of the items of a list. -/
def writtenItems : List Setting → List String
  | [] => []
  | v :: vs => v.written :: writtenItems vs

/-- The forms of the fields of a table. -/
def writtenFields : Fields → List String
  | [] => []
  | (n, v) :: fs => (quoted n ++ ": " ++ v.written) :: writtenFields fs

end

/-- The displayed form: a text stands for itself. -/
def shown : Setting → String
  | .scalar v => v.shown
  | v => v.written

mutual

/-- The setting with all its numbers written in the only way there is for each. -/
def normal : Setting → Setting
  | .scalar v => .scalar v.normal
  | .list items => .list (normalItems items)
  | .table fields => .table (normalFields fields)

/-- The items of a list in their normal form. -/
def normalItems : List Setting → List Setting
  | [] => []
  | v :: vs => v.normal :: normalItems vs

/-- The fields of a table in their normal form. -/
def normalFields : Fields → Fields
  | [] => []
  | (n, v) :: fs => (n, v.normal) :: normalFields fs

end

/-- Whether two settings are the same. -/
def same (a b : Setting) : Bool := a.normal = b.normal

/-- Whether the value counts as given: nothing, zero and empty texts, lists and tables do not. -/
def counts : Setting → Bool
  | .scalar v => v.counts
  | .list items => !items.isEmpty
  | .table fields => !fields.isEmpty

/-- The word for the type of a setting in messages. -/
def typeName : Setting → String
  | .scalar .null => "NoneType"
  | .scalar (.bool _) => "bool"
  | .scalar (.int _) => "int"
  | .scalar (.decimal _) => "float"
  | .scalar (.text _) => "str"
  | .list _ => "list"
  | .table _ => "dict"

/-- Being the same is an equivalence, as it is to have the same normal form. -/
theorem same_equivalence : Equivalence fun a b : Setting => a.same b = true where
  refl _ := decide_eq_true rfl
  symm h := decide_eq_true (of_decide_eq_true h).symm
  trans h k := decide_eq_true ((of_decide_eq_true h).trans (of_decide_eq_true k))

end Setting

end ChatCommands
