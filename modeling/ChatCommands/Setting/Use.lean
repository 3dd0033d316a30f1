import ChatCommands.Failure
import ChatCommands.Text.Mark

/-!
# The use of settings

A setting of a wrong type is noticed when it is used: when it is compared with another, when
something is kept under it, when its items are asked for, or when something is looked for in it.

## Main definitions

* `Comparison`, `Setting.compare`: two settings as numbers
* `Setting.key`: what something is kept under
* `Setting.items`: what a setting is made of
* `Setting.contains`: whether something is found in a setting

## Main results

* `Setting.compare_int`: whole numbers are compared as such
* `Setting.key_eq_key_iff`: what is kept under a setting is found under the same settings
-/

namespace ChatCommands

/-- The ways to compare two numbers. -/
inductive Comparison where
  | less
  | atMost
  | greater
  | atLeast
  deriving DecidableEq, Repr, Inhabited

namespace Comparison

/-- The sign of a comparison. -/
def sign : Comparison → String
  | less => "<"
  | atMost => "<="
  | greater => ">"
  | atLeast => ">="

/-- Whether a comparison holds. -/
def holds : Comparison → Decimal → Decimal → Bool
  | less, x, y => ¬y ≤ x
  | atMost, x, y => x ≤ y
  | greater, x, y => ¬x ≤ y
  | atLeast, x, y => y ≤ x

end Comparison

namespace Setting

/-- Compares two settings, which have to stand for numbers. -/
def compare (c : Comparison) (a b : Setting) : Except Fault Bool :=
  match a.number?, b.number? with
  | some x, some y => .ok (c.holds x y)
  | _, _ => .error (.notComparable c.sign a b)

/-- What something is kept under: any setting without structure. -/
def key : Setting → Except Fault Scalar
  | .scalar v => .ok v.normal
  | v => .error (.noKey v)

/-- What a setting is made of: the characters of a text, the items of a list, the names of a
table. -/
def items : Setting → Except Fault (List Setting)
  | .scalar (.text s) => .ok (s.toList.map fun c => .text c.toString)
  | .list vs => .ok vs
  | .table fields => .ok (fields.map fun f => .text f.1)
  | v => .error (.noItems v)

/-- Whether something is found in a setting: a text in a text, an item in a list, or a name in a
table. -/
def contains (v w : Setting) : Except Fault Bool :=
  match v with
  | .scalar (.text s) =>
    match w.text? with
    | some t => .ok (occursIn t s)
    | none =>
      .error (.wrongType ("'in <string>' requires string as left operand, not " ++ w.typeName))
  | .list vs => .ok (vs.any w.same)
  | .table fields => w.key.map fun k => fields.any fun f => Scalar.text f.1 = k
  | v => .error (.wrongType ("argument of type '" ++ v.typeName ++ "' is not iterable"))

/-- Whole numbers are compared as such. -/
theorem compare_int (c : Comparison) (a b : Int) :
    compare c (.int a) (.int b) = .ok
      (match c with
      | .less => decide (a < b)
      | .atMost => decide (a ≤ b)
      | .greater => decide (b < a)
      | .atLeast => decide (b ≤ a)) := by
  have key (x y : Int) : Decimal.ofInt x ≤ Decimal.ofInt y ↔ x ≤ y := by
    show (Decimal.ofInt x).units * ((Nat.pow 10 0 : Nat) : Int) ≤
      (Decimal.ofInt y).units * ((Nat.pow 10 0 : Nat) : Int) ↔ x ≤ y
    simp
  cases c <;> simp [compare, number?, Scalar.number?, Comparison.holds, key]

/-- What is kept under a setting is found under the same settings. -/
theorem key_eq_key_iff {a b : Setting} {x y : Scalar} (ha : a.key = .ok x) (hb : b.key = .ok y) :
    x = y ↔ a.same b := by
  cases a <;> cases b <;> simp_all [key, same, normal]

end Setting

end ChatCommands
