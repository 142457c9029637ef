/-
# Flock.Json — JSON values, and how `serde_json` lays them out over several lines.
-/
import Flock.Lib.Format

namespace Flock

/-- A JSON value; `ν` is what a number is kept as. -/
inductive Json (ν : Type) where
  | null
  | bool (b : Bool)
  | num (n : ν)
  | str (s : String)
  | arr (items : List (Json ν))
  | obj (fields : List (String × Json ν))

namespace Json

variable {ν : Type}

/-- `Value::get` with a string: the field of an object. -/
def get (v : Json ν) (name : String) : Option (Json ν) :=
  match v with
  | .obj fields => fields.lookup name
  | _ => none

/-- `Value::as_array`. -/
def asArray : Json ν → Option (List (Json ν))
  | .arr items => some items
  | _ => none

/-- `Value::as_str`. -/
def asStr : Json ν → Option String
  | .str s => some s
  | _ => none

end Json

namespace Json

variable {ν : Type}

/-- The line break before a value at some depth. -/
def newline (depth : ℕ) : String := "\n" ++ String.ofList (List.replicate (2 * depth) ' ')

/-- A quoted string. -/
def quote (s : String) : String := String.ofList (Lib.Format.quoted.print s)

mutual

/-- `PrettyFormatter`: an entry a line, two blanks a level, nothing between the brackets of an empty
value. -/
def pretty (number : ν → String) (depth : ℕ) : Json ν → String
  | .null => "null"
  | .bool b => if b then "true" else "false"
  | .num n => number n
  | .str s => quote s
  | .arr [] => "[]"
  | .arr (v :: rest) =>
      "[" ++ newline (depth + 1) ++ pretty number (depth + 1) v ++ prettyItems number depth rest
  | .obj [] => "\x7b\x7d"
  | .obj (entry :: rest) =>
      "\x7b" ++ newline (depth + 1) ++ prettyEntry number depth entry ++ prettyFields number depth rest

/-- The items of a list after the first, and its end. -/
def prettyItems (number : ν → String) (depth : ℕ) : List (Json ν) → String
  | [] => newline depth ++ "]"
  | v :: rest =>
      "," ++ newline (depth + 1) ++ pretty number (depth + 1) v ++ prettyItems number depth rest

/-- One field. -/
def prettyEntry (number : ν → String) (depth : ℕ) : String × Json ν → String
  | (name, v) => quote name ++ ": " ++ pretty number (depth + 1) v

/-- The fields of an object after the first, and its end. -/
def prettyFields (number : ν → String) (depth : ℕ) : List (String × Json ν) → String
  | [] => newline depth ++ "\x7d"
  | entry :: rest =>
      "," ++ newline (depth + 1) ++ prettyEntry number depth entry ++ prettyFields number depth rest

end

end Json

end Flock
