/-! The operators of the language and their symbols. -/

set_option autoImplicit false

namespace TabScript

inductive Operator where
  | add
  | subtract
  | multiply
  | divide
  | modulo
  | power
  | equal
  | notEqual
  | less
  | lessEqual
  | greater
  | greaterEqual
  | same
  | both
  | either
  | negate
  deriving DecidableEq, Repr

namespace Operator

def symbol : Operator → String
  | add => "+"
  | subtract => "-"
  | multiply => "*"
  | divide => "/"
  | modulo => "%"
  | power => "**"
  | equal => "=="
  | notEqual => "!="
  | less => "<"
  | lessEqual => "<="
  | greater => ">"
  | greaterEqual => ">="
  | same => "is"
  | both => "and"
  | either => "or"
  | negate => "not"

def binary? : String → Option Operator
  | "+" => some add
  | "-" => some subtract
  | "*" => some multiply
  | "/" => some divide
  | "%" => some modulo
  | "**" => some power
  | "==" => some equal
  | "!=" => some notEqual
  | "<" => some less
  | "<=" => some lessEqual
  | ">" => some greater
  | ">=" => some greaterEqual
  | "is" => some same
  | "and" => some both
  | "or" => some either
  | _ => none

def unary? : String → Option Operator
  | "+" => some add
  | "-" => some subtract
  | "not" => some negate
  | "!" => some negate
  | _ => none

end Operator

end TabScript
