import Stencil.Binary64
import Stencil.Template.Fault
/-!
# Tokens of a template

Text outside of tags is one token; inside of tags there are words, literals and signs.
-/

namespace Stencil.Template

/-- A sign of one or two characters. -/
inductive Sign where
  | plus | minus | times | divide | floorDivide | power | percent
  | dot | comma | colon | tilde | assign | pipe
  | equal | notEqual | greater | greaterEqual | less | lessEqual
  | bracketOpen | bracketClose | parenOpen | parenClose | braceOpen | braceClose
deriving DecidableEq

/-- The characters of the sign. -/
def Sign.text : Sign → String
  | plus => "+"
  | minus => "-"
  | times => "*"
  | divide => "/"
  | floorDivide => "//"
  | power => "**"
  | percent => "%"
  | dot => "."
  | comma => ","
  | colon => ":"
  | tilde => "~"
  | assign => "="
  | pipe => "|"
  | equal => "=="
  | notEqual => "!="
  | greater => ">"
  | greaterEqual => ">="
  | less => "<"
  | lessEqual => "<="
  | bracketOpen => "["
  | bracketClose => "]"
  | parenOpen => "("
  | parenClose => ")"
  | braceOpen => "\x7b"
  | braceClose => "\x7d"

/-- A token. -/
inductive Token where
  | data (text : String)
  | variableStart
  | variableEnd
  | blockStart
  | blockEnd
  | word (name : String)
  | string (text : String)
  | integer (n : Nat)
  | float (x : Binary64)
  | sign (s : Sign)
deriving DecidableEq

/-- The token as messages name it. -/
def Token.name : Token → String
  | data _ => "template-data"
  | variableStart => "start of variable block"
  | variableEnd => "end of variable block"
  | blockStart => "start of block"
  | blockEnd => "end of block"
  | word _ => "identifier"
  | string _ => "string"
  | integer _ => "integer"
  | float _ => "float"
  | sign s => "`" ++ s.text ++ "`"

/-- A token with the line where it starts. -/
structure Located where
  token : Token
  line : Nat
deriving DecidableEq

/-- The tokens of a template, and the fault where no further token can be read. -/
structure Scanned where
  tokens : List Located
  fault : Option Fault

end Stencil.Template
