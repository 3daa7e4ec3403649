import Lox.Expr
import Lox.Number.Shortest

/-!
# Printed trees

Trees are printed with the operator in front of its operands and a pair of parentheses around them.
Strings are printed without quotes, so a printed tree is for reading and not for reading back.
-/

namespace Lox

/-- A name and its operands between parentheses. -/
def parenthesize (name : Text) (operands : List Text) : Text :=
  '(' :: name ++ ' ' :: [' '].intercalate operands ++ [')']

def Literal.toText : Literal → Text
  | number value => value.toText
  | string value => value
  | boolean true => "true".toList
  | boolean false => "false".toList
  | nil => "nil".toList

def Expr.toText : Expr → Text
  | literal value => value.toText
  | grouping inner => parenthesize "group".toList [inner.toText]
  | unary operator right => parenthesize operator.lexeme [right.toText]
  | binary left operator right => parenthesize operator.lexeme [left.toText, right.toText]

def Stmt.toText : Stmt → Text
  | expression e => parenthesize [';'] [e.toText]
  | print e => parenthesize "print".toList [e.toText]

end Lox
