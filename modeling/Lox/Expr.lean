import Lox.Token

/-!
# Expressions

The trees of expressions and statements. Operators are the tokens they were read from, so a tree
remembers the text and the line of each of its operators.
-/

namespace Lox

inductive Literal where
  | number (value : Binary64)
  | string (value : Text)
  | boolean (value : Bool)
  | nil
  deriving DecidableEq, Repr

namespace Literal

/-- The literal that a token of this kind is. -/
def ofKind? : Token.Kind → Option Literal
  | .number value => some (number value)
  | .string value => some (string value)
  | .keyword .trueWord => some (boolean true)
  | .keyword .falseWord => some (boolean false)
  | .keyword .nilWord => some nil
  | _ => none

/-- Equality of literals, where numbers are compared by value. -/
def agrees : Literal → Literal → Bool
  | number x, number y => x.agrees y
  | a, b => a == b

end Literal

inductive Expr where
  | literal (value : Literal)
  | grouping (inner : Expr)
  | unary (operator : Token) (right : Expr)
  | binary (left : Expr) (operator : Token) (right : Expr)
  deriving DecidableEq, Repr

/-- Equality of expressions, where numbers are compared by value. -/
def Expr.agrees : Expr → Expr → Bool
  | literal a, literal b => a.agrees b
  | grouping a, grouping b => a.agrees b
  | unary s a, unary t b => s.agrees t && a.agrees b
  | binary a s c, binary b t d => a.agrees b && s.agrees t && c.agrees d
  | _, _ => false

inductive Stmt where
  | expression (e : Expr)
  | print (e : Expr)
  deriving DecidableEq, Repr

end Lox
