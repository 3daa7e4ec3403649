import Lox.Number.Binary64
import Lox.Token.Keyword
import Lox.Token.Punctuator

/-!
# Tokens

A token has a kind, the text it was read from and the line it starts on. Strings and numbers carry
their value in the kind. Nothing here asks that the parts of a token fit together.
-/

namespace Lox

inductive Token.Kind where
  | punctuator (p : Punctuator)
  | keyword (k : Keyword)
  | identifier
  /-- A string, with the text between its quotes. -/
  | string (value : Text)
  /-- A number, with its value. -/
  | number (value : Binary64)
  | eof
  deriving DecidableEq, Repr

structure Token where
  kind : Token.Kind
  lexeme : Text
  /-- The line of the first character. -/
  line : Nat
  deriving DecidableEq, Repr

namespace Token

namespace Kind

def name : Kind → Text
  | punctuator p => p.name
  | keyword k => k.name
  | identifier => "Identifier".toList
  | string _ => "Str".toList
  | number _ => "Number".toList
  | eof => "Eof".toList

def hasValue : Kind → Bool
  | string _ | number _ => true
  | _ => false

def level? : Kind → Option Level
  | punctuator p => p.level?
  | _ => none

def isUnary : Kind → Bool
  | punctuator p => p.isUnary
  | _ => false

def startsStatement : Kind → Bool
  | keyword k => k.startsStatement
  | _ => false

/-- Equality of kinds, where numbers are compared by value. -/
def agrees : Kind → Kind → Bool
  | number x, number y => x.agrees y
  | k, l => k == l

end Kind

def eof (line : Nat) : Token := ⟨.eof, [], line⟩

/-- Equality of tokens, where numbers are compared by value. -/
def agrees (t u : Token) : Bool :=
  t.kind.agrees u.kind && t.lexeme == u.lexeme && t.line == u.line

end Token

end Lox
