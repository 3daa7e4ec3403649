import Lox.Expr

/-!
# The grammar of expressions

What it is for tokens to be an expression, said without a parser. Binary operators of a level stand
between operands of that level on the left and of the tighter ones on the right; operands of the
tightest level are unary operators with an operand of that level, literals, and expressions between
parentheses.
-/

namespace Lox

/-- The tokens `w` are the expression `e`, whose binary operators outside of parentheses are of the
levels `levels`. -/
inductive Derives : List Level → List Token → Expr → Prop where
  | tighter {level levels w e} :
    Derives levels w e →
    Derives (level :: levels) w e
  | binary {level levels u v left right} {operator : Token} :
    Derives (level :: levels) u left →
    operator.kind.level? = some level →
    Derives levels v right →
    Derives (level :: levels) (u ++ operator :: v) (.binary left operator right)
  | unary {w right} {operator : Token} :
    operator.kind.isUnary →
    Derives [] w right →
    Derives [] (operator :: w) (.unary operator right)
  | literal {value} {token : Token} :
    Literal.ofKind? token.kind = some value →
    Derives [] [token] (.literal value)
  | grouping {w inner} {opening closing : Token} :
    opening.kind = .punctuator .leftParen →
    Derives Level.all w inner →
    closing.kind = .punctuator .rightParen →
    Derives [] (opening :: w ++ [closing]) (.grouping inner)

namespace Expr

/-- How many unary operators and parentheses are open at once at most. -/
def nesting : Expr → Nat
  | literal _ => 0
  | grouping inner => inner.nesting + 1
  | unary _ right => right.nesting + 1
  | binary left _ right => max left.nesting right.nesting

end Expr

end Lox
