import BusScript.Draft.Lower
import BusScript.Machine.Arithmetic

/-!
What plain scripts mean, read off their trees from left to right. A plain script computes: it declares variables,
assigns to them, branches on them and returns, and calls nothing but the functions of `Math`. All numbers that are
NaN mean the same, so a literal that is one means the usual one.
-/

namespace BusScript

def Literal.meaning : Literal → Number
  | .number x => if x.isNaN then Number.nan else x
  | .bool b => Number.ofBool b
  | .null => Number.nan
  | .string _ => Number.nan

def Sign.meaning : Sign → Number → Number
  | .not => UnaryOp.not.eval
  | .neg => UnaryOp.neg.eval
  | .plus => UnaryOp.id.eval

/-- Both operands are evaluated in any case, those of the logical operators too. -/
def Operator.meaning : Operator → Number → Number → Number
  | .add, x, y => BinaryOp.add.eval x y
  | .sub, x, y => BinaryOp.sub.eval x y
  | .mul, x, y => BinaryOp.mul.eval x y
  | .div, x, y => BinaryOp.div.eval x y
  | .pow, x, y => Math2.pow.eval x y
  | .less, x, y => BinaryOp.lt.eval x y
  | .lessEqual, x, y => BinaryOp.le.eval x y
  | .greater, x, y => BinaryOp.lt.eval y x
  | .greaterEqual, x, y => BinaryOp.le.eval y x
  | .equal, x, y => BinaryOp.eq.eval x y
  | .strictEqual, x, y => BinaryOp.eq.eval x y
  | .notEqual, x, y => BinaryOp.ne.eval x y
  | .strictNotEqual, x, y => BinaryOp.ne.eval x y
  | .and, x, y => BinaryOp.and.eval x y
  | .or, x, y => BinaryOp.or.eval x y

/-- The functions of `Math` that always give the same for the same numbers. -/
def Math.meaning : String → List Number → Number
  | "floor", [x] => x.floor
  | "round", [x] => x.roundHalfUp
  | "ceil", [x] => x.ceil
  | "log", [x] => x.log
  | "log10", [x] => BinaryOp.mul.eval x.log Math.log10E
  | "log2", [x] => BinaryOp.mul.eval x.log Math.log2E
  | "max", [x, y] => Math2.max.eval x y
  | "min", [x, y] => Math2.min.eval x y
  | "pow", [x, y] => Math2.pow.eval x y
  | "sqrt", [x] => Math2.pow.eval x 0.5
  | "cbrt", [x] => Math2.pow.eval x (1 / 3)
  | "exp", [x] => Math2.pow.eval Math.e x
  | "abs", [x] => UnaryOp.abs.eval x
  | _, _ => Number.nan

abbrev Env := String → Number

namespace Env

/-- Every variable starts at zero. -/
def zero : Env := fun _ => 0

def set (env : Env) (name : String) (x : Number) : Env := fun other => if other = name then x else env other

@[simp] theorem set_self (env : Env) (name : String) (x : Number) : env.set name x name = x := if_pos rfl

theorem set_of_ne {name other : String} (h : other ≠ name) (env : Env) (x : Number) :
    env.set name x other = env other := if_neg h

end Env

namespace Expr

mutual

def eval (env : Env) : Expr → Number
  | .literal _ value => value.meaning
  | .ident id => env id.name
  | .unary _ op operand => op.meaning (eval env operand)
  | .binary _ op left right => op.meaning (eval env left) (eval env right)
  | .call _ (.member _ _ name) args => Math.meaning name.name (evalAll env args)
  | _ => Number.nan

def evalAll (env : Env) : List Expr → List Number
  | [] => []
  | e :: rest => eval env e :: evalAll env rest

end

mutual

/-- Literals, variables in `scope`, operators, and functions of `Math`. A negative zero is left out: neither is it
written down as one, nor as the negation of a zero. -/
def isPlain (scope : List String) : Expr → Bool
  | .literal _ (.number x) => x ≠ -0
  | .literal _ (.string _) => false
  | .literal _ _ => true
  | .ident id => id.name ∈ scope
  | .unary _ op operand =>
    isPlain scope operand && (op ≠ .neg || operand.number?.all fun x => !x.isZero)
  | .binary _ _ left right => isPlain scope left && isPlain scope right
  | .call _ (.member _ object name) args =>
    object.isNamed "Math" && name.name ≠ "random" && allPlain scope args
  | _ => false

def allPlain (scope : List String) : List Expr → Bool
  | [] => true
  | e :: rest => isPlain scope e && allPlain scope rest

end

end Expr

namespace Declarator

def name : Declarator → String
  | .mk id _ _ => id.name

def execAll : List Declarator → Env → Env
  | [], env => env
  | .mk id (some init) _ :: rest, env => execAll rest (env.set id.name (init.eval env))
  | .mk _ none _ :: rest, env => execAll rest env

/-- A variable is there when its initial value is computed. -/
def allPlain (scope : List String) : List Declarator → Bool
  | [] => true
  | .mk id init _ :: rest =>
    init.all (·.isPlain (scope ++ [id.name])) && allPlain (scope ++ [id.name]) rest

end Declarator

inductive Progress where
  | goesOn (env : Env)
  | returned (env : Env)

namespace Progress

def env : Progress → Env
  | .goesOn env => env
  | .returned env => env

def andThen (p : Progress) (next : Env → Progress) : Progress :=
  match p with
  | .goesOn env => next env
  | .returned env => .returned env

end Progress

namespace Stmt

mutual

def exec : Stmt → Env → Progress
  | .var _ _ declarators, env => .goesOn (Declarator.execAll declarators env)
  | .expr _ (.assign _ (.ident id) value), env => .goesOn (env.set id.name (value.eval env))
  | .ifElse _ condition thenStmt none, env =>
    if (condition.eval env).truthy then exec thenStmt env else .goesOn env
  | .ifElse _ condition thenStmt (some elseStmt), env =>
    if (condition.eval env).truthy then exec thenStmt env else exec elseStmt env
  | .block _ stmts, env => execAll stmts env
  | .ret _ _, env => .returned env
  | _, env => .goesOn env

def execAll : List Stmt → Env → Progress
  | [], env => .goesOn env
  | s :: rest, env => (exec s env).andThen fun env => execAll rest env

end

mutual

/-- The variables that a statement inside of others declares, in order. A branch that a literal condition rules out
declares none. -/
def declares : Stmt → List String
  | .var _ _ declarators => declarators.map Declarator.name
  | .ifElse _ condition thenStmt none =>
    match Lowering.constantCondition? condition with
    | some false => []
    | _ => declares thenStmt
  | .ifElse _ condition thenStmt (some elseStmt) =>
    match Lowering.constantCondition? condition with
    | some true => declares thenStmt
    | some false => declares elseStmt
    | none => declares thenStmt ++ declares elseStmt
  | .block _ stmts => declaresAll stmts
  | _ => []

def declaresAll : List Stmt → List String
  | [] => []
  | s :: rest => declares s ++ declaresAll rest

end

mutual

/-- Declarations, assignments, branches, blocks and returns of plain expressions, over the variables in `scope` and
those declared so far. -/
def isPlain (scope : List String) : Stmt → Bool
  | .var _ kind declarators => kind = .var && Declarator.allPlain scope declarators
  | .expr _ (.assign _ (.ident _) value) => value.isPlain scope
  | .ifElse _ condition thenStmt none =>
    condition.isPlain scope &&
      match Lowering.constantCondition? condition with
      | some false => true
      | _ => isPlain scope thenStmt
  | .ifElse _ condition thenStmt (some elseStmt) =>
    condition.isPlain scope &&
      match Lowering.constantCondition? condition with
      | some true => isPlain scope thenStmt
      | some false => isPlain scope elseStmt
      | none => isPlain scope thenStmt && isPlain (scope ++ thenStmt.declares) elseStmt
  | .block _ stmts => allPlain scope stmts
  | .ret _ none => true
  | .ret _ (some value) => value.isPlain scope
  | _ => false

def allPlain (scope : List String) : List Stmt → Bool
  | [] => true
  | s :: rest => isPlain scope s && allPlain (scope ++ s.declares) rest

end

/-- The variables of the top level, which are there from the start. -/
def hoisted : List Stmt → List String
  | [] => []
  | .var _ .var declarators :: rest => declarators.map Declarator.name ++ hoisted rest
  | _ :: rest => hoisted rest

/-- The variables that the statements of the top level declare further inside. -/
def nestedVariables : List Stmt → List String
  | [] => []
  | .var .. :: rest => nestedVariables rest
  | s :: rest => s.declares ++ nestedVariables rest

end Stmt

def scriptVariables (script : List Stmt) : List String := Stmt.hoisted script ++ Stmt.nestedVariables script

def isPlainScript (script : List Stmt) : Bool := Stmt.allPlain (Stmt.hoisted script) script

def scriptMeaning (script : List Stmt) : Env := (Stmt.execAll script .zero).env

end BusScript
