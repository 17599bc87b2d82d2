import BusScript.Number.Basic
import BusScript.Script.Span

namespace BusScript

structure Ident where
  name : String
  span : Span
  deriving DecidableEq, Repr

inductive Literal where
  | number (value : Number)
  | bool (value : Bool)
  | null
  | string (value : String)
  deriving Repr

inductive Sign where
  | not
  | neg
  | plus
  deriving DecidableEq, Repr

inductive Operator where
  | add
  | sub
  | mul
  | div
  | pow
  | less
  | lessEqual
  | greater
  | greaterEqual
  | equal
  | strictEqual
  | notEqual
  | strictNotEqual
  | and
  | or
  deriving DecidableEq, Repr

def Sign.ofSymbol? : String → Option Sign
  | "!" => some .not
  | "-" => some .neg
  | "+" => some .plus
  | _ => none

def Operator.ofSymbol? : String → Option Operator
  | "+" => some .add
  | "-" => some .sub
  | "*" => some .mul
  | "/" => some .div
  | "**" => some .pow
  | "<" => some .less
  | "<=" => some .lessEqual
  | ">" => some .greater
  | ">=" => some .greaterEqual
  | "==" => some .equal
  | "===" => some .strictEqual
  | "!=" => some .notEqual
  | "!==" => some .strictNotEqual
  | "&&" => some .and
  | "||" => some .or
  | _ => none

/-- The keyword of a declaration. Scripts may only use the first. -/
inductive DeclKind where
  | var
  | lexical
  | constant
  deriving DecidableEq, Repr

def DeclKind.ofKeyword? : String → Option DeclKind
  | "var" => some .var
  | "let" => some .lexical
  | "const" => some .constant
  | _ => none

inductive Param where
  | ident (id : Ident)
  /-- A pattern or a parameter with a default; no such function compiles. -/
  | pattern (span : Span)
  deriving DecidableEq, Repr

structure FunctionHead where
  name : Ident
  params : List Param
  isAsync : Bool := false
  isGenerator : Bool := false
  deriving DecidableEq, Repr

mutual

inductive Expr where
  | literal (span : Span) (value : Literal)
  | ident (id : Ident)
  | unary (span : Span) (op : Sign) (operand : Expr)
  | binary (span : Span) (op : Operator) (left right : Expr)
  | assign (span : Span) (target value : Expr)
  | call (span : Span) (callee : Expr) (args : List Expr)
  | member (span : Span) (object : Expr) (name : Ident)
  | array (span : Span) (elements : List Expr)
  | arrow (span : Span) (params : List Ident) (body : List Stmt)
  | arrowExpr (span : Span) (params : List Ident) (body : Expr)

inductive Declarator where
  | mk (name : Ident) (init : Option Expr) (span : Span)

inductive Stmt where
  | var (span : Span) (kind : DeclKind) (declarators : List Declarator)
  | expr (span : Span) (value : Expr)
  | ifElse (span : Span) (condition : Expr) (thenStmt : Stmt) (elseStmt : Option Stmt)
  | block (span : Span) (stmts : List Stmt)
  | ret (span : Span) (value : Option Expr)
  | function (span : Span) (head : FunctionHead) (body : List Stmt)

end

namespace Expr

def span : Expr → Span
  | .literal span _ => span
  | .ident id => id.span
  | .unary span .. => span
  | .binary span .. => span
  | .assign span .. => span
  | .call span .. => span
  | .member span .. => span
  | .array span _ => span
  | .arrow span .. => span
  | .arrowExpr span .. => span

/-- A name, or names with dots between them: a name and its members, all in one place. -/
def path (span : Span) (text : String) : Expr :=
  match text.splitOn "." with
  | [] => .ident ⟨"", span⟩
  | first :: rest =>
    rest.foldl (fun object name => .member span object ⟨name, span⟩) (.ident ⟨first, span⟩)

def ident? : Expr → Option Ident
  | .ident id => some id
  | _ => none

def isNamed (e : Expr) (name : String) : Bool := e.ident?.any (·.name == name)

def number? : Expr → Option Number
  | .literal _ (.number x) => some x
  | _ => none

def signedNumber? : Expr → Option Number
  | .literal _ (.number x) => some x
  | .unary _ .neg (.literal _ (.number x)) => some (-x)
  | _ => none

def string? : Expr → Option String
  | .literal _ (.string s) => some s
  | _ => none

def arrowParams? : Expr → Option (List Ident)
  | .arrow _ params _ => some params
  | .arrowExpr _ params _ => some params
  | _ => none

end Expr

def Literal.truthy : Literal → Bool
  | .number x => x.truthy
  | .bool b => b
  | .null => false
  | .string s => !s.isEmpty

namespace Stmt

def span : Stmt → Span
  | .var span .. => span
  | .expr span _ => span
  | .ifElse span .. => span
  | .block span _ => span
  | .ret span _ => span
  | .function span .. => span

end Stmt

end BusScript
