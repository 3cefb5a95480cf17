import ModuleHost.Syntax.Reader

/-!
The constructs of the grammar that contain one another. A part of the grammar that needs a construct
of a later part asks for it by its rule; `Grammar.run` answers, and only the last module of this
folder says how. So each production is a plain definition, and none of them is recursive.
-/

namespace ModuleHost.Syntax

/-- How an expression is to be understood as a pattern. -/
inductive PatternUse where
  | binding
  | bindingPart
  | assignment
  | assignmentPart
  deriving DecidableEq

def PatternUse.part : PatternUse → PatternUse
  | .binding | .bindingPart => .bindingPart
  | .assignment | .assignmentPart => .assignmentPart

inductive Callee where
  | expr (e : Expr)
  | super (start : Nat)
  | dynamicImport (start : Nat)

structure Statement where
  span : Span
  text : Option String

inductive TypeShape where
  | plain
  | optional
  | rest
  deriving DecidableEq

/-- The constructs that are asked for by name, each with the part of the tree it yields. -/
inductive Rule : Type → Type where
  | assignment : Rule Expr
  | assignmentBase : Rule Expr
  | binary : Rule Expr
  | unary : Rule Expr
  | leftHand : Rule Expr
  | memberOrNew (construct : Bool) : Rule Expr
  | operatorsAfter (left : Expr) (precedence : Nat) : Rule Expr
  | subscripts (callee : Callee) (noCall noComputed : Bool) : Rule Expr
  | element : Rule Expr
  | bindingPattern (noLet : Bool) : Rule Pattern
  | asPattern (use : PatternUse) (e : Expr) : Rule Pattern
  | formalParameters : Rule (List Pattern)
  | decorators (allowExport : Bool) : Rule (Option Span)
  | type : Rule Unit
  | unconditionalType : Rule Unit
  | typeOperator : Rule Unit
  | block (directives : Bool) : Rule (Option Span)
  | statement (declarations : Bool) : Rule Statement
  | ifStatement : Rule Unit
  | moduleBlock : Rule Unit

structure Grammar where
  run : {α : Type} → Rule α → Read α

end ModuleHost.Syntax
