/-!
The tree of a module, as far as its top level needs it. Inside an item only those shapes are kept
that a later part of the grammar looks at, such as a literal that turns out to be a pattern.
-/

namespace ModuleHost.Syntax

/-- A stretch of the text in byte offsets; `hi` is behind its last byte. -/
structure Span where
  lo : Nat
  hi : Nat
  deriving DecidableEq, Repr, Inhabited

def Span.ofEnds (a b : Nat) : Span :=
  ⟨min a b, max a b⟩

inductive PatternField (P : Type) where
  | keyed (value : P)
  | short (span : Span) (name : String)
  | rest (target : P)

inductive Pattern where
  | name (span : Span) (name : String)
  | object (span : Span) (fields : List (PatternField Pattern))
  | array (span : Span) (elements : List (Option Pattern))
  | withDefault (span : Span) (target : Pattern)
  | rest (span : Span) (target : Pattern)
  | place (span : Span)
  | invalid (span : Span)
  deriving Inhabited

def Pattern.span : Pattern → Span
  | .name s _ | .object s _ | .array s _ | .withDefault s _ | .rest s _ | .place s | .invalid s => s

def Pattern.isName : Pattern → Bool
  | .name .. => true
  | _ => false

mutual

def Pattern.bound : Pattern → List (String × Span)
  | .name span name => [(name, span)]
  | .object _ fields => boundInFields fields
  | .array _ elements => boundInElements elements
  | .withDefault _ target => target.bound
  | .rest _ target => target.bound
  | .place _ => []
  | .invalid _ => []

def PatternField.bound : PatternField Pattern → List (String × Span)
  | .keyed value => value.bound
  | .short span name => [(name, span)]
  | .rest target => target.bound

def boundInFields : List (PatternField Pattern) → List (String × Span)
  | [] => []
  | field :: more => field.bound ++ boundInFields more

def boundInElements : List (Option Pattern) → List (String × Span)
  | [] => []
  | some element :: more => element.bound ++ boundInElements more
  | none :: more => boundInElements more

end

def Pattern.isRest : Pattern → Bool
  | .rest .. => true
  | _ => false

inductive Property (E : Type) where
  | short (span : Span) (name : String)
  | keyed (span : Span) (value : E)
  /-- `name = value`, which only a pattern may hold. -/
  | shortWithValue (span : Span) (name : String)
  | spread (span : Span) (value : E)
  | method (span : Span)

def Property.span {E : Type} : Property E → Span
  | .short s _ | .keyed s _ | .shortWithValue s _ | .spread s _ | .method s => s

inductive Expr where
  | name (span : Span) (name : String)
  | privateName (span : Span)
  | text (span : Span) (raw : String)
  | literal (span : Span)
  | template (span : Span) (hasHoles : Bool)
  | array (span : Span) (elements : List (Option (Option Span × Expr)))
  | object (span : Span) (properties : List (Property Expr))
  | parens (span : Span) (inner : Expr)
  | cast (span : Span) (inner : Expr)
  | instantiation (span : Span) (inner : Expr)
  | member (span : Span) (object : Expr)
  | superMember (span : Span)
  | optionalChain (span : Span) (toMember : Bool)
  | call (span : Span)
  | construct (span : Span) (hasArguments : Bool)
  | unary (span : Span)
  | update (span : Span)
  | binary (span : Span) (operator : String)
  | conditional (span : Span)
  | assign (span : Span) (operator : String) (target : Pattern) (value : Expr)
  | yieldValue (span : Span)
  | awaitValue (span : Span) (value : Expr)
  | arrow (span : Span) (blockBody : Bool)
  | function (span : Span)
  | classValue (span : Span)
  | importMeta (span : Span)
  | element (span : Span)
  | sequence (span : Span)
  | this (span : Span)
  | invalid (span : Span)
  deriving Inhabited

def Expr.span : Expr → Span
  | .name s _ | .privateName s | .text s _ | .literal s | .template s _ | .array s _
  | .object s _ | .parens s _ | .cast s _ | .instantiation s _ | .member s _ | .superMember s
  | .optionalChain s _ | .call s | .construct s _ | .unary s | .update s | .binary s _
  | .conditional s | .assign s _ _ _ | .yieldValue s | .awaitValue s _ | .arrow s _
  | .function s | .classValue s | .importMeta s | .element s | .sequence s | .this s | .invalid s => s

def Expr.isArrow : Expr → Bool
  | .arrow .. => true
  | _ => false

def Expr.isOptionalChain : Expr → Bool
  | .optionalChain .. => true
  | _ => false

def Expr.withoutParens : Expr → Expr
  | .parens _ inner => inner.withoutParens
  | e => e

/-- One declared variable: what it binds and where its value stands. -/
structure Declarator where
  span : Span
  target : Pattern
  value : Option Span

inductive NamespaceName where
  | name (name : String)
  | string

inductive Decl where
  | function (name : String) (declare hasBody : Bool)
  | classDecl (name : String) (declare : Bool)
  | variable (declare : Bool) (declarators : List Declarator)
  | interface
  | typeAlias
  | enumeration (name : String) (declare : Bool)
  | namespaceDecl (name : NamespaceName) (declare : Bool)

def Decl.declared : Decl → Decl
  | .function name _ hasBody => .function name true hasBody
  | .classDecl name _ => .classDecl name true
  | .variable _ declarators => .variable true declarators
  | .enumeration name _ => .enumeration name true
  | .namespaceDecl name _ => .namespaceDecl name true
  | d => d

inductive DefaultDecl where
  | function (name : Option String) (hasBody : Bool)
  | classDecl (name : Option String)
  | interface

inductive ImportEntry where
  | defaultAs (name : String)
  | namespaceAs (name : String)
  | named (imported name : String) (typeOnly : Bool)

/-- One entry of an export list; `exported` is missing when both names are the same. -/
inductive ExportEntry where
  | named (listed : String) (exported : Option String) (typeOnly : Bool)
  | namespaceAs (name : String)

inductive ItemShape where
  | statement
  | importFrom (source : String) (entries : List ImportEntry) (typeOnly : Bool)
  | exportDecl (decl : Decl)
  | exportList (entries : List ExportEntry) (source : Option String) (typeOnly : Bool)
  | exportDefaultDecl (decl : DefaultDecl)
  | exportDefaultExpr
  | exportAll (source : String) (typeOnly : Bool)
  | importEquals
  | exportAssignment
  | exportAsNamespace

structure Item where
  span : Span
  shape : ItemShape

structure Module where
  source : List Char
  items : List Item
  metas : List Span
  lineComments : List Nat

end ModuleHost.Syntax
