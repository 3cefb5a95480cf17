import ModuleHost.Syntax.Parse
import ModuleHost.Wrap.Export

/-! The names that the items of a module declare at its top level. The tree does not tell them of a
plain statement, which is read once more for them. Variables that a statement declares further in,
such as in a block, are not among them. -/

namespace ModuleHost.Syntax

namespace Read

def usingDeclaration? (g : Grammar) : Read (Option Decl) := do
  if ← lookAhead beginsUsingBehindAwait then bump
  let begins ← if ← is "using" then peekIsName else pure false
  if !begins then return none
  if ← lineBreakAhead then return none
  bump
  let found ← declarators g false .functionWide (← previous)
  return some (.variable false (found.map DeclaratorRead.declarator))

def plainDeclaration? (g : Grammar) : Read (Option Decl) := do
  discard <| g.run (.decorators true)
  if let some decl ← exportedDeclaration? g then return some decl
  if let some decl ← usingDeclaration? g then return some decl
  attempt do
    let (word, _) ← wordName
    wordDeclaration? g word false

def equalsName? : Read (Option String) := do
  discard <| eat "export"
  expect "import"
  let (name, _) ← wordName
  if ← is "=" then return some name else return none

end Read

/-- What is read at the beginning of a text by itself. -/
def readAlone {α : Type} (text : List Char) (read : Grammar → Read (Option α)) : Option α :=
  match read (Grammar.ofDepth (64 * (text.length + 2))) (Reader.ofText text) with
  | .ok found _ => found
  | .error _ _ => none

def Declarator.names (d : Declarator) : List String := d.target.bound.map Prod.fst

end ModuleHost.Syntax

namespace ModuleHost.Wrap

open ModuleHost.Syntax ModuleHost.Text

def ExportForm.declares : ExportForm → List String
  | .function name | .classForm name | .localDeclaration name => [name]
  | .variable declarators => declarators.flatMap Declarator.names
  | .default name => name.toList
  | .localList _ | .reexportList .. | .wildcard _ | .typeOnly => []

def statementNames (text : List Char) : List String :=
  match readAlone text Read.plainDeclaration? with
  | some decl => (formOfDecl decl).declares
  | none => []

def itemText (source : List Char) (item : Item) : List Char :=
  (slice? source item.span.lo item.span.hi).getD []

def plainNames (source : List Char) (item : Item) : List String :=
  match item.shape with
  | .statement => statementNames (itemText source item)
  | .importEquals => (readAlone (itemText source item) fun _ => Read.equalsName?).toList
  | _ => []

/-- The names that an item declares at the top level of its module. Those of an import declaration
are told by its entries. -/
def declaredBy (source : List Char) (item : Item) : List String :=
  match exportForm? item.shape with
  | some form => form.declares
  | none => plainNames source item

example : statementNames "const \x7b a, b: [c = 1], ...d \x7d = f();".toList = ["a", "c", "d"] := by
  decide +kernel

def ExportForm.constant? : ExportForm → Option String
  | .function name | .classForm name => some name
  | .default name => name
  | _ => none

/-- The names of a declaration that stays one without its `export`. -/
def ExportForm.kept : ExportForm → List String
  | .localDeclaration name => [name]
  | .variable declarators => declarators.flatMap Declarator.names
  | _ => []

theorem ExportForm.declares_eq (form : ExportForm) :
    form.declares = form.constant?.toList ++ form.kept := by
  cases form with
  | default name => exact (List.append_nil _).symm
  | _ => rfl

def constantOf (item : Item) : Option String := (exportForm? item.shape).bind ExportForm.constant?

def keptBy (source : List Char) (item : Item) : List String :=
  match exportForm? item.shape with
  | some form => form.kept
  | none => plainNames source item

theorem declaredBy_eq (source : List Char) (item : Item) :
    declaredBy source item = (constantOf item).toList ++ keptBy source item := by
  unfold declaredBy constantOf keptBy
  cases exportForm? item.shape with
  | none => rfl
  | some form => exact form.declares_eq

end ModuleHost.Wrap
