import ModuleHost.Syntax.Tree

/-!
The forms of export that are converted in different ways, and the names that a declaration exports.
-/

namespace ModuleHost.Wrap

open ModuleHost.Syntax

inductive ExportForm where
  | function (name : String)
  | classForm (name : String)
  | variable (declarators : List Declarator)
  | localList (entries : List ExportEntry)
  | reexportList (entries : List ExportEntry) (source : String)
  | default (name : Option String)
  | wildcard (source : String)
  | localDeclaration (name : String)
  | typeOnly

def formOfDecl : Decl → ExportForm
  | .function name declare hasBody => if declare || !hasBody then .typeOnly else .function name
  | .classDecl name declare => if declare then .typeOnly else .classForm name
  | .variable declare declarators => if declare then .typeOnly else .variable declarators
  | .interface | .typeAlias => .typeOnly
  | .enumeration name declare => if declare then .typeOnly else .localDeclaration name
  | .namespaceDecl name declare =>
    if declare then .typeOnly
    else match name with
      | .name name => .localDeclaration name
      | .string => .typeOnly

def formOfDefault : DefaultDecl → ExportForm
  -- whether a function has a body is not asked, as it is of one that is no default
  | .function name _ | .classDecl name => .default name
  | .interface => .typeOnly

/-- The form of an export; `none` for items that are no exports or stay as they are. -/
def exportForm? : ItemShape → Option ExportForm
  | .exportDecl decl => some (formOfDecl decl)
  | .exportList entries source typeOnly =>
    some <| if typeOnly then .typeOnly
      else match source with
        | some source => .reexportList entries source
        | none => .localList entries
  | .exportDefaultDecl decl => some (formOfDefault decl)
  | .exportDefaultExpr => some (.default none)
  | .exportAll source typeOnly => some (if typeOnly then .typeOnly else .wildcard source)
  | .exportAsNamespace => some .typeOnly
  | .statement | .importFrom .. | .importEquals | .exportAssignment => none

def simpleBinding : Pattern → Option String
  | .name _ name => some name
  | .withDefault _ (.name _ name) => some name
  | _ => none

def fieldBinding : PatternField Pattern → Option String
  | .keyed value => simpleBinding value
  | .short _ name => some name
  | .rest target => simpleBinding target

def elementBinding : Pattern → Option String
  | .rest _ target => simpleBinding target
  | other => simpleBinding other

/-- The names bound at the top level of a pattern. -/
def topLevelBindings : Pattern → List String
  | .object _ fields => fields.filterMap fieldBinding
  | .array _ elements => elements.filterMap fun element => element.bind elementBinding
  | _ => []

def ExportEntry.pair? : ExportEntry → Option (String × String)
  | .named listed exported typeOnly =>
    if typeOnly then none else some (listed, exported.getD listed)
  | .namespaceAs _ => none

def ExportEntry.namespaceName? : ExportEntry → Option String
  | .namespaceAs name => some name
  | .named .. => none

end ModuleHost.Wrap
