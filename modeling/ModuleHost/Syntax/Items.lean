import ModuleHost.Syntax.Statements

/-!
Imports, exports and the other items of a module. The top level of the text and the body of a
namespace hold items; everything further in holds statements.
-/

namespace ModuleHost.Syntax.Read

def importAttributes (g : Grammar) : Read Unit := do
  if ← afterLineBreak then return
  let present ← if ← eat "assert" then pure true else eat "with"
  if present then discard <| objectLiteral g

def fromClause (g : Grammar) : Read String := do
  expect "from"
  let source ← sourceString
  importAttributes g
  expectSemicolon
  return source

def importedName : Read String :=
  withFlags (fun f => { f with inAsync := false, inGenerator := false }) do
    return (← bindingName false).1

def importEquals : Read ItemShape := do
  expect "="
  let call ← if ← is "require" then peekIs "(" else pure false
  if call then
    bump
    expect "("
    discard sourceString
    expect ")"
  else entityName false
  expectSemicolon
  return .importEquals

def typeOnlyTwice (cause : Cause) (typeOnly : Bool) (here : Span) : Read Unit := do
  if typeOnly then noteAt here cause

def importEntryAfter (imported : String) (here : Span) (typeOnly : Bool) : Read ImportEntry := do
  if ← eat "as" then
    let (name, _) ← bindingName false
    return .named imported name typeOnly
  if isReserved imported then failAt here .reservedImport
  return .named imported imported typeOnly

/-- `type as …` in an import list, where each of the two words may be a name. -/
def importEntryTypeAs (typeOnly : Bool) (typeWord : Span) : Read ImportEntry := do
  if !(← isWord) then
    typeOnlyTwice .typeOnlyImportTwice typeOnly typeWord
    return .named "as" "as" true
  let (second, _) ← bindingName false
  if second == "as" then
    if ← isWord then
      let (name, _) ← bindingName false
      typeOnlyTwice .typeOnlyImportTwice typeOnly typeWord
      return .named "as" name true
  return .named "type" second false

def importEntry (typeOnly : Bool) : Read ImportEntry := do
  match ← listedName with
  | .string value here =>
    unless ← eat "as" do failAt here (.stringImport value)
    let (name, _) ← bindingName false
    return .named value name false
  | .name imported here =>
    let modified ← if imported == "type" then isWord else pure false
    if !modified then return ← importEntryAfter imported here false
    let (word, wordSpan) ← wordName
    if word == "as" then return ← importEntryTypeAs typeOnly here
    typeOnlyTwice .typeOnlyImportTwice typeOnly here
    importEntryAfter word wordSpan true

def listEntries {α : Type} (entry : Read α) : Read (List α) := do
  expect braceOpen
  let entries ← iterate (fun found => do
    let done ← if ← atEnd then pure true else is braceClose
    if done then return .done found
    let next ← entry
    if ← is braceClose then return .done (next :: found)
    expect ","
    return .again (next :: found)) []
  expect braceClose
  return entries.reverse

inductive ImportStart where
  | clause (defaultName : Option String) (typeOnly : Bool)
  | equals

def nameFollows : Read Bool := do
  if !(← isName) then return false
  if ← is "from" then peekIs "from" else return true

def importStart : Read ImportStart := do
  if !(← isName) then return .clause none false
  let first ← importedName
  if first == "type" then
    if ← isAny ["*", braceOpen] then return .clause none true
    if ← nameFollows then
      let name ← importedName
      if ← is "=" then return .equals
      return .clause (some name) true
    let fromEquals ← if ← is "from" then peekIs "=" else pure false
    if fromEquals then
      discard wordName
      return .equals
  if ← is "=" then return .equals
  if first == "source" || first == "defer" then
    if ← isAny ["*", braceOpen] then return .clause none false
    if ← nameFollows then return .clause (some (← importedName)) false
  return .clause (some first) false

def importEntries (typeOnly : Bool) : Read (List ImportEntry) := do
  if ← eat "*" then
    expect "as"
    return [.namespaceAs (← importedName)]
  if ← is braceOpen then listEntries (importEntry typeOnly) else return []

def importItem (g : Grammar) : Read ItemShape := do
  bump
  if ← isString then
    let source ← sourceString
    importAttributes g
    expectSemicolon
    return .importFrom source [] false
  match ← importStart with
  | .equals => importEquals
  | .clause first typeOnly =>
    if first.isSome then
      unless ← eat "," do unless ← is "from" do expect ","
    let entries ← importEntries typeOnly
    let source ← fromClause g
    return .importFrom source ((first.map .defaultAs).toList ++ entries) typeOnly

/-- An export entry and the fault it makes if no `from` follows. -/
structure ExportRead where
  entry : ExportEntry
  bare : Option Fault

def exportRead (listed : ListedName) (exported : Option String) (typeOnly : Bool) : ExportRead :=
  { entry := .named listed.text exported typeOnly
    bare := match listed with
      | .name text here =>
        if wordsNeverExported.contains text then some ⟨here.lo, .missingSource text⟩ else none
      | .string _ here => some ⟨here.lo, .stringExportWithoutSource⟩ }
where
  wordsNeverExported : List String :=
    ["break", "case", "catch", "class", "const", "continue", "debugger", "default", "delete", "do",
      "else", "enum", "export", "extends", "false", "finally", "for", "function", "if", "import",
      "in", "instanceof", "new", "null", "package", "return", "super", "switch", "this", "throw",
      "true", "try", "typeof", "var", "void", "while", "with"]

def exportEntryAfter (listed : ListedName) (typeOnly : Bool) : Read ExportRead := do
  if ← eat "as" then return exportRead listed (some (← listedName).text) typeOnly
  return exportRead listed none typeOnly

def exportEntryTypeAs (typeOnly : Bool) (typeWord asWord : ListedName) (here : Span) :
    Read ExportRead := do
  if !(← isWord) then
    typeOnlyTwice .typeOnlyExportTwice typeOnly here
    return exportRead asWord none true
  let (second, _) ← wordName
  if second == "as" then
    if ← isWord then
      let (name, _) ← wordName
      typeOnlyTwice .typeOnlyExportTwice typeOnly here
      return exportRead asWord (some name) true
  return exportRead typeWord (some second) false

def exportEntry (typeOnly : Bool) : Read ExportRead := do
  let listed ← listedName
  match listed with
  | .string .. => exportEntryAfter listed false
  | .name text here =>
    let modified ← if text == "type" then isWord else pure false
    if !modified then return ← exportEntryAfter listed false
    let (word, wordSpan) ← wordName
    if word == "as" then return ← exportEntryTypeAs typeOnly listed (.name word wordSpan) here
    typeOnlyTwice .typeOnlyExportTwice typeOnly here
    exportEntryAfter (.name word wordSpan) true

def exportList (g : Grammar) (typeOnly : Bool) : Read ItemShape := do
  let found ← listEntries (exportEntry typeOnly)
  let entries := found.map ExportRead.entry
  if ← is "from" then return .exportList entries (some (← fromClause g)) typeOnly
  for e in found do if let some fault := e.bare then note fault
  discard eatSemicolon
  return .exportList entries none typeOnly

def exportNames (g : Grammar) (typeOnly : Bool) : Read ItemShape := do
  if !(← is "*") then return ← exportList g typeOnly
  bump
  if !(← eat "as") then return .exportAll (← fromClause g) typeOnly
  let name ← listedName
  return .exportList [.namespaceAs name.text] (some (← fromClause g)) typeOnly

def decoratorsInside (g : Grammar) (decorated : Bool) : Read Unit := do
  let here ← g.run (.decorators false)
  match here with
  | some here => if decorated then failAt here .decoratorsTwice
  | none => pure ()

def exportDefault (g : Grammar) (decorated : Bool) : Read ItemShape := do
  decoratorsInside g decorated
  if ← is "abstract" then
    let isClass ← if ← peekIs "class" then pure !(← lineBreakAhead) else pure false
    if isClass then bump
    else if ← peekIs "interface" then
      noteAt (← span) .abstractInterface
      bump
  if ← is "interface" then
    bump
    discard <| interface g
    return .exportDefaultDecl .interface
  if ← is "class" then return .exportDefaultDecl (.classDecl (← classRest g false))
  if ← beginsAsyncFunction then
    let f ← asyncFunction g .default
    return .exportDefaultDecl (.function f.name f.hasBody)
  if ← is "function" then
    let f ← function g .default none
    return .exportDefaultDecl (.function f.name f.hasBody)
  discard <| withIn (g.run .assignment)
  expectSemicolon
  return .exportDefaultExpr

def exportedDeclaration? (g : Grammar) : Read (Option Decl) := do
  if ← is "class" then return some (← classDeclaration g)
  if ← beginsAsyncFunction then return some (declarationOf (← asyncFunction g .declaration))
  if ← is "function" then return some (declarationOf (← function g .declaration none))
  if ← constEnum then
    bump
    bump
    return some (← enumeration g)
  if ← beginsVariables then return some (← variableDeclaration g false).decl
  return none

/-- The forms of export that only types have. -/
def exportForTypes? (g : Grammar) : Read (Option ItemShape) := do
  if ← eat "import" then
    let typed ← if ← is "type" then peekIsName else pure false
    if typed then bump
    discard wordName
    return some (← importEquals)
  if ← eat "=" then
    discard <| expressionList g
    expectSemicolon
    return some .exportAssignment
  if ← eat "as" then
    expect "namespace"
    discard <| name false
    expectSemicolon
    return some .exportAsNamespace
  return none

def declaredExport? (g : Grammar) : Read (Option Decl) := do
  if ← eat "declare" then
    if let some decl ← declared? g then return some decl
  match ← current with
  | some (.word text) => attempt (wordDeclaration? g text true)
  | _ => return none

def exportItem (g : Grammar) (decorated : Bool) : Read ItemShape := do
  bump
  discard required
  if let some decl ← declaredExport? g then return .exportDecl decl
  if let some shape ← exportForTypes? g then return shape
  let typeOnly ← eat "type"
  if !typeOnly then
    if ← eat "default" then return ← exportDefault g decorated
  decoratorsInside g decorated
  if !typeOnly then
    if let some decl ← exportedDeclaration? g then return .exportDecl decl
  exportNames g typeOnly

def item (g : Grammar) : Read (Item × Option String) := do
  let first ← position
  let decorators ← g.run (.decorators true)
  if let some here := decorators then unless ← keepsDecorators do dropMetas here
  let start ← position
  let value ← if ← is "import" then peekToken fun t => Token.spells "(" t || Token.spells "." t
    else pure false
  if value then
    discard <| expressionList g
    discard eatSemicolon
    return (⟨← spanFrom start, .statement⟩, none)
  if ← is "import" then
    let shape ← importItem g
    return (⟨← spanFrom start, shape⟩, none)
  if ← is "export" then
    let shape ← exportItem g decorators.isSome
    return (⟨← spanFrom start, shape⟩, none)
  let s ← withFlags (fun f => { f with colonFollows := false }) (plainStatement g first true)
  return (⟨s.span, .statement⟩, s.text)

def moduleBlock (g : Grammar) : Read Unit := do
  expect braceOpen
  discard <| blockStatements do
    let (i, text) ← item g
    return ⟨i.span, text⟩

end ModuleHost.Syntax.Read
