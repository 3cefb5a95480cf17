import ModuleHost.Syntax.Template

/-!
Types. A type leaves nothing in the tree, but where it ends decides how the text behind it reads.
-/

namespace ModuleHost.Syntax.Read

/-- Reads outside of every tag, and returns into the tags afterwards. -/
def outsideTags {α : Type} (action : Read α) : Read α := fun s =>
  let contexts := s.scanner.contexts
  let restore (s' : Reader) : Reader := { s' with scanner := { s'.scanner with contexts } }
  match action { s with scanner := { s.scanner with contexts := contexts.drop (contexts.length - 1) } }
    with
  | .ok a s' => .ok a (restore s')
  | .error e s' => .error e (restore s')

def forbidOperand : Read Unit :=
  modify fun s => { s with scanner := { s.scanner with operandAllowed := false } }

def commaList (atClose : Read Bool) (member : Read Unit) : Read Nat :=
  iterate (fun n => do
    if ← atClose then return .done n
    member
    if ← eat "," then return .again (n + 1)
    if ← atClose then return .done (n + 1)
    expect ","
    return .again (n + 1)) 0

/-- Turns a shift mark into the angle that stands second in it. -/
def halveShift : Read Unit :=
  modify fun s => { s with token := s.token.map fun l => ⟨.mark "<", l.lo + 1, l.hi, l.afterLineBreak⟩ }

def typeArguments (g : Grammar) : Read Unit := do
  let start ← position
  let count ← inType <| outsideTags do
    if ← is "<<" then halveShift else expect "<"
    commaList (is ">") (g.run .type)
  forbidOperand
  expect ">"
  if count == 0 then noteAt (← spanFrom start) .emptyTypeArguments

def typeAfter (g : Grammar) (mark : String) : Read Bool :=
  inType do
    if ← eat mark then
      g.run .type
      return true
    return false

def annotation (g : Grammar) : Read Bool := typeAfter g ":"

def typeParameterModifier (inOut const : Bool) (seen : List String) (word : String) : Read Unit := do
  let here ← previous
  match word with
  | "const" => unless const do noteAt here (.constModifier "const")
  | "in" =>
    if !inOut then noteAt here (.varianceModifier "in")
    else if seen.contains "in" then noteAt here (.repeatedModifier "in")
    else if seen.contains "out" then noteAt here (.modifierOrder "in" "out")
  | "out" =>
    if !inOut then noteAt here (.varianceModifier "out")
    else if seen.contains "out" then noteAt here (.repeatedModifier "out")
  | other => noteAt here (.modifierOnParameter other)

def typeParameter (g : Grammar) (inOut const : Bool) : Read Unit := do
  iterate (fun seen => do
    match ← modifier ["public", "private", "protected", "readonly", "abstract", "const", "override",
      "in", "out"] false with
    | none => return .done ()
    | some word =>
      typeParameterModifier inOut const seen word
      return .again (word :: seen)) []
  discard <| inType wordName
  discard <| typeAfter g "extends"
  discard <| typeAfter g "="

def typeParameters (g : Grammar) (inOut const : Bool) : Read Unit :=
  inType <| outsideTags do
    let start ← position
    let angle ← is "<"
    if !angle && !(← isTagOpen) then unexpected "< (jsx tag start)"
    bump
    let count ← commaList (is ">") (typeParameter g inOut const)
    expect ">"
    if count == 0 then noteAt (← spanFrom start) .emptyTypeParameters

def typeParameters? (g : Grammar) (inOut const : Bool) : Read Unit := do
  if ← is "<" then typeParameters g inOut const

def quotedMaybe : Read String :=
  return (← current).elim "None" fun t => "Some(" ++ t.text ++ ")"

def returnType (g : Grammar) (mark : String) : Read Unit :=
  inType do
    unless ← eat mark do fail (.expected mark (← quotedMaybe))
    let asserts ← if ← is "asserts" then peekIsName else pure false
    if asserts then
      bump
      if ← atEnd then throw ⟨(← get).size, .endOfText⟩
    let isNarrowing ← do
      if !(← isName) then pure false
      else if ← peekIs "is" then pure !(← lineBreakAhead)
      else pure false
    if asserts || isNarrowing then
      discard wordName
      if isNarrowing then
        bump
        g.run .type
    else g.run .type

def signatureParameters (g : Grammar) : Read (List Pattern) := do
  let parameters ← g.run .formalParameters
  for p in parameters do
    match p with
    | .name .. | .array .. | .object .. | .rest .. => pure ()
    | _ =>
      unexpected "an identifier, [ for an array pattern, \x7b for an object patter or ... for a rest pattern"
  expect ")"
  return parameters

def functionType (g : Grammar) (isFunction : Bool) : Read Unit := do
  unless isFunction do
    discard <| eat "abstract"
    expect "new"
  typeParameters? g false true
  expect "("
  discard <| signatureParameters g
  returnType g "=>"

def skipParameterStart (g : Grammar) : Read Bool := do
  discard eatParameterModifier
  if ← isWord then
    bump
    return true
  if ← isAny [braceOpen, "["] then
    return (← attempt (some <$> g.run (.bindingPattern false))).isSome
  return false

def beginsParameters (g : Grammar) : Read Bool := do
  bump
  if ← isAny [")", "..."] then return true
  if ← skipParameterStart g then
    if ← isAny [":", ",", "?", "="] then return true
    if ← eat ")" then return ← is "=>"
  return false

def beginsFunctionType (g : Grammar) : Read Bool := do
  if ← is "<" then return true
  if ← is "(" then
    return (← attempt (some <$> lookAhead (beginsParameters g))).getD false
  return false

def joinedTypes (mark : String) (member : Read Unit) : Read Unit := do
  discard <| eat mark
  member
  whileTrue (eat mark) member

def unionType (g : Grammar) : Read Unit :=
  joinedTypes "|" (joinedTypes "&" (g.run .typeOperator))

def unconditionalType (g : Grammar) : Read Unit := do
  if ← beginsFunctionType g then functionType g true
  else
    let abstractNew ← if ← is "abstract" then peekIs "new" else pure false
    if abstractNew || (← is "new") then functionType g false
    else unionType g

def conditionalType (g : Grammar) : Read Unit := do
  g.run .unconditionalType
  let broken ← afterLineBreak
  if broken || (← flags).plainTypesOnly then return
  if ← eat "extends" then
    withFlags (fun f => { f with plainTypesOnly := true }) (g.run .unconditionalType)
    expect "?"
    withFlags (fun f => { f with plainTypesOnly := false }) (g.run .type)
    expect ":"
    withFlags (fun f => { f with plainTypesOnly := false }) (g.run .type)

def entityName (anyWord : Bool) : Read Unit := do
  discard wordName
  iterate (fun () => do
    if !(← eat ".") then return .done ()
    let start ← position
    let hash ← is "#"
    if !hash && !(← isWord) then
      note ⟨start, .nameExpected⟩
      return .done ()
    if anyWord then discard wordName else discard <| name false
    return .again ()) ()

def typeReference (g : Grammar) : Read Unit := do
  let start ← position
  let modified ← eatParameterModifier
  entityName true
  unless ← afterLineBreak do
    if ← isAny ["<", "<<"] then typeArguments g
  if modified then noteAt (← spanFrom start) .misplacedParameterProperty

def importTypeOptions (g : Grammar) : Read Unit := do
  if ← eat "," then
    unless ← is ")" do discard <| g.run .assignment

def importType (g : Grammar) : Read Unit := do
  bump
  expect "("
  let here ← span
  match ← required with
  | .string .. => bump
  | _ =>
    bump
    noteAt here .importTypeArgument
  importTypeOptions g
  expect ")"
  if ← eat "." then entityName false
  if ← is "<" then typeArguments g

def typeQuery (g : Grammar) : Read Unit := do
  expect "typeof"
  if ← is "import" then importType g else entityName true
  unless ← afterLineBreak do
    if ← is "<" then typeArguments g

def memberEnd : Read Unit := do
  unless ← eat "," do expectSemicolon

def beginsIndexSignature : Read Bool := do
  bump
  if ← isName then
    bump
    isAny [":", ","]
  else return false

def indexSignature? (g : Grammar) : Read Bool := do
  unless ← is "[" do return false
  unless ← lookAhead beginsIndexSignature do return false
  expect "["
  let (_, here) ← wordName
  if ← eat "," then noteAt here .indexParameterCount else expect ":"
  inType (g.run .type)
  expect "]"
  discard <| annotation g
  memberEnd
  return true

def signatureMember (g : Grammar) : Read Unit := do
  typeParameters? g false true
  expect "("
  discard <| signatureParameters g
  if ← is ":" then returnType g ":"
  memberEnd

def beginsConstructSignature : Read Bool := do
  bump
  isAny ["(", "<"]

def typeMemberName (g : Grammar) : Read Unit := do
  if ← eat "[" then
    discard <| g.run .assignment
    expect "]"
  else
    withFlags (fun f => { f with inPropertyName := true }) do
      match ← required with
      | .number .. | .string .. => discard <| g.run (.memberOrNew true)
      | _ =>
        let (_, here, hidden) ← memberName
        if hidden then noteAt here .privateInInterface

def accessorSignature (g : Grammar) (readonly : Bool) : Read (Option Unit) := do
  if readonly then fail .readonlyAccessor
  let getter ← eat "get"
  unless getter do expect "set"
  typeMemberName g
  expect "("
  if getter then
    expect ")"
    discard <| annotation g
  else
    let parameters ← signatureParameters g
    if parameters.isEmpty then fail .setterParameterMissing
  memberEnd
  return some ()

def propertySignature (g : Grammar) (readonly : Bool) : Read Unit := do
  typeMemberName g
  discard <| eat "?"
  if ← isAny ["(", "<"] then
    if readonly then fail .readonlyMethod
    signatureMember g
  else
    discard <| annotation g
    memberEnd

def typeMember (g : Grammar) : Read Unit := do
  if ← isAny ["(", "<"] then signatureMember g
  else
    let constructs ← if ← is "new" then lookAhead beginsConstructSignature else pure false
    if constructs then
      expect "new"
      signatureMember g
    else
      let readonly := (← modifier ["readonly"] false).isSome
      if ← indexSignature? g then return
      if (← attempt (accessorSignature g readonly)).isSome then return
      propertySignature g readonly

def objectType (g : Grammar) : Read Unit := do
  expect braceOpen
  whileTrue (return !(← is braceClose)) (typeMember g)
  expect braceClose

def beginsMappedType : Read Bool := do
  bump
  let plus ← eat "+"
  let minus ← if plus then pure true else eat "-"
  if minus then return ← is "readonly"
  if ← is "readonly" then bump
  if !(← eat "[") then return false
  if !(← isName) then return false
  bump
  is "in"

def mappedType (g : Grammar) : Read Unit := do
  expect braceOpen
  if ← isAny ["+", "-"] then
    bump
    expect "readonly"
  else discard <| eat "readonly"
  expect "["
  discard wordName
  unless ← typeAfter g "in" do fail (.unexpected (← quotedMaybe) "in")
  if ← eat "as" then g.run .type
  expect "]"
  if ← isAny ["+", "-"] then
    bump
    expect "?"
  else discard <| eat "?"
  discard <| annotation g
  expectSemicolon
  expect braceClose

def tupleLabel : Read (Option TypeShape) := do
  let shape ← if ← eat "..." then pure TypeShape.rest else pure .plain
  discard wordName
  let shape ← if ← eat "?" then pure .optional else pure shape
  expect ":"
  return some shape

def tupleMember (g : Grammar) : Read TypeShape := do
  let label ← attempt tupleLabel
  if ← eat "..." then
    g.run .type
    return .rest
  g.run .type
  if ← eat "?" then return .optional
  return label.getD .plain

def tupleType (g : Grammar) : Read Unit := do
  let start ← position
  expect "["
  let shapes ← iterate (fun shapes => do
    if ← is "]" then return .done shapes
    let shapes := shapes ++ [← tupleMember g]
    if ← eat "," then return .again shapes
    if ← is "]" then return .done shapes
    expect ","
    return .again shapes) []
  expect "]"
  if (shapes.dropWhile (· != .optional)).contains .plain then
    failAt (← spanFrom start) .requiredAfterOptional

def typeWords : List String :=
  ["void", "null", "any", "boolean", "bigint", "never", "number", "object", "string", "symbol",
    "unknown", "undefined", "intrinsic"]

def wordType (g : Grammar) (text : String) : Read Unit := do
  let assertsThis ← if text == "asserts" then peekIs "this" else pure false
  if assertsThis then
    bump
    bump
    if ← eat "is" then g.run .type
  else
    let dotted ← peekIs "."
    if typeWords.contains text && !dotted then bump else typeReference g

def thisType (g : Grammar) : Read Unit := do
  bump
  let broken ← afterLineBreak
  if !broken && (← is "is") then
    bump
    g.run .type

def expectedTypes : String :=
  "an identifier, void, yield, null, await, break, a string literal, a numeric literal, true, false, `, -, import, this, typeof, \x7b, [, ("

def negativeType : Read Unit := do
  bump
  match ← required with
  | .number .. | .bigInt .. => bump
  | _ => unexpected "numeric literal or bigint literal"

def braceType (g : Grammar) : Read Unit := do
  if ← lookAhead beginsMappedType then mappedType g else objectType g

def operandType (g : Grammar) : Read Unit := do
  match ← required with
  | .string .. | .number .. | .bigInt .. => bump
  | .word text =>
    match text with
    | "true" | "false" => bump
    | "import" => importType g
    | "this" => thisType g
    | "typeof" => typeQuery g
    | _ =>
      if !isKeyword text || ["void", "yield", "await", "break"].contains text then wordType g text
      else unexpected expectedTypes
  | .mark text =>
    if text == "`" then discard <| template false (g.run .type)
    else if text == "-" then negativeType
    else if text == braceOpen then braceType g
    else if text == "[" then tupleType g
    else if text == "(" then
      bump
      g.run .type
      expect ")"
    else unexpected expectedTypes
  | _ => unexpected expectedTypes

def arrayType (g : Grammar) : Read Unit := do
  operandType g
  iterate (fun () => do
    let broken ← afterLineBreak
    if broken then return .done ()
    if !(← eat "[") then return .done ()
    unless ← eat "]" do
      g.run .type
      expect "]"
    return .again ()) ()

def inferBound (g : Grammar) : Read (Option Unit) := do
  expect "extends"
  withFlags (fun f => { f with plainTypesOnly := true }) (g.run .unconditionalType)
  if (← flags).plainTypesOnly then return some ()
  return if ← is "?" then none else some ()

def typeOperator (g : Grammar) : Read Unit := do
  if ← isAny ["keyof", "unique", "readonly"] then
    bump
    g.run .typeOperator
  else if ← is "infer" then
    bump
    discard wordName
    discard <| attempt (inferBound g)
  else arrayType g

end ModuleHost.Syntax.Read
