import ModuleHost.Syntax.Functions

/-!
Classes and their members. Words such as `static`, `get` or `declare` are modifiers only if what
follows them can be modified; otherwise they name a member themselves.
-/

namespace ModuleHost.Syntax.Read

structure MemberHead where
  start : Nat
  declare : Option Span
  access : Bool
  isStatic : Option Span
  accessor : Bool
  isAbstract : Bool := false
  isOverride : Bool := false
  readonly : Option Span := none
  lastModifier : Option Span := none

inductive MethodKind where
  | plain
  | getter
  | setter
  deriving DecidableEq

def beginsMethod : Read Bool := do
  if ← isAny ["(", "<"] then return true
  isTagOpen

def beginsProperty (lineBreakEnds : Bool) : Read Bool := do
  if ← isAny ["!", ":", "=", braceClose] then return true
  if lineBreakEnds then isSemicolon else is ";"

def isThisPattern : Pattern → Bool
  | .name _ n => n == "this"
  | _ => false

def accessorParameters (g : Grammar) (kind : MethodKind) (key : Span) : Read (List Pattern) := do
  let ps ← g.run .formalParameters
  let own := ps.filter (!isThisPattern ·)
  match kind with
  | .plain => pure ()
  | .getter => unless own.isEmpty do noteAt key .getterParameters
  | .setter =>
    unless own.length == 1 do noteAt key .setterParameters
    match ps with
    | .rest here _ :: _ => noteAt here .setterRest
    | _ => pure ()
  return ps

def isPrototype : PropertyName → Bool
  | .name t _ | .string t _ => t == "prototype"
  | _ => false

def method (g : Grammar) (head : MemberHead) (key : PropertyName) (kind : MethodKind)
    (keySpan : Span) (isAsync isGenerator : Bool) : Read Unit := do
  if head.isStatic.isSome && isPrototype key then noteAt key.span .staticPrototype
  let hasBody ← functionRest g isAsync isGenerator (accessorParameters g kind keySpan)
  match key with
  | .hidden _ here => if head.access then noteAt here .modifierOnPrivate
  | _ =>
    if head.isAbstract && hasBody then noteAt (← spanFrom head.start) .abstractBody

def property (g : Grammar) (head : MemberHead) (key : PropertyName) (isOptional : Bool) :
    Read Unit := do
  if key.isConstructor then failAt key.span .constructorProperty
  if head.isStatic.isSome && isPrototype key then noteAt key.span .staticPrototype
  unless isOptional do discard <| eat "!"
  discard <| annotation g
  withIn do
    if ← eat "=" then discard <| g.run .assignment
    unless ← eatSemicolon do noteAt (← span) .semicolonExpected
    match key with
    | .hidden _ here => if head.access then noteAt here .modifierOnPrivate
    | _ => pure ()

def constructorParameter (g : Grammar) : Read Pattern := do
  let access ← accessModifier
  let modified ← iterate (fun seen => do
    match ← modifier ["override", "readonly"] false with
    | none => return .done seen
    | some _ => return .again true) access.isSome
  let pattern ← parameterPattern g
  if modified then
    match pattern with
    | .name .. | .withDefault _ (.name ..) => pure ()
    | other => failAt other.span .optionalPattern
  return pattern

/-- A constructor from its parameters on; answers its span if it has a body. -/
def constructor (g : Grammar) (head : MemberHead) : Read (Option Span) := do
  if head.isOverride then noteAt (← spanFrom head.start) (.modifierOnConstructor "override")
  if ← is "<" then
    let start ← position
    typeParameters g false true
    noteAt (← spanFrom start) .emptyTypeParameters
  expect "("
  let ps ← parameterList g (constructorParameter g)
  expect ")"
  if ← is ":" then
    let here ← span
    discard <| annotation g
    noteAt here .constructorReturnType
  let hasBody ← functionBody g false false (isSimple ps)
  unless hasBody do noteDefaults ps
  let here ← spanFrom head.start
  return if hasBody then some here else none

def memberKey (g : Grammar) : Read PropertyName := do
  if ← is "#" then
    let (text, here) ← privateName
    if text == "constructor" then noteAt here .privateConstructor
    return .hidden text here
  propertyName g

def withModifier (hasSuperClass : Bool) (head : MemberHead) (word : String) : Read MemberHead := do
  let here ← previous
  let head := { head with lastModifier := some here }
  match word with
  | "abstract" =>
    if head.isAbstract then noteAt here (.repeatedModifier "abstract")
    else if head.isOverride then noteAt here (.modifierOrder "abstract" "override")
    return { head with isAbstract := true }
  | "override" =>
    if head.isOverride then noteAt here (.repeatedModifier "override")
    else if head.readonly.isSome then noteAt here (.modifierOrder "override" "readonly")
    else if head.declare.isSome then noteAt here (.modifierClash "override" "declare")
    else if !hasSuperClass then noteAt here .overrideWithoutBase
    return { head with isOverride := true }
  | "readonly" =>
    if head.readonly.isSome then
      noteAt here (.repeatedModifier "readonly")
      return head
    return { head with readonly := some here }
  | _ =>
    if head.isOverride then noteAt here (.modifierOrder "static" "override")
    return { head with isStatic := head.isStatic.or (some here) }

def staticBlock (g : Grammar) : Read Unit :=
  withFlags (fun f => { f with inStaticBlock := true })
    (discard <| g.run (.block false))

/-- What follows a name: a method, a property, or an accessor or async method that the name only
introduced. -/
def afterKey (g : Grammar) (head : MemberHead) (key : PropertyName) (isOptional : Bool) :
    Read (Option Span) := do
  if ← beginsMethod then
    if let some here := head.declare then noteAt here .declareMethod
    if head.readonly.isSome then failAt (← spanFrom head.start) .readonlyMethod
    if key.isConstructor && head.isStatic.isNone then return ← constructor g head
    method g head key .plain key.span false false
    return none
  let nextGenerator ← if ← is "*" then afterLineBreak else pure false
  let accessorWord ←
    if key.spells "get" || key.spells "set" then
      pure (!(← beginsProperty false) && !nextGenerator)
    else pure false
  if !accessorWord then
    if ← beginsProperty true then
      property g head key isOptional
      return none
  let broken ← afterLineBreak
  if key.spells "async" && !broken then
    if (← modifier ["override"] false).isSome then
      noteAt (← previous) (.modifierOrder "override" "async")
    let isGenerator ← eat "*"
    let key ← memberKey g
    if key.isConstructor then failAt key.span .constructorAsync
    if head.readonly.isSome then failAt (← spanFrom head.start) .readonlyMethod
    unless isOptional do discard <| eat "?"
    method g head key .plain key.span true isGenerator
    return none
  if accessorWord then
    let kind := if key.spells "get" then MethodKind.getter else .setter
    let inner ← memberKey g
    if head.readonly.isSome then noteAt key.span .readonlyAccessor
    if inner.isConstructor then noteAt key.span .constructorAccessor
    method g head inner kind key.span false false
    return none
  unexpected "* for generator, private key, identifier or async"

def memberAfterStatic (g : Grammar) (head : MemberHead) : Read (Option Span) := do
  let hasSuperClass := (← flags).hasSuperClass
  let head ← iterate (fun head => do
    match ← modifier ["abstract", "readonly", "override", "static"] true with
    | none => return .done head
    | some word => return .again (← withModifier hasSuperClass head word)) head
  let head ←
    if head.accessor then pure head
    else pure { head with accessor := ← eat "accessor" }
  if head.isStatic.isSome then
    if ← is braceOpen then
      if let some here := head.declare then noteAt here .modifierOnBlock
      staticBlock g
      return none
  let bareBlock ← if ← is "static" then peekIs braceOpen else pure false
  if bareBlock then
    if let some here := head.lastModifier then noteAt here .modifierOnBlock
    if let some here := head.isStatic then noteAt here .modifierOnBlock
    bump
    staticBlock g
    return none
  if head.declare.isNone then
    if ← indexSignature? g then return none
  if ← eat "*" then
    let key ← memberKey g
    if head.readonly.isSome then noteAt (← spanFrom head.start) .readonlyMethod
    if key.isConstructor then noteAt key.span .constructorGenerator
    method g head key .plain key.span false true
    return none
  let key ←
    match head.readonly with
    | some here =>
      if ← isAny ["!", ":"] then pure (PropertyName.name "readonly" here) else memberKey g
    | none => memberKey g
  let isOptional ← eat "?"
  afterKey g head key isOptional

def namedByModifier? (g : Grammar) (head : MemberHead) (word : String) (start : Nat)
    (lineBreakEnds : Bool) : Read Bool := do
  let key := PropertyName.name word (← spanFrom start)
  if ← beginsMethod then
    method g head key .plain key.span false false
    return true
  if ← beginsProperty lineBreakEnds then
    if word == "static" then
      if ← is braceOpen then return false
    let isOptional ← eat "?"
    property g head key isOptional
    return true
  return false

def classMember (g : Grammar) : Read (Option Span) := do
  let start ← position
  discard <| g.run (.decorators false)
  let declareStart ← position
  let early ← eat "declare"
  let access ← accessModifier
  let declare ← if early then pure true else eat "declare"
  let head : MemberHead :=
    { start, declare := none, access := access.isSome, isStatic := none, accessor := false }
  if declare then
    if ← namedByModifier? g head "declare" declareStart true then return none
  let here ← spanFrom start
  let head := { head with declare := if declare then some here else none }
  let staticStart ← position
  if ← eat "static" then
    let here ← spanFrom staticStart
    if ← namedByModifier? g head "static" staticStart false then return none
    let head := { head with isStatic := some here }
    let accessorStart ← position
    if ← eat "accessor" then
      if ← namedByModifier? g head "accessor" accessorStart true then return none
      return ← memberAfterStatic g { head with accessor := true }
    return ← memberAfterStatic g head
  let accessorStart ← position
  if ← eat "accessor" then
    if ← namedByModifier? g head "accessor" accessorStart true then return none
    return ← memberAfterStatic g { head with accessor := true }
  memberAfterStatic g head

def classBody (g : Grammar) : Read Unit :=
  iterate (fun constructorSeen => do
    let done ← if ← atEnd then pure true else is braceClose
    if done then return .done ()
    if ← eat ";" then return .again constructorSeen
    match ← classMember g with
    | none => return .again constructorSeen
    | some here =>
      if !(← flags).inDeclare && constructorSeen then noteAt here .secondConstructor
      return .again true) false

def heritageName (g : Grammar) : Read Unit := do
  let start ← position
  let (text, here) ← wordName
  let e ← g.run (.subscripts (.expr (.name here text)) true true)
  match e with
  | .instantiation .. => pure ()
  | .name .. | .member .. => if ← is "<" then typeArguments g
  | _ =>
    noteAt (← spanFrom start) .heritageNotAName
    if ← is "<" then typeArguments g

def heritage (g : Grammar) : Read Unit :=
  discard <| commaList (isAny [braceOpen, "implements", "extends"]) (heritageName g)

def superClass (g : Grammar) : Read Unit := do
  match ← g.run .leftHand with
  | .instantiation .. => pure ()
  | _ => if ← is "<" then typeArguments g

def typeNames : List String :=
  ["string", "null", "number", "object", "any", "unknown", "boolean", "bigint", "symbol", "void",
    "never", "intrinsic"]

def classHeritage (g : Grammar) : Read Bool := do
  let extending ← eat "extends"
  if extending then superClass g
  if ← eat "extends" then
    noteAt (← previous) .secondExtends
    superClass g
  if ← eat "implements" then heritage g
  if ← eat "implements" then
    noteAt (← previous) .secondImplements
    heritage g
  if ← eat "extends" then
    noteAt (← previous) .extendsAfterImplements
    superClass g
  return extending

def classRest (g : Grammar) (nameRequired : Bool) : Read (Option String) :=
  withFlags (fun f => { f with inClass := true }) do
    expect "class"
    let named ← if nameRequired then some <$> bindingName true else bindingName? true
    if let some (text, here) := named then
      if typeNames.contains text then noteAt here .className
    typeParameters? g true true
    let hasSuperClass ← classHeritage g
    expect braceOpen
    withFlags (fun f => { f with hasSuperClass }) (classBody g)
    if ← atEnd then note ⟨(← span).lo, .expected braceClose (← quoted)⟩
    else expect braceClose
    return named.map Prod.fst

end ModuleHost.Syntax.Read
