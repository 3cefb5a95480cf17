import ModuleHost.Config
import ModuleHost.Wrap.Name

/-!
Imports as the wrapper sees them: what an import binds, and the statement that binds it anew from
the module that a resolution call yields.
-/

namespace ModuleHost.Wrap

inductive Resolution where
  | generic
  | hostNative
  deriving DecidableEq, Repr

inductive BindingForm where
  | sideEffectOnly
  | default
  | namespaceForm
  | named
  deriving DecidableEq, Repr

structure NamedBinding where
  imported : String
  name : String
  deriving DecidableEq, Repr

/-- An import that was taken out of a module. -/
structure ImportRecord where
  source : String
  resolution : Resolution
  default : Option String := none
  namespaceName : Option String := none
  named : List NamedBinding := []
  deriving DecidableEq, Repr

/-- A namespace outweighs named bindings, and those outweigh a default. -/
def ImportRecord.bindingForm (r : ImportRecord) : BindingForm :=
  if r.namespaceName.isSome then .namespaceForm
  else if !r.named.isEmpty then .named
  else if r.default.isSome then .default
  else .sideEffectOnly

def resolutionCall (config : Config) (resolution : Resolution) (specifier : String) : String :=
  match resolution with
  | .generic => config.resolveFn ++ "(" ++ Json.quote specifier ++ ")"
  | .hostNative =>
    config.hostImportFn ++ "(" ++ Json.quote (config.hostSpecifier specifier) ++ ")"

def NamedBinding.pattern (b : NamedBinding) : String :=
  if b.imported = b.name then b.name else patternKey b.imported ++ ": " ++ b.name

def namedPattern (bindings : List NamedBinding) : String :=
  String.intercalate ", " (bindings.map NamedBinding.pattern)

def ImportRecord.statement (config : Config) (r : ImportRecord) : String :=
  let call := "await " ++ resolutionCall config r.resolution r.source
  let constant (pattern value : String) := "const " ++ pattern ++ " = " ++ value ++ ";"
  match r.bindingForm with
  | .sideEffectOnly => call ++ ";"
  | .default => constant (inBraces ("default: " ++ r.default.getD "")) call
  | .namespaceForm =>
    let name := r.namespaceName.getD ""
    let default := (r.default.map fun d => " " ++ constant d (name ++ ".default")).getD ""
    let named :=
      if r.named.isEmpty then "" else " " ++ constant (inBraces (namedPattern r.named)) name
    constant name call ++ default ++ named
  | .named =>
    let parts := (r.default.map ("default: " ++ ·)).toList ++ [namedPattern r.named]
    constant (inBraces (String.intercalate ", " parts)) call

end ModuleHost.Wrap
