/-!
The names and prefixes that generated code relies on, and what a configuration says about a module
specifier: whether the host supplies the module itself, and whether it is a tooling module that is
not known to work.
-/

namespace ModuleHost

structure Config where
  hostPrefix : String := "chipbox:"
  internalIdPrefix : String := "/@id/"
  toolingPrefix : String := "/@"
  /-- Tooling modules that work in the host; an entry that ends in a slash stands for all below it. -/
  knownTooling : List String := ["/@vite/client", "/@solid-refresh", "/@id/"]
  resolveFn : String := "__qjs_require"
  hostImportFn : String := "import"
  registerFn : String := "__qjs_register_module"
  exportsIdent : String := "exports"
  moduleIdent : String := "module"
  importMetaIdent : String := "__import_meta"
  deriving DecidableEq, Repr

namespace Config

def withResolveFn (c : Config) (name : String) : Config :=
  { c with resolveFn := name }

def withRegisterFn (c : Config) (name : String) : Config :=
  { c with registerFn := name }

def withKnownTooling (c : Config) (entry : String) : Config :=
  { c with knownTooling := c.knownTooling ++ [entry] }

def begins (start text : String) : Bool :=
  start.toList.isPrefixOf text.toList

/-- Whether the host supplies this module, in its bare form or behind the internal prefix. -/
def isHostNative (c : Config) (specifier : String) : Bool :=
  begins c.hostPrefix specifier ||
    (begins c.internalIdPrefix specifier &&
      c.hostPrefix.toList.isPrefixOf (specifier.toList.drop c.internalIdPrefix.length))

def hostSpecifier (c : Config) (specifier : String) : String :=
  if begins c.internalIdPrefix specifier then specifier else c.internalIdPrefix ++ specifier

def covers (known specifier : String) : Bool :=
  if known.toList.getLast? = some '/' then begins known specifier else specifier == known

def isUnknownTooling (c : Config) (specifier : String) : Bool :=
  begins c.toolingPrefix specifier && !c.knownTooling.any (covers · specifier)

end Config

end ModuleHost
