/-!
Paths as texts, read without looking at any file. A path is cut at its slashes into segments; a
segment that is empty or a single dot does not count, apart from the places where it begins the path
and makes it absolute or says that it starts here.
-/

namespace ModuleHost.Files

def cut (separator : Char) : List Char → List (List Char)
  | [] => [[]]
  | c :: rest =>
    match cut separator rest with
    | [] => [[]]
    | piece :: more => if c = separator then [] :: piece :: more else (c :: piece) :: more

inductive Component where
  | root
  | here
  | up
  | name (text : String)
  deriving DecidableEq, Repr

structure Path where
  segments : List String
  deriving DecidableEq, Repr

namespace Path

def ofText (text : String) : Path :=
  ⟨(cut '/' text.toList).map String.ofList⟩

def text (p : Path) : String :=
  String.intercalate "/" p.segments

def isBlank (segment : String) : Bool :=
  segment = "" || segment = "."

def component? (segment : String) : Option Component :=
  if isBlank segment then none
  else if segment = ".." then some .up
  else some (.name segment)

def splitStart (p : Path) : List String × List String :=
  match p.segments with
  | "" :: second :: rest => ([""], second :: rest)
  | "." :: rest => (["."], rest)
  | body => ([], body)

def isAbsolute (p : Path) : Bool :=
  p.splitStart.1 = [""]

def startComponent (segment : String) : Component :=
  if segment = "." then .here else .root

def components (p : Path) : List Component :=
  p.splitStart.1.map startComponent ++ p.splitStart.2.filterMap component?

def dropEndBlanks (segments : List String) : List String :=
  (segments.reverse.dropWhile isBlank).reverse

def ofParts (start body : List String) : Path :=
  -- the root alone has no segment behind its slash
  if start = [""] && body.isEmpty then ⟨["", ""]⟩ else ⟨start ++ body⟩

def trimmed (p : Path) : Path :=
  ofParts p.splitStart.1 (dropEndBlanks p.splitStart.2)

def dropCounting : Nat → List String → List String
  | 0, segments => segments.dropWhile isBlank
  | _ + 1, [] => []
  | n + 1, segment :: rest => dropCounting (if isBlank segment then n + 1 else n) rest

def relativeTo? (p base : Path) : Option Path :=
  let n := base.components.length
  if !base.components.isPrefixOf p.components then none
  -- an empty base takes nothing off
  else if n = 0 then some p.trimmed
  else some ⟨dropEndBlanks (dropCounting (n - p.splitStart.1.length) p.splitStart.2)⟩

def beginsWith (p base : Path) : Bool :=
  base.components.isPrefixOf p.components

def join (p q : Path) : Path :=
  if q.isAbsolute then q
  else if p.segments.getLast? = some "" then ⟨p.segments.dropLast ++ q.segments⟩
  else ⟨p.segments ++ q.segments⟩

def fileName? (p : Path) : Option String :=
  match p.components.getLast? with
  | some (.name text) => some text
  | _ => none

/-- A name cut at its last dot, unless that dot begins it. -/
def splitExtension (name : String) : String × Option String :=
  match name.toList.reverse.span (· ≠ '.') with
  | (_, []) | (_, [_]) => (name, none)
  | (extension, _ :: stem) =>
    (String.ofList stem.reverse, some (String.ofList extension.reverse))

def extension? (p : Path) : Option String :=
  p.fileName?.bind fun name => (splitExtension name).2

def withExtension (p : Path) (extension : String) : Path :=
  match p.fileName? with
  | none => p
  | some name =>
    ⟨p.trimmed.segments.dropLast ++ [(splitExtension name).1 ++ "." ++ extension]⟩

/-- The path without its last component; neither the root nor the empty path has one. -/
def parent? (p : Path) : Option Path :=
  match p.splitStart.1, dropEndBlanks p.splitStart.2 with
  | ["."], [] => some ⟨[""]⟩
  | _, [] => none
  | start, body => some (ofParts start (dropEndBlanks body.dropLast))

end Path

/-- One step of making a path on a server: names go behind a slash, and going up takes away the last
slash with what follows it. -/
def extendUrl (url : List Char) : Component → List Char
  | .name text => url ++ '/' :: text.toList
  | .up => ((url.reverse.dropWhile (· ≠ '/')).drop 1).reverse
  | .root | .here => url

def urlPath (components : List Component) : String :=
  match components.foldl extendUrl [] with
  | [] => "/"
  | url => String.ofList url

def Path.url (p : Path) : String :=
  urlPath p.components

/-- The path of a module: its file as seen from the working directory, or if it lies elsewhere the
whole of its path. -/
def defaultModulePath (file directory : Path) : String :=
  let whole := if file.isAbsolute then file else directory.join file
  ((whole.relativeTo? directory).getD whole).url

end ModuleHost.Files
