import ModuleHost.Command.Arguments

/-!
The help texts: what a command does, how it is used, and a line for everything that may stand on its
command line.
-/

namespace ModuleHost.Command

def programName : String := "esbridge"

def Spec.heading (s : Spec) : String :=
  let short := (s.short.map fun c => "-" ++ String.singleton c ++ ", ").getD "    "
  let value := if s.kind.takesValue then " <" ++ s.value ++ ">" else ""
  let many := if s.kind = .counter then "..." else ""
  short ++ "--" ++ s.name ++ value ++ many

def Positional.heading (p : Positional) : String :=
  if p.isRequired then "<" ++ p.name ++ ">" else "[" ++ p.name ++ "]"

def padded (width : Nat) (text : String) : String :=
  text ++ String.ofList (List.replicate (width - text.length) ' ')

def titled (title : String) (rows : List (String × String)) : List String :=
  if rows.isEmpty then []
  else
    let width := (rows.map fun row => row.1.length).foldl max 0
    ["", title ++ ":"] ++ rows.map fun row => "  " ++ padded width row.1 ++ "  " ++ row.2

def Level.usage (l : Level) : String :=
  let required := (l.specs.filter fun s => l.requiredOptions.contains s.name).map fun s =>
    "--" ++ s.name ++ " <" ++ s.value ++ ">"
  let words :=
    [programName] ++ (if l.name = "" then [] else [l.name]) ++
      (if l.specs.isEmpty then [] else ["[OPTIONS]"]) ++ required ++
      l.positionals.map Positional.heading ++
      (if l.name = "" || l.name = "help" then ["[COMMAND]"] else [])
  "Usage: " ++ String.intercalate " " words

def Spec.remark (surroundings : Option String) (s : Spec) : String :=
  if s = configSpec then s.about ++ " [env: ESBRIDGE_CONFIG=" ++ surroundings.getD "" ++ "]"
  else s.about

def Level.helpText (surroundings : Option String) (l : Level) : String :=
  let commands :=
    if l.name = "" then Level.commands.map fun c => (c.name, c.about) else []
  let lines :=
    [l.about, "", l.usage] ++ titled "Commands" commands ++
      titled "Arguments" (l.positionals.map fun p => (p.heading, p.about)) ++
      titled "Options" (l.specs.map fun s => (s.heading, s.remark surroundings))
  String.intercalate "\n" lines ++ "\n"

end ModuleHost.Command
