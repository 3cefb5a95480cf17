import ModuleHost.Syntax.Token
import ModuleHost.Text.CharClass
import ModuleHost.Text.Position

/-!
Cutting program text into tokens. What a `<`, a brace or a quote means depends on the constructs
that are open around it, so the scanner keeps them as a stack and updates it with every token.
The reader of the grammar sets `Flags`; the scanner looks at them when it cuts the next token.
-/

namespace ModuleHost.Syntax

open ModuleHost.Text

/-- What the grammar knows about the place it reads, as far as a later decision depends on it. -/
structure Flags where
  inType : Bool := false
  inPropertyName : Bool := false
  quiet : Bool := false
  includeIn : Bool := false
  inFunction : Bool := false
  inGenerator : Bool := false
  inAsync : Bool := false
  inParameters : Bool := false
  inClass : Bool := false
  inStaticBlock : Bool := false
  inOwnFunction : Bool := false
  hasSuperClass : Bool := false
  breakAllowed : Bool := false
  continueAllowed : Bool := false
  inDeclare : Bool := false
  inConditional : Bool := false
  colonFollows : Bool := false
  plainTypesOnly : Bool := false
  forcedElement : Bool := false

/-- A construct that is open around the place being read. -/
inductive Context where
  | block
  | braces
  | hole
  | statementParens (forLoop : Bool)
  | parens
  | template
  | functionValue
  | classValue
  | openTag
  | closeTag
  | element
  deriving DecidableEq

def Context.isOperand : Context → Bool
  | .braces | .hole | .parens | .template | .functionValue | .classValue | .element => true
  | _ => false

def Context.keepsSpace : Context → Bool
  | .template | .element => true
  | _ => false

structure Scanner where
  rest : List Char
  pos : Nat
  contexts : List Context
  operandAllowed : Bool
  lineBreak : Bool
  first : Bool
  last : Option Token
  start : List Char × Nat
  regexAtStart : Bool
  faults : List Fault
  comments : List Nat
  /-- Line comments known for good: those in front of the end of the text, once it was reached. -/
  settled : List Nat

def Scanner.ofText (text : List Char) : Scanner :=
  { rest := text, pos := 0, contexts := [.block], operandAllowed := true, lineBreak := false,
    first := true, last := none, start := (text, 0), regexAtStart := false, faults := [],
    comments := [], settled := [] }

def Scanner.settle (s : Scanner) : Scanner :=
  { s with comments := [], settled := s.comments ++ s.settled }

structure Lexeme where
  token : Token
  lo : Nat
  hi : Nat
  afterLineBreak : Bool

abbrev Scan := EStateM Fault Scanner

namespace Scan

def pos : Scan Nat := return (← get).pos

def rest : Scan (List Char) := return (← get).rest

def current : Scan (Option Char) := return (← get).rest.head?

def peek : Scan (Option Char) := return (← get).rest.tail.head?

def advance : Scan Unit := modify fun s =>
  match s.rest with
  | [] => s
  | c :: rest => { s with rest, pos := s.pos + c.utf8Size }

def advanceBy : Nat → Scan Unit
  | 0 => pure ()
  | n + 1 => do advance; advanceBy n

def eat (c : Char) : Scan Bool := do
  if (← current) == some c then advance; return true
  return false

def startsWith (text : String) : Scan Bool :=
  return text.toList.isPrefixOf (← get).rest

def takeWhile (p : Char → Bool) : Scan (List Char) := do
  let taken := (← rest).takeWhile p
  modify fun s => { s with rest := s.rest.drop taken.length, pos := s.pos + byteLength taken }
  return taken

def fail {α : Type} (at' : Nat) (cause : Cause) : Scan α :=
  throw ⟨at', cause⟩

def note (flags : Flags) (at' : Nat) (cause : Cause) : Scan Unit := do
  unless flags.quiet do
    modify fun s => { s with faults := ⟨at', cause⟩ :: s.faults }

def lineComment (skip : Nat) : Scan Unit := do
  let start ← pos
  advanceBy skip
  discard <| takeWhile (!isLineEnd ·)
  modify fun s =>
    { s with comments := start :: s.comments, lineBreak := s.lineBreak || !s.rest.isEmpty }

def untilCommentEnd : List Char → List Char × Bool
  | '*' :: '/' :: _ => (['*', '/'], true)
  | [] => ([], false)
  | c :: rest =>
    let (taken, closed) := untilCommentEnd rest
    (c :: taken, closed)

def blockComment (flags : Flags) : Scan Unit := do
  let start ← pos
  advanceBy 2
  let (taken, closed) := untilCommentEnd (← rest)
  advanceBy taken.length
  if taken.any isLineEnd then modify fun s => { s with lineBreak := true }
  unless closed do note flags start .unterminatedComment

def isSpace (c : Char) : Bool :=
  isBlank c || c.toNat == 0xFEFF

/-- Skips white space and comments; `n` bounds the number of comments. -/
def skipSpace (flags : Flags) : Nat → Scan Unit
  | 0 => pure ()
  | n + 1 => do
    let blanks ← takeWhile isSpace
    if blanks.any isLineEnd then modify fun s => { s with lineBreak := true }
    match ← rest with
    | '/' :: '/' :: _ => lineComment 2; skipSpace flags n
    | '/' :: '*' :: _ => blockComment flags; skipSpace flags n
    | _ => pure ()

def skipSpaces (flags : Flags) : Scan Unit := do
  skipSpace flags ((← rest).length + 1)

def digit? (radix : Nat) (c : Char) : Option Nat :=
  let value :=
    if c.isDigit then some (c.toNat - '0'.toNat)
    else if 'a' ≤ c && c ≤ 'z' then some (c.toNat - 'a'.toNat + 10)
    else if 'A' ≤ c && c ≤ 'Z' then some (c.toNat - 'A'.toNat + 10)
    else none
  value.filter (· < radix)

def forbiddenBesideSeparator (radix : Nat) (c : Char) : Bool :=
  if radix == 16 then ['.', 'X', '_', 'x'].contains c
  else ['.', 'B', 'E', 'O', '_', 'b', 'e', 'o'].contains c

def separatorAllowed (radix : Nat) (before after : Option Char) : Bool :=
  after.any (fun c => (digit? radix c).isSome && !forbiddenBesideSeparator radix c) &&
    !before.any (forbiddenBesideSeparator radix)

def digitsFrom (flags : Flags) (radix start limit : Nat) : Nat → Option Char → Scan (List Char)
  | 0, _ => return []
  | fuel + 1, before => do
    match ← current with
    | none => return []
    | some c =>
      if limit == 0 then return []
      else if c == '_' then
        unless separatorAllowed radix before (← peek) do note flags start .loneSeparator
        advance
        digitsFrom flags radix start limit fuel before
      else if (digit? radix c).isSome then
        advance
        return c :: (← digitsFrom flags radix start (limit - 1) fuel (some c))
      else return []

def digits (flags : Flags) (radix limit : Nat) : Scan (List Char) := do
  let length := (← rest).length
  digitsFrom flags radix (← pos) (min limit length) (length + 1) none

def digitsValue (radix : Nat) (ds : List Char) : Nat :=
  ds.foldl (fun n c => n * radix + (digit? radix c).getD 0) 0

def someDigits (flags : Flags) (radix : Nat) : Scan (List Char) := do
  let start ← pos
  let ds ← digits flags radix (← rest).length
  if ds.isEmpty then fail start (.digitExpected radix)
  return ds

def rejectIdentifier : Scan Unit := do
  if (← current).any isIdentifierStart then fail (← pos) .identifierAfterNumber

def positional (whole fraction : List Char) (exponent : Int) : String :=
  let padded :=
    if exponent ≥ 0 then
      let moved := fraction.take exponent.toNat
      let zeros := List.replicate (exponent.toNat - fraction.length) '0'
      (whole ++ moved ++ zeros, fraction.drop exponent.toNat)
    else
      let n := (-exponent).toNat
      let zeros := List.replicate (n - whole.length) '0'
      (whole.take (whole.length - n), zeros ++ whole.drop (whole.length - n) ++ fraction)
  let front := padded.1.dropWhile (· == '0')
  let back := (padded.2.reverse.dropWhile (· == '0')).reverse
  String.ofList ((if front.isEmpty then ['0'] else front) ++
    (if back.isEmpty then [] else '.' :: back))

def spelling (start : List Char) : Scan String := do
  return String.ofList (start.take (start.length - (← rest).length))

def exponent (flags : Flags) : Scan Int := do
  match ← current with
  | none => fail (← pos) .exponentExpected
  | some sign =>
    if sign == '+' || sign == '-' then advance
    let value : Int := digitsValue 10 (← someDigits flags 10)
    return if sign == '-' then -value else value

def legacyOctal (flags : Flags) (start : Nat) (from' : List Char) (value : Nat) : Scan Token := do
  rejectIdentifier
  note flags start .legacyOctalNumber
  note flags start .legacyOctalEscape
  return .number (toString value) (← spelling from')

def numberTail (flags : Flags) (from' whole : List Char) : Scan Token := do
  let fraction ← if ← eat '.' then digits flags 10 (← rest).length else pure []
  let hasPower ← if ← eat 'e' then pure true else eat 'E'
  let power ← if hasPower then exponent flags else pure 0
  rejectIdentifier
  return .number (positional whole fraction power) (← spelling from')

def decimal (flags : Flags) : Scan Token := do
  let start ← pos
  let from' ← rest
  let ds ← someDigits flags 10
  if ← eat 'n' then
    return .bigInt (toString (digitsValue 10 ds)) (← spelling from')
  if ds.head? == some '0' then
    if ds.all (· == '0') then
      if (← pos) != start + 1 then return ← legacyOctal flags start from' 0
    else if ds.any (fun c => c == '8' || c == '9') then note flags start .legacyDecimal
    else return ← legacyOctal flags start from' (digitsValue 8 ds)
  numberTail flags from' ds

def prefixed (flags : Flags) (radix : Nat) : Scan Token := do
  let from' ← rest
  advanceBy 2
  let ds ← someDigits flags radix
  if ← eat 'n' then
    return .bigInt (toString (digitsValue radix ds)) (← spelling from')
  rejectIdentifier
  return .number (toString (digitsValue radix ds)) (← spelling from')

def number (flags : Flags) : Scan Token := do
  match ← rest with
  | '0' :: 'x' :: _ | '0' :: 'X' :: _ => prefixed flags 16
  | '0' :: 'o' :: _ | '0' :: 'O' :: _ => prefixed flags 8
  | '0' :: 'b' :: _ | '0' :: 'B' :: _ => prefixed flags 2
  | '.' :: more => numberTail flags ('.' :: more) []
  | _ => decimal flags

def escapedChar (value : Nat) (written : List Char) : List Char :=
  -- half of a surrogate pair is kept as it was written
  if h : value.isValidChar then [Char.ofNatAux value h] else written

def unicodeEscape (flags : Flags) : Scan (List Char) := do
  let from' ← rest
  advance
  let curly ← eat '{'
  let length := (← rest).length
  let ds ← digits flags 16 (if curly then length else 4)
  let value := digitsValue 16 ds
  if ds.isEmpty || (!curly && ds.length != 4) then
    fail (← pos) (.badEscape (if curly then "1-6 hex characters" else "4 hex characters"))
  if value > 0x10FFFF then
    fail (← pos) (.badEscape (if curly then "1-6 hex characters in the range 0 to 10FFFF."
      else "4 hex characters"))
  if curly then unless ← eat '}' do fail (← pos) .invalidUnicodeEscape
  let written := from'.take (from'.length - (← rest).length)
  return escapedChar value ('\\' :: written)

def octalEscape (flags : Flags) (start : Nat) (inTemplate : Bool) (c : Char) :
    Scan (List Char) := do
  if c == '0' && !(← current).any (fun n => (digit? 8 n).isSome) then return [Char.ofNat 0]
  if inTemplate then fail start .legacyOctalEscape
  note flags start .legacyOctalEscape
  let more ← if c ≤ '3' then digits flags 8 2 else digits flags 8 1
  return [Char.ofNat (digitsValue 8 (c :: more))]

def escape (flags : Flags) (inTemplate : Bool) : Scan (List Char) := do
  let start ← pos
  advance
  match ← current with
  | none => fail start .invalidEscape
  | some c =>
    if c == 'x' then
      advance
      let ds ← digits flags 16 2
      if ds.length != 2 then fail start (.badEscape "2 hex characters")
      return [Char.ofNat (digitsValue 16 ds)]
    else if c == 'u' then
      try unicodeEscape flags catch fault => fail start fault.cause
    else if '0' ≤ c && c ≤ '7' then
      advance
      octalEscape flags start inTemplate c
    else
      advance
      if c == '\r' then discard <| eat '\n'
      -- a line continuation stands for nothing
      if isLineEnd c then return []
      return [match c with
        | 'n' => '\n'
        | 'r' => '\r'
        | 't' => '\t'
        | 'b' => Char.ofNat 8
        | 'v' => Char.ofNat 11
        | 'f' => Char.ofNat 12
        | c => c]

def stringBody (flags : Flags) (quote : Char) : Nat → Scan (List Char × Bool)
  | 0 => return ([], false)
  | fuel + 1 => do
    match ← current with
    | none => return ([], false)
    | some c =>
      if c == quote then
        advance
        return ([], true)
      else if c == '\n' || c == '\r' then return ([], false)
      else
        let part ← if c == '\\' then escape flags false else (do advance; return [c])
        let (more, closed) ← stringBody flags quote fuel
        return (part ++ more, closed)

def string (flags : Flags) (quote : Char) : Scan Token := do
  let start ← pos
  let from' ← rest
  advance
  let (value, closed) ← stringBody flags quote (from'.length + 1)
  unless closed do note flags start .unterminatedString
  return .string (String.ofList value) (← spelling from')

def tagString (quote : Char) : Scan Token := do
  let start ← pos
  let from' ← rest
  advance
  let value ← takeWhile (· != quote)
  unless ← eat quote do fail start .unterminatedString
  return .string (String.ofList value) (← spelling from')

def nameBody (flags : Flags) : Nat → Scan (List Char × Bool)
  | 0 => return ([], false)
  | fuel + 1 => do
    match ← current with
    | some '\\' =>
      let start ← pos
      advance
      if (← current) != some 'u' then fail start .unicodeEscapeExpected
      let part ← unicodeEscape flags
      if part.head?.any (!isIdentifierPart ·) then note flags start .invalidNameCharacter
      let (more, _) ← nameBody flags fuel
      return (part ++ more, true)
    | some c =>
      if isIdentifierPart c then
        advance
        let (more, escaped) ← nameBody flags fuel
        return (c :: more, escaped)
      else return ([], false)
    | none => return ([], false)

def word (flags : Flags) : Scan Token := do
  let start ← pos
  let (name, escaped) ← nameBody flags ((← rest).length + 1)
  let name := String.ofList name
  if escaped && isReserved name then fail start (.escapedReservedWord name)
  return .word name

def regexBody (start : Nat) (escaped inClass : Bool) : Nat → Scan (List Char)
  | 0 => fail start .unterminatedRegex
  | fuel + 1 => do
    match ← current with
    | none => fail start .unterminatedRegex
    | some c =>
      if isLineEnd c then fail start .unterminatedRegex
      else if escaped then
        advance
        return c :: (← regexBody start false inClass fuel)
      else if c == '/' && !inClass then return []
      else
        let inClass := if c == '[' then true else if c == ']' then false else inClass
        advance
        return c :: (← regexBody start (c == '\\') inClass fuel)

def regex (flags : Flags) : Scan Token := do
  let start ← pos
  advance
  let body ← regexBody start false false ((← rest).length + 1)
  advance
  let marks ←
    if (← current).any isIdentifierStart then nameBody flags ((← rest).length + 1)
    else pure ([], false)
  return .regex (String.ofList body) (String.ofList marks.1)

def backquote : Char := Char.ofNat 0x60

def doubleQuote : Char := Char.ofNat 0x22

def singleQuote : Char := Char.ofNat 0x27

def isQuote (c : Char) : Bool :=
  c == doubleQuote || c == singleQuote

def chunkBody (flags : Flags) (start : Nat) : Nat → Scan (Option Fault)
  | 0 => fail start .unterminatedTemplate
  | fuel + 1 => do
    match ← rest with
    | [] => fail start .unterminatedTemplate
    | '$' :: '{' :: _ => return none
    | '\\' :: _ =>
      let fault ← try (do discard <| escape flags true; pure none) catch fault => pure (some fault)
      let more ← chunkBody flags start fuel
      return fault.or more
    | c :: _ =>
      if c == backquote then return none
      if isLineEnd c then modify fun s => { s with lineBreak := true }
      advance
      chunkBody flags start fuel

def isChunk : Option Token → Bool
  | some (.chunk ..) => true
  | _ => false

def templateToken (flags : Flags) : Scan Token := do
  let start ← pos
  let from' ← rest
  let fault ← chunkBody flags start (from'.length + 1)
  -- an empty chunk behind a chunk: a hole or the end of the template comes next
  if (← pos) == start && isChunk (← get).last then
    if ← eat '$' then
      advance
      return .mark holeOpen
    advance
    return .mark "`"
  return .chunk (← spelling from') fault

/-- A line of seven such marks is what a version control system leaves at a conflict. -/
def conflictAhead (c : Char) : Scan Bool := do
  let s ← get
  return s.lineBreak && (List.replicate 7 c ++ [' ']).isPrefixOf s.rest

def longestMark (marks : List String) : Scan Token := do
  for mark in marks do
    if ← startsWith mark then
      advanceBy mark.length
      return .mark mark
  advance
  return .mark ""

def marksFrom (c : Char) : List String :=
  match c with
  | '!' => ["!==", "!=", "!"]
  | '=' => ["===", "==", "=>", "="]
  | '+' => ["++", "+=", "+"]
  | '-' => ["--", "-=", "-"]
  | '*' => ["**=", "**", "*=", "*"]
  | '%' => ["%=", "%"]
  | '&' => ["&&=", "&&", "&=", "&"]
  | '|' => ["||=", "||", "|=", "|"]
  | '^' => ["^=", "^"]
  | '/' => ["/=", "/"]
  | '?' => ["??=", "??", "?"]
  | '<' => ["<<=", "<<", "<=", "<"]
  | '>' => [">>>=", ">>>", ">>=", ">>", ">=", ">"]
  | '.' => ["...", "."]
  | c => [c.toString]

def isMarkStart (c : Char) : Bool :=
  "!=+-*%&|^/?<>.#(),:;@[]~`".toList.contains c || c == '{' || c == '}'

def plainToken (flags : Flags) : Nat → Scan (Option Token)
  | 0 => return none
  | fuel + 1 => do
    match ← rest with
    | [] => return none
    | '<' :: '!' :: '-' :: '-' :: _ =>
      if flags.inType then
        advance
        return some (.mark "<")
      let start ← pos
      advance
      lineComment 3
      skipSpaces flags
      note flags start .legacyComment
      plainToken flags fuel
    | '-' :: '-' :: '>' :: _ =>
      let start ← pos
      -- only at the beginning of a line
      if (← get).lineBreak then
        advanceBy 3
        note flags start .legacyComment
        lineComment 0
        skipSpaces flags
        plainToken flags fuel
      else return some (← longestMark ["--"])
    | c :: more =>
      if c.toNat == 0 then
        advance
        return none
      else if isQuote c then return some (← string flags c)
      else if c.isDigit then return some (← number flags)
      else if c == '.' && more.head?.any Char.isDigit then return some (← number flags)
      else if c == '\\' || isIdentifierStart c then return some (← word flags)
      -- type arguments close one at a time
      else if (c == '<' || c == '>') && flags.inType then
        advance
        return some (.mark c.toString)
      else if ['<', '>', '=', '|'].contains c && (← conflictAhead c) then
        let start ← pos
        note flags start .conflictMarker
        lineComment 7
        skipSpaces flags
        fail start .conflictMarker
      else if isMarkStart c then return some (← longestMark (marksFrom c))
      else
        let start ← pos
        advance
        fail start (.unexpectedCharacter c)

def elementTextBody (flags : Flags) (start : Nat) : Nat → Scan Unit
  | 0 => fail start .unterminatedElement
  | fuel + 1 => do
    match ← current with
    | none => fail start .unterminatedElement
    | some c =>
      if c == '<' || c == '{' then return
      if c == '>' then
        note flags (← pos) (.textNeedsEscape "`\x7b'>'\x7d` or `&gt;`")
      else if c == '}' then
        note flags (← pos) (.textNeedsEscape "`\x7b'\x7d'\x7d` or `&rbrace;`")
      else if isLineEnd c then modify fun s => { s with lineBreak := true }
      advance
      elementTextBody flags start fuel

def elementToken (flags : Flags) : Scan (Option Token) := do
  let s ← get
  match s.rest with
  | '<' :: _ =>
    if s.operandAllowed then
      advance
      return some .tagOpen
    plainToken flags (s.rest.length + 1)
  | '{' :: _ => plainToken flags (s.rest.length + 1)
  | _ =>
    elementTextBody flags s.pos (s.rest.length + 1)
    return some (.elementText (← spelling s.rest))

def tagToken? : Scan (Option Token) := do
  let s ← get
  match s.contexts.head?, s.rest with
  | some ctx, c :: _ =>
    if ctx != .openTag && ctx != .closeTag then return none
    if isIdentifierStart c then
      let name ← takeWhile fun c => isIdentifierPart c || c == '-'
      return some (.tagName (String.ofList name))
    if c == '>' then
      advance
      return some .tagEnd
    if isQuote c && ctx == .openTag then return some (← tagString c)
    return none
  | _, _ => return none

def tokenHere (flags : Flags) : Scan (Option Token) := do
  let s ← get
  if s.rest.isEmpty then
    set s.settle
    return none
  let fuel := s.rest.length + 1
  if !flags.inPropertyName && !flags.inType then
    if s.contexts.head? == some .element then return ← elementToken flags
    if let some token ← tagToken? then return some token
    if s.operandAllowed && s.rest.head? == some '<' && s.rest.tail.head? != some '!' then
      if ← conflictAhead '<' then
        note flags s.pos .conflictMarker
        lineComment 7
        skipSpaces flags
        return ← plainToken flags fuel
      advance
      return some .tagOpen
  if s.contexts.head? == some .template then return some (← templateToken flags)
  plainToken flags fuel

end Scan

namespace Scanner

def opensBlock (contexts : List Context) (last : Option Token) (lineBreak operandAllowed : Bool) :
    Bool :=
  let top := contexts.head?
  if last == some (.mark ":") && top == some .block then true
  else if last == some (.mark ":") && top == some .braces then false
  else match last with
    | none => true
    | some (.word "return") | some (.word "yield") => lineBreak
    | some (.word "else") | some (.mark ";") | some (.mark ")") | some (.mark "=>")
    | some (.mark "<") | some (.mark ">") => true
    | some token =>
      if token == .mark braceOpen then
        (top == some .braces && contexts.tail.head? == some .openTag) || top == some .block
      else (lineBreak && !token.precedesOperand) || !operandAllowed

/-- The open constructs behind a token, and whether an operand may follow it. -/
def contextsAfter (contexts : List Context) (last : Option Token) (lineBreak operandAllowed : Bool)
    (token : Token) : List Context × Bool :=
  -- a keyword behind a dot is a plain name
  if token.isKeyword && last == some (.mark ".") then (contexts, false)
  else match token with
    | .word "function" =>
      if operandAllowed && !opensBlock contexts last lineBreak operandAllowed then
        (.functionValue :: contexts, false)
      else (contexts, false)
    | .word "class" =>
      if operandAllowed && !opensBlock contexts last lineBreak operandAllowed then
        (.classValue :: contexts, false)
      else (contexts, false)
    | .word text =>
      if Syntax.isKeyword text then (contexts, token.precedesOperand)
      else if text == "of" && contexts.head? == some (.statementParens true) then
        (contexts, !last.any Token.precedesOperand)
      else if text == "null" || text == "true" || text == "false" then (contexts, false)
      else (contexts, lineBreak &&
        (last == some (.word "let") || last == some (.word "const") || last == some (.word "var")))
    | .mark mark =>
      if mark == ")" || mark == braceClose then
        match contexts with
        -- the body of a function or class used as a value, so no operand follows
        | .block :: .functionValue :: outer | .block :: .classValue :: outer => (outer, false)
        | .hole :: outer => (outer, outer.head? != some .template)
        | out :: inner :: outer => (inner :: outer, !out.isOperand)
        | short => (short, true)
      else if mark == braceOpen then
        if contexts.head? == some .openTag then (.braces :: contexts, true)
        else if contexts.head? == some .element then (.hole :: contexts, true)
        else if opensBlock contexts last lineBreak operandAllowed then (.block :: contexts, true)
        else (.braces :: contexts, true)
      else if mark == "/" && last == some .tagOpen then (.closeTag :: contexts.drop 2, false)
      else if mark == holeOpen then (.hole :: contexts, true)
      else if mark == "(" then
        match last with
        | some (.word "for") => (.statementParens true :: contexts, true)
        | some (.word "if") | some (.word "with") | some (.word "while") =>
          (.statementParens false :: contexts, true)
        | _ => (.parens :: contexts, true)
      else if mark == "++" || mark == "--" then (contexts, operandAllowed)
      else if mark == "`" then
        if contexts.head? == some .template then (contexts.tail, false)
        else (.template :: contexts, false)
      else if mark == ":" && (contexts.head? == some .functionValue ||
          contexts.head? == some .classValue) then (contexts.tail, true)
      else (contexts, token.precedesOperand)
    | .tagOpen => (.openTag :: .element :: contexts, false)
    | .tagEnd =>
      let closes := (contexts.head? == some .openTag && last == some (.mark "/")) ||
        contexts.head? == some .closeTag
      if closes then
        let outer := contexts.drop 2
        (outer, outer.head? == some .element)
      else (contexts.tail, true)
    | _ => (contexts, token.precedesOperand)

def accept (s : Scanner) (token : Token) : Scanner :=
  let (contexts, operandAllowed) :=
    contextsAfter s.contexts s.last s.lineBreak s.operandAllowed token
  { s with contexts, operandAllowed, last := some token }

def run {α : Type} (s : Scanner) (action : Scan α) : Except Fault α × Scanner :=
  match action s with
  | .ok a s' => (.ok a, s')
  | .error e s' => (.error e, s')

/-- Cuts the next token. A fault of the text becomes a token of its own. -/
def next (s : Scanner) (flags : Flags) : Option Lexeme × Scanner :=
  if s.regexAtStart then
    let (rest, start) := s.start
    let (result, after) := { s with rest, pos := start }.run (Scan.regex flags)
    let token := match result with
      | .ok token => token
      | .error fault => .bad fault
    let after := after.accept token
    (some ⟨token, start, after.pos, after.lineBreak⟩, after)
  else if s.first && "#!".toList.isPrefixOf s.rest then
    let (_, after) := s.run (Scan.takeWhile (!isLineEnd ·))
    let after := { after with first := false }.accept .shebang
    (some ⟨.shebang, s.pos, after.pos, after.lineBreak⟩, after)
  else
    let s := { s with lineBreak := s.first, first := false }
    let skips := !s.contexts.head?.any Context.keepsSpace
    let (_, s) := if skips then s.run (Scan.skipSpaces flags) else (.ok (), s)
    let start := s.pos
    let s := { s with start := (s.rest, start) }
    let (result, after) := s.run (Scan.tokenHere flags)
    match result with
    | .ok none => (none, after)
    | .ok (some token) =>
      let after := after.accept token
      (some ⟨token, after.start.2, after.pos, after.lineBreak⟩, after)
    | .error fault =>
      let after := after.accept (.bad fault)
      (some ⟨.bad fault, start, after.pos, after.lineBreak⟩, after)

end Scanner

end ModuleHost.Syntax
