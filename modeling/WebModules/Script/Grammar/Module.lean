import WebModules.Script.Grammar.Statement

/-!
Import and export declarations, and whole modules.
-/

namespace WebModules.Script.Clause

/-- The expressions in the attributes of an import, which stand on the line of its source. -/
def attributes : Clause (List Tree) := do
  if ← lineBreak then return []
  else if (← eatWord "assert") || (← eatWord "with") then return (← rule .object).children
  else return []

/-- The string that names the source of an import or export: the number of its token, and what
follows it up to the end of the declaration. -/
def source : Clause (Nat × List Tree) := do
  let number ← stringToken
  let parts ← attributes
  expectEnd
  return (number, parts)

/-- The rest of a declaration from its source on. -/
def sourced (first : Nat) (shape : Nat → Shape) : Clause Tree := do
  let (number, parts) ← source
  node (shape number) first parts

/-- The rest of a declaration that gives a name to a namespace or to a module of another kind. -/
def importEquals (first : Nat) : Clause Tree := do
  expect .assign
  if (← isWord "require") && (← isAheadSign .openParen) then
    take
    take
    let _ ← stringToken
    expect .closeParen
  else qualifiedName false
  expectEnd
  node .moduleDeclaration first []

/-- The name of something exported by a module. -/
inductive ExportName
  | word (name : String)
  | string
  deriving Inhabited

def exportName : Clause ExportName := do
  match ← current with
  | .string =>
    take
    return .string
  | .word name =>
    take
    return .word name
  | _ => unexpected "identifier or string"

/-- What a name in a list of imports or exports turns out to be. -/
inductive Listed
  /-- The name alone, which a local name may still follow; its token and whether `type` stands
  before it. -/
  | name (number : Nat) (name : String) (typed : Bool)
  /-- A name and its local name, both read. -/
  | renamed
  deriving Inhabited

/-- Reads on after the word `type` in a list of imports or exports: it may be a modifier or itself
the name.  `other` reads a local name, and `typeModifier` complains where the whole list is one of
types. -/
def afterTypeWord (first : Nat) (other : Clause Unit) (typeModifier : Clause Unit) :
    Clause Listed := do
  let number ← mark
  let name ← anyWord
  if name == "as" then
    if !(← isAnyWord) then
      typeModifier
      return .name number name true
    else
      let isAs ← isWord "as"
      other
      if isAs && (← isAnyWord) then
        other
        typeModifier
        return .renamed
      else return .renamed
  else
    typeModifier
    return .name number name (first < number)

/-- One of the names in braces of an import. -/
def importSpecifier (typeOnly : Bool) : Clause Unit := do
  let first ← mark
  let bind : Clause Unit := do
    let _ ← boundName
  let typeModifier : Clause Unit :=
    if typeOnly then report (.token first) .typeModifierOnTypeImport else pure ()
  match ← exportName with
  | .string =>
    if ← eatWord "as" then bind else fail (.token first) .stringImport
  | .word name =>
    let listed ← if name == "type" && (← isAnyWord) then afterTypeWord first bind typeModifier
      else pure (.name first name false)
    match listed with
    | .renamed => return
    | .name number name _ =>
      if ← eatWord "as" then bind
      else if isReserved name then fail (.token number) .reservedImport

/-- The items of a list in braces, after the opening one. -/
def specifiers {α : Type} (item : Clause α) : Clause (List α) := do
  let found ← repeating (fun (found : List α) => do
    if (← isFinish) || (← isSign .closeBrace) then return .inr found
    else
      let found := (← item) :: found
      if ← isSign .closeBrace then return .inr found
      else
        expect .comma
        return .inl found) []
  expect .closeBrace
  return found.reverse

/-- Whether a name is next that is not the word before the source. -/
def isNotFrom : Clause Bool := do
  return (← isName) && (!(← isWord "from") || (← isAheadWord "from"))

/-- What an import declaration starts with, before its namespace or its list of names. -/
inductive ImportHead
  | plain
  | typeOnly
  /-- An import that gives a name to a namespace. -/
  | equals
  deriving DecidableEq, Inhabited

/-- The default import, and the words that may stand before it. -/
def importHead : Clause ImportHead := do
  if !(← isName) then return .plain
  else
    let word := ← current
    let _ ← boundName
    let isType := word == .word "type"
    if isType && (← isOneOf [.times, .openBrace]) then return .typeOnly
    else
      let rebinds ← if isType then isNotFrom else pure false
      let renames ← if isType && !rebinds then do pure ((← isName) && (← isAheadSign .assign))
        else pure false
      if rebinds then
        let _ ← boundName
      else if renames then take
      let head : ImportHead := if rebinds || renames then .typeOnly else .plain
      if ← isSign .assign then return .equals
      else if word == .word "defer" && (← isSign .times) then return head
      else
        if (word == .word "defer" || word == .word "source") && (← isNotFrom) then
          let _ ← boundName
        unless ← isWord "from" do expect .comma
        return head

def importDeclaration (first : Nat) : Clause Tree := do
  take
  if (← isName) && (← isAheadSign .assign) then
    take
    importEquals first
  else if ← isString then
    sourced first fun number => .importDeclaration number false
  else
    let head ← importHead
    if head = .equals then importEquals first
    else
      if ← eat .times then
        expectWord "as"
        let _ ← boundName
      else if ← eat .openBrace then
        let _ ← specifiers (importSpecifier (head = .typeOnly))
      expectWord "from"
      sourced first fun number => .importDeclaration number (head = .typeOnly)

/-- One of the names in braces of an export: its token, and the name. -/
def exportSpecifier (typeOnly : Bool) : Clause (Nat × ExportName) := do
  let first ← mark
  let other : Clause Unit := do
    let _ ← anyWord
  let typeModifier : Clause Unit :=
    if typeOnly then report (.token first) .typeModifierOnTypeExport else pure ()
  let found ← exportName
  let listed ← match found with
    | .word "type" =>
      if ← isAnyWord then afterTypeWord first other typeModifier
      else pure (.name first "type" false)
    | .word name => pure (.name first name false)
    | .string => pure .renamed
  match listed with
  | .renamed =>
    if let .string := found then
      if ← eatWord "as" then
        let _ ← exportName
    return (first, found)
  | .name number name _ =>
    if ← eatWord "as" then
      let _ ← exportName
    return (number, .word name)

/-- Complains about an exported name that only another module could give. -/
def checkExported : Nat × ExportName → Clause Unit
  | (number, .word name) => do
    if isUnexportable name then report (.token number) (.exportWithoutSource name)
  | (number, .string) => report (.token number) .stringExport

/-- An export that lists names, with or without a source. -/
def exportList (first : Nat) (typeOnly : Bool) : Clause Tree := do
  if (← isSign .times) && !(← isAheadWord "as") then
    take
    expectWord "from"
    sourced first fun number => .exportAll number typeOnly
  else if ← eat .times then
    expectWord "as"
    let _ ← exportName
    expectWord "from"
    sourced first fun number => .exportNamed (some number) typeOnly
  else
    expect .openBrace
    let found ← specifiers (exportSpecifier typeOnly)
    if ← eatWord "from" then
      sourced first fun number => .exportNamed (some number) typeOnly
    else
      found.forM checkExported
      let _ ← eatEnd
      node (.exportNamed none typeOnly) first []

def isAsyncFunction : Clause Bool := do
  return (← isWord "async") && (← isAheadWord "function") && !(← lineBreakAhead)

/-- The declaration that an export of a declaration consists of. -/
def asDeclaration (first : Nat) (declaration : Tree) : Clause Tree :=
  node .moduleDeclaration first declaration.children

/-- The export of a declaration, or what `other` reads where there is none. -/
def exported (first : Nat) (declaration? : Clause (Option Tree)) (other : Clause Tree) :
    Clause Tree := do
  match ← declaration? with
  | some declaration => asDeclaration first declaration
  | none => other

/-- What follows `export default`. -/
def exportDefault (first : Nat) : Clause Tree := do
  if (← isWord "abstract") && (← isAheadWord "class") && !(← lineBreakAhead) then
    take
    asDeclaration first (← rule (.classTail first false))
  else if ← isWord "interface" then
    take
    asDeclaration first (← interfaceTail first)
  else if ← isWord "class" then asDeclaration first (← rule (.classTail first false))
  else if ← isAsyncFunction then
    let number ← mark
    take
    asDeclaration first (← rule (.namedFunction (some number) false false))
  else if ← isWord "function" then
    asDeclaration first (← rule (.namedFunction none false false))
  else
    let value ← withIn true assignment
    expectEnd
    node .moduleDeclaration first [value]

/-- An exported declaration that begins with a keyword. -/
def exportedDeclaration? (typeOnly : Bool) : Clause (Option Tree) := do
  let first ← mark
  if ← isWord "class" then return some (← rule (.classTail first true))
  else if typeOnly then return none
  else if ← isAsyncFunction then
    take
    return some (← rule (.namedFunction (some first) false true))
  else if ← isWord "function" then return some (← rule (.namedFunction none false true))
  else if (← isWord "const") && (← isAheadWord "enum") then
    take
    take
    return some (← enumTail first)
  else if (← isWord "var") || (← isWord "const") then return some (← variableStatement)
  else if ← isWord "let" then
    if ← letDeclares then return some (← variableStatement) else return none
  else return none

/-- An exported declaration that begins with a word which is no keyword. -/
def exportedWord? : Clause (Option Tree) := do
  let first ← mark
  match ← need with
  | .word word => attempt (wordDeclaration? first word true)
  | _ => return none

/-- An exported declaration that may stand after `declare`, or begins with a word which is no
keyword. -/
def exportedAmbient? : Clause (Option Tree) := do
  let first ← mark
  let _ ← need
  let declared ← if ← eatWord "declare" then ambientDeclaration? first else pure none
  if declared.isSome then return declared else exportedWord?

/-- What follows `export` if that is no declaration which `exportedAmbient?` reads. -/
def exportTail (first : Nat) : Clause Tree := do
  if ← eatWord "import" then
    if (← isWord "type") && (← isAheadName) then take
    let _ ← anyWord
    importEquals first
  else if ← eat .assign then
    let value ← expression
    expectEnd
    node .moduleDeclaration first [value]
  else if ← eatWord "as" then
    expectWord "namespace"
    let _ ← identifier false
    expectEnd
    node .moduleDeclaration first []
  else
    let typeOnly ← eatWord "type"
    let isDefault ← if typeOnly then pure false else eatWord "default"
    if isDefault then exportDefault first
    else exported first (exportedDeclaration? typeOnly) (exportList first typeOnly)

def exportDeclaration (first : Nat) : Clause Tree := do
  take
  exported first exportedAmbient? (exportTail first)

/-- An import or export declaration, or an expression that begins with `import`. -/
def moduleItem : Clause Tree := do
  let first ← mark
  if ← isWord "export" then exportDeclaration first
  else if (← isAheadSign .openParen) || (← isAheadSign .dot) then nestedModuleItem
  else importDeclaration first

/-- A statement, or an import or export declaration where `topLevel` allows it. -/
def statement (declarations topLevel : Bool) : Clause Tree := do
  if (← isWord "import") || (← isWord "export") then
    if topLevel then moduleItem else nestedModuleItem
  else
    within (fun c => { c with colonExpected := false }) (ordinaryStatement declarations topLevel)

def module : Clause Tree := do
  let first ← mark
  if (← current) == .shebang then take
  let items ← collect do
    if ← isFinish then return none else return some (← rule (.statement true true))
  node .module first items

end WebModules.Script.Clause
