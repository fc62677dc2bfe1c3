import WebModules.Script.Grammar.Expression

/-!
Statements and declarations.
-/

namespace WebModules.Script.Clause

/-- The statements up to the closing brace, and that brace.  `topLevel` allows import and export
declarations among them. -/
def blockTail (topLevel : Bool) : Clause (List Tree) := do
  let found ← collect do
    if ← isFinish then
      report .here (.expected "\x7d")
      return none
    else if ← eat .closeBrace then return none
    else return some (← rule (.statement true topLevel))
  return found

def block : Clause Tree := do
  let first ← mark
  expect .openBrace
  node .group first (← blockTail false)

/-- Complains about shorthand properties with a default that no pattern has taken up. -/
def checkShorthands (tree : Tree) : Clause Unit :=
  reportAll .initializedShorthand tree.initializedShorthands

/-- A variable of a declaration, and whether it has a value. -/
def declarator (inHead isConst : Bool) : Clause (Tree × Bool) := do
  let first ← mark
  let target ← rule .bindingTarget
  if target.isBoundName then
    let _ ← eat .bang
  let target ← withParts target (← annotation?)
  let isLoop ← if inHead then do pure ((← isWord "in") || (← isWord "of")) else pure false
  if isLoop then return (← node .group first [target], false)
  else if ← eat .assign then
    let value ← assignment
    checkShorthands value
    return (← node .group first [target, value], true)
  else
    unless (← context).ambient do
      if isConst && !inHead then report (.token first) .constWithoutValue
      else unless target.isBoundName do fail (.token first) .patternWithoutValue
    return (← node .group first [target], false)

/-- The variables of a declaration, each with whether it has a value. -/
def declarators (inHead isConst : Bool) (keyword : Nat) : Clause (List (Tree × Bool)) := do
  let found ← repeating (fun (found : List (Tree × Bool)) => do
    if (← isSign .semicolon) || (← isFinish) then
      let number ← mark
      report (if number = keyword + 1 then .afterLast else .token (number - 1)) .trailingComma
      return .inr found
    else
      let found := (← declarator inHead isConst) :: found
      if ← eat .comma then return .inl found else return .inr found) []
  return found.reverse

/-- Passes over what follows a declaration that has not ended, up to where a statement may end. -/
def skipToEnd : Clause Unit := do
  rescued (do
    let _ ← expression) (return some ())
  repeating (fun (_ : Unit) => do
    if ← eatEnd then return .inr ()
    else
      take
      if (← current) == .malformed then return .inr () else return .inl ()) ()

/-- A declaration of variables from its keyword on. -/
def variableStatement : Clause Tree := do
  let first ← mark
  let isConst ← isWord "const"
  take
  let found ← withIn true (declarators false isConst first)
  unless ← eatEnd do
    report .here .semicolonExpected
    skipToEnd
  node .statement first (found.map Prod.fst)

/-- Whether the word `let`, which is next, starts a declaration. -/
def letDeclares : Clause Bool := do
  match ← ahead with
  | .word word => return !isKeyword word || ["let", "yield", "await"].contains word
  | .sign .openBrace | .sign .openBracket => return true
  | _ => return false

def condition : Clause Tree := do
  expect .openParen
  let test ← withIn true expression
  expect .closeParen
  return test

/-- A statement that is part of another one, where no declaration may stand. -/
def substatement : Clause Tree := rule (.statement false false)

def ifStatement : Clause Tree := do
  let first ← mark
  take
  let test ← condition
  let positive ← substatement
  if ← eatWord "else" then
    let negative ← substatement
    node .statement first [test, positive, negative]
  else node .statement first [test, positive]

def returnStatement : Clause Tree := do
  let first ← mark
  take
  let value ← if ← isEnd then pure [] else do pure [← withIn true expression]
  expectEnd
  unless (← context).inFunction do report (.token first) .returnOutside
  node .statement first value

/-- A case of a switch and its statements.  `seen` tells that there was a default case. -/
def switchCase (seen : Bool) : Clause (Tree × Bool) := do
  let first ← mark
  let isDefault ← isWord "default"
  take
  if isDefault && seen then fail (.token first) .duplicateDefault
  let test ← if isDefault then pure [] else do pure [← withIn true expression]
  expect .colon
  let found ← collect do
    if (← isFinish) || (← isSign .closeBrace) || (← isWord "case") || (← isWord "default") then
      return none
    else return some (← rule (.statement true false))
  return (← node .group first (test ++ found), seen || isDefault)

def switchStatement : Clause Tree := do
  let first ← mark
  take
  let value ← condition
  expect .openBrace
  let cases ← within (fun c => { c with breakAllowed := true })
    (repeating (fun (state : List Tree × Bool) => do
      let (found, seen) := state
      if (← isWord "case") || (← isWord "default") then
        let (found', seen) ← switchCase seen
        return .inl (found' :: found, seen)
      else return .inr found.reverse) ([], false))
  expect .closeBrace
  node .statement first (value :: cases)

def throwStatement : Clause Tree := do
  let first ← mark
  take
  if ← lineBreak then fail .here .lineBreakAfterThrow
  let value ← withIn true expression
  expectEnd
  node .statement first [value]

/-- What a catch clause binds. -/
def caught : Clause (List Tree) := do
  if ← eat .openParen then
    let target ← rule .bindingTarget
    let target ← withParts target (← annotation?)
    expect .closeParen
    return [target]
  else return []

def catchClause : Clause (Option (List Tree)) := do
  if ← eatWord "catch" then
    let target ← caught
    return some (target ++ [← rule .block])
  else return none

def finallyClause : Clause (Option Tree) := do
  if ← eatWord "finally" then return some (← rule .block) else return none

def tryStatement : Clause Tree := do
  let first ← mark
  take
  let block ← rule .block
  let number ← mark
  let handler ← catchClause
  let final ← finallyClause
  if handler.isNone && final.isNone then report (.token number) .semicolonExpected
  node .statement first (block :: handler.getD [] ++ final.toList)

/-- A catch or finally clause without its try statement.  Its word stands for it. -/
def strayClause : Clause Tree := do
  let first ← mark
  report .here .semicolonExpected
  let _ ← catchClause
  let _ ← finallyClause
  return .node .statement first (first + 1) [.node .invalid first (first + 1) []]

def inLoop (c : Context) : Context := { c with breakAllowed := true, continueAllowed := true }

def whileStatement : Clause Tree := do
  let first ← mark
  take
  let test ← condition
  let body ← within inLoop substatement
  node .statement first [test, body]

/-- A `do` statement.  Its test is visited before its body. -/
def doStatement : Clause Tree := do
  let first ← mark
  take
  let body ← within inLoop substatement
  expectWord "while"
  let test ← condition
  let _ ← eat .semicolon
  node .statement first [test, body]

/-- What a loop goes over, after `of` or `in`, and whether it was `of`. -/
def loopRange : Clause (Tree × Bool) := do
  let isOf ← isWord "of"
  take
  let range ← withIn true (if isOf then assignment else expression)
  return (range, isOf)

/-- The test and step of a loop, after the first semicolon. -/
def loopSteps : Clause (List Tree) := do
  let test ← if ← eat .semicolon then pure []
    else do
      let test ← withIn true expression
      expect .semicolon
      pure [test]
  let step ← if ← isSign .closeParen then pure [] else do pure [← withIn true expression]
  return test ++ step

def isLoopWord : Clause Bool := do return (← isWord "of") || (← isWord "in")

/-- Complains about variables that no loop may declare. -/
def checkLoopVariables : List (Tree × Bool) → Clause Unit
  | [(only, valued)] => do
    if valued then report (.token only.first) .loopInitializer
    if let some target := only.children.head? then
      if target.shape != .objectPattern && target.shape != .arrayPattern
          && !target.children.isEmpty then
        report (.token target.first) .loopVariableTyped
  | found => reportAll .severalLoopVariables ((found.drop 1).map fun v => v.1.first)

/-- The head of a loop that declares variables, and whether it is one with `of`. -/
def declaringHead : Clause (List Tree × Bool) := do
  let first ← mark
  let isConst ← isWord "const"
  let isVar ← isWord "var"
  take
  let empty ← if ← isLoopWord then
      foresee do
        let found ← attempt do
          take
          let _ ← assignment
          expect .closeParen
          return some ()
        return found.isSome
    else pure false
  if empty then report .afterLast .loopWithoutVariables
  let found ← if empty then pure []
    else withIn (!isVar) (declarators true isConst first)
  let declared := Tree.ofParts (found.map Prod.fst)
  if ← isLoopWord then
    checkLoopVariables found
    let (range, isOf) ← loopRange
    return ([declared, range], isOf)
  else
    expect .semicolon
    return (declared :: (← loopSteps), false)

/-- The head of a loop between parentheses, and whether it is one with `of`. -/
def loopHead : Clause (List Tree × Bool) := do
  let declares ← if (← isWord "const") || (← isWord "var") then pure true
    else if ← isWord "let" then letDeclares
    else pure false
  if declares then declaringHead
  else if ← eat .semicolon then return (← loopSteps, false)
  else
    let start ← withIn false expression
    if ← isLoopWord then
      let isIn ← isWord "in"
      let target ← rule (.asPattern true false start)
      if isIn && target.shape != .targetPattern && !target.isBoundName then
        report (.token target.first) .loopPattern
      let (range, isOf) ← loopRange
      return ([target, range], isOf)
    else
      expect .semicolon
      checkShorthands start
      return (start :: (← loopSteps), false)

def forStatement : Clause Tree := do
  let first ← mark
  take
  let awaitWord ← mark
  let isAwait ← eatWord "await"
  expect .openParen
  let (head, isOf) ← within (fun c => { c with loopHead := true, awaitLoopHead := isAwait })
    loopHead
  expect .closeParen
  let body ← within inLoop substatement
  if isAwait && !isOf then fail (.token awaitWord) .awaitOutsideForOf
  node .statement first (head ++ [body])

/-- The label in a `break` or `continue` statement, up to its end. -/
def jumpLabel? : Clause (Option String) := do
  if ← eatEnd then return none
  else
    let label ← identifier false
    expectEnd
    return some label

/-- A `break` or `continue` statement. -/
def jumpStatement : Clause Tree := do
  let first ← mark
  let isBreak ← isWord "break"
  take
  let label ← jumpLabel?
  let known := (← notes).labels
  let unknown := label.any fun label => !known.contains label
  let surroundings ← context
  if isBreak then
    if unknown then report (.token first) .breakToNowhere
    else if !surroundings.breakAllowed then report (.token first) .breakOutside
  else if !surroundings.continueAllowed then report (.token first) .continueToNowhere
  else if unknown then report (.token first) .labelOutOfReach
  node .statement first []

/-- A statement after its label. -/
def labelled (first : Nat) (label : String) : Clause Tree :=
  within (fun c => { c with breakAllowed := true }) do
    let repeated := (← notes).labels.contains label
    note fun n => { n with labels := label :: n.labels }
    let body ← if ← isWord "function" then do
        let number ← mark
        report (.token number) .labelledFunction
        let function ← rule (.namedFunction none false true)
        pure (function.reshape .statement)
      else substatement
    if repeated then report (.token first) (.duplicateLabel label)
    note fun n => { n with labels := n.labels.erase label }
    node .statement first [body]

def withStatement : Clause Tree := do
  let first ← mark
  report .here .withStatement
  take
  let value ← condition
  let body ← substatement
  node .statement first [value, body]

def functionStatement (declarations : Bool) : Clause Tree := do
  unless declarations do report .here .declarationNotHere
  let function ← rule (.namedFunction none false true)
  return function.reshape .statement

def classStatement (first : Nat) : Clause Tree := do
  let tree ← rule (.classTail first true)
  return tree.reshape .statement

/-- The name of a member of an enumeration, as the expressions in it. -/
def enumName (first : Nat) : Clause (List Tree) := do
  match ← need with
  | .string =>
    take
    return []
  | .number =>
    report .here .numericEnumMember
    take
    return []
  | .sign .openBracket =>
    take
    let name ← expression
    report (.token first) .computedEnumMember
    expect .closeBracket
    return [name]
  | _ =>
    let _ ← anyWord
    return []

def enumMember : Clause Tree := do
  let first ← mark
  let name ← enumName first
  let value ← if ← eat .assign then do pure [← assignment] else pure []
  node .group first (name ++ value)

/-- An enumeration after the word `enum`. -/
def enumTail (first : Nat) : Clause Tree := do
  let _ ← anyWord
  expect .openBrace
  let found ← repeating (fun (found : List Tree) => do
    if ← isSign .closeBrace then return .inr found
    else if ← isFinish then return .inr found
    else
      let found := (← enumMember) :: found
      if ← eat .comma then return .inl found
      else if ← isSign .closeBrace then return .inr found
      else
        report .here .semicolonExpected
        take
        return .inl found) []
  expect .closeBrace
  node .statement first found.reverse

/-- The names that no interface may have. -/
def takenInterfaceNames : List String :=
  ["string", "null", "number", "object", "any", "unknown", "boolean", "bigint", "symbol", "void",
    "never", "intrinsic"]

/-- An interface after the word `interface`. -/
def interfaceTail (first : Nat) : Clause Tree := do
  let number ← mark
  let name ← anyWord
  if takenInterfaceNames.contains name then report (.token number) .interfaceName
  let generics ← typeParameters?
  let bases ← if ← eatWord "extends" then heritages else pure []
  if ← isWord "extends" then
    report .here .secondExtends
    repeating (fun (_ : Unit) => do
      if (← isFinish) || (← isSign .openBrace) then return .inr ()
      else
        take
        return .inl ()) ()
  let members ← inType typeMembers
  node .statement first (generics ++ bases ++ [members])

/-- A type alias after the word `type`. -/
def aliasTail (first : Nat) : Clause Tree := do
  let _ ← anyWord
  let generics ← typeParameters?
  let aliased ← inType do
    unless ← eat .assign do unexpected "="
    type
  expectEnd
  node .statement first (generics ++ [aliased])

/-- The statements and declarations of a namespace. -/
def moduleBlock : Clause Tree := do
  let first ← mark
  expect .openBrace
  node .group first (← blockTail true)

/-- A namespace after its first word. -/
def namespaceTail (first : Nat) : Clause Tree := do
  let _ ← anyWord
  if ← eat .dot then
    let inner ← rule (.namespaceTail first)
    node .statement first inner.children
  else
    let block ← moduleBlock
    node .statement first [block]

/-- A declaration of a module named by a string, or of the global scope. -/
def ambientModule (first : Nat) : Clause Tree := do
  match ← need with
  | .word "global" => take
  | .string => take
  | _ => unexpected "global or a string literal"
  if ← isSign .openBrace then
    let block ← moduleBlock
    node .statement first [block]
  else
    expectEnd
    node .statement first []

/-- A declaration that begins with a word which is no keyword.  `next` tells that the word is still
to be read. -/
def wordDeclaration? (first : Nat) (word : String) (next : Bool) : Clause (Option Tree) := do
  let takeWord : Clause Unit := if next then take else pure ()
  match word with
  | "abstract" =>
    if next || ((← isWord "class") && !(← lineBreak)) then
      takeWord
      return some (← classStatement first)
    else return none
  | "enum" =>
    if next || (← isName) then
      takeWord
      return some (← enumTail first)
    else return none
  | "interface" =>
    if next || (← isName) then
      takeWord
      return some (← interfaceTail first)
    else return none
  | "module" =>
    if ← lineBreak then return none
    else
      takeWord
      if ← isString then return some (← ambientModule first)
      else if next || (← isName) then return some (← rule (.namespaceTail first))
      else return none
  | "namespace" =>
    if next || (← isName) then
      takeWord
      return some (← rule (.namespaceTail first))
    else return none
  | "type" =>
    if next || (!(← lineBreak) && (← isName)) then
      takeWord
      return some (← aliasTail first)
    else return none
  | _ => return none

/-- What may follow the word `declare`. -/
def ambientBody? (first : Nat) : Clause (Option Tree) := do
  match ← current with
  | .word "function" =>
    let function ← rule (.namedFunction none false true)
    return some (function.asStatementFrom first)
  | .word "class" => return some (← classStatement first)
  | .word "const" | .word "var" | .word "let" =>
    if (← isWord "const") && (← isAheadWord "enum") then
      take
      take
      return some (← enumTail first)
    else return some ((← variableStatement).asStatementFrom first)
  | .word "global" => return some (← ambientModule first)
  | .word word => wordDeclaration? first word true
  | _ => return none

/-- A declaration without implementation, after the word `declare`. -/
def ambientDeclaration? (first : Nat) : Clause (Option Tree) := do
  if (← context).ambient then report (.token first) .nestedDeclare
  within (fun c => { c with ambient := true }) (ambientBody? first)

/-- A declaration that begins with the name just read as an expression. -/
def namedDeclaration? (first : Nat) (name : String) : Clause (Option Tree) := do
  match name with
  | "declare" => ambientDeclaration? first
  | "global" =>
    if ← isSign .openBrace then
      let block ← moduleBlock
      return some (← node .statement first [block])
    else return none
  | name => wordDeclaration? first name false

/-- The end of a statement that is an expression.  Where an operator follows instead, that and what
follows it are part of the statement. -/
def expressionEnd (first : Nat) (tree : Tree) : Clause Tree := do
  if ← eatEnd then node .expressionStatement first [tree]
  else if ← isBinarySign then
    report .here .semicolonExpected
    let tree ← rule (.binaryTail tree 0)
    node .expressionStatement first [tree]
  else fail .here .statementNotEnded

/-- A statement that begins with an expression: that expression, a labelled statement, or a
declaration whose first word was read as a name. -/
def expressionStatement (first : Nat) : Clause Tree := do
  let tree ← withIn true expression
  match tree.shape with
  | .variable name =>
    if ← eat .colon then labelled first name
    else (namedDeclaration? first name).otherwise (expressionEnd first tree)
  | _ =>
    checkShorthands tree
    expressionEnd first tree

/-- A statement that begins with `await`. -/
def awaitStatement (first : Nat) : Clause Tree := do
  let operand ← awaited
  let tree ← withIn true (rule (.binaryTail operand 0))
  let _ ← eatEnd
  node .expressionStatement first [tree]

/-- Whether a word is followed by another one on the same line. -/
def isWordAheadHere : Clause Bool := do
  return (← isAheadAnyWord) && !(← lineBreakAhead)

/-- A statement that is no import or export.  `declarations` allows declarations. -/
def ordinaryStatement (declarations topLevel : Bool) : Clause Tree := do
  let first ← mark
  match ← need with
  | .word "const" =>
    if ← isAheadWord "enum" then
      take
      take
      enumTail first
    else if declarations then variableStatement
    else expressionStatement first
  | .word "await" =>
    if declarations || topLevel then awaitStatement first else expressionStatement first
  | .word "break" | .word "continue" => jumpStatement
  | .word "debugger" =>
    take
    expectEnd
    node .statement first []
  | .word "do" => doStatement
  | .word "for" => forStatement
  | .word "function" => functionStatement declarations
  | .word "class" =>
    unless declarations do report .here .declarationNotHere
    classStatement first
  | .word "if" => ifStatement
  | .word "return" => returnStatement
  | .word "switch" => switchStatement
  | .word "throw" => throwStatement
  | .word "catch" | .word "finally" => strayClause
  | .word "try" => tryStatement
  | .word "with" => withStatement
  | .word "while" => whileStatement
  | .word "var" => variableStatement
  | .word "let" =>
    let declares ← if declarations then letDeclares else pure false
    if declares then variableStatement else expressionStatement first
  | .word "interface" =>
    if ← isWordAheadHere then
      take
      interfaceTail first
    else expressionStatement first
  | .word "type" =>
    if ← isWordAheadHere then
      take
      aliasTail first
    else expressionStatement first
  | .word "enum" =>
    if ← isWordAheadHere then
      take
      enumTail first
    else expressionStatement first
  | .word "async" =>
    if (← isAheadWord "function") && !(← lineBreakAhead) then
      take
      let function ← rule (.namedFunction (some first) false true)
      return function.reshape .statement
    else expressionStatement first
  | .sign .openBrace =>
    let block ← rule .block
    return block.reshape .statement
  | .sign .semicolon =>
    take
    node .statement first []
  | _ => expressionStatement first

/-- A statement that begins with `import` or `export` where no declaration of these kinds may
stand: a call of `import`, or a use of `import.meta`. -/
def nestedModuleItem : Clause Tree := do
  let first ← mark
  if (← isWord "import") && ((← isAheadSign .openParen) || (← isAheadSign .dot)) then
    let tree ← expression
    let _ ← eatEnd
    node .expressionStatement first [tree]
  else fail .here .nestedModuleItem

end WebModules.Script.Clause
